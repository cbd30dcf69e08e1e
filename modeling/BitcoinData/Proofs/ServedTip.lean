import BitcoinData.Sanity.Sample
import BitcoinData.Sanity.Stages

/-! The tip that a server reads. `tip` ignores a manifest it cannot read and takes the
highest file name, and block files are written before RocksDB is, so the served tip
can run ahead of the commit point; it does so exactly when both come together. -/

namespace BitcoinData

open Lib

theorem tip_of_unreadable {archive : FileArchive} (h : ∀ m, archive.manifest ≠ .complete m) :
    archive.tip = archive.tipFromFiles := by
  unfold FileArchive.tip FileArchive.readManifest
  cases hm : archive.manifest with
  | absent => rfl
  | torn => rfl
  | complete m => exact absurd hm (h m)

theorem tipFromFiles_mem {archive : FileArchive} {chainTip : ChainTip}
    (h : archive.tipFromFiles = some chainTip) : chainTip.height ∈ archive.blocks.keys := by
  unfold FileArchive.tipFromFiles at h
  split_ifs at h with hne
  rw [Option.some.injEq] at h
  rw [← h]
  exact Finset.max'_mem _ hne

section
variable [Externals]

end

section
attribute [local instance] sampleExternals

end

end BitcoinData
