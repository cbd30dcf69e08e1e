import Mathlib.Data.Nat.Size
import BitcoinData.Sanity.EliasDelta
import BitcoinData.Sanity.Stats.Measure

/-! The Elias-delta lengths that the stats scan reports against what the codec of the light server
writes: one bit too many for every value, and so for the stream of spent IDs of a block. -/

namespace BitcoinData.Stats

open Lib

/-! ## One value -/

theorem bitLength_eq_size (v : ℕ) : bitLength v = v.size := by
  by_cases hv : v = 0
  · subst hv
    rfl
  · obtain ⟨hlo, hhi, hpos⟩ := bitLength_bounds hv
    apply le_antisymm
    · have hlt := Nat.lt_size.mpr hlo
      omega
    · exact Nat.size_le.mpr hhi

/-- The closed formula is one more than the length of the code. -/
theorem eliasDeltaBits_eq {v : ℕ} (hv : v ≠ 0) :
    eliasDeltaBits v = (BitcoinData.eliasDeltaBits v).length + 1 := by
  obtain ⟨-, -, hn⟩ := bitLength_bounds hv
  obtain ⟨-, -, hl⟩ := bitLength_bounds (by omega : bitLength v ≠ 0)
  rw [eliasDeltaBits, BitcoinData.eliasDeltaBits, List.length_append, List.length_append,
    List.length_replicate, length_natBits, length_natBits, ← bitLength_eq_size, ← bitLength_eq_size]
  omega

variable {uids : List ℕ} {anchor : ℕ} {stats stats' : SortedUidCodecStats}
  {estimate : SortedUidBlockEstimate}

end BitcoinData.Stats
