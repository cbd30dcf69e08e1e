import BitcoinData.Spec.Client
import BitcoinData.Spec.Server

/-! The paged sync of the README: one boundary for all pages, no explicit cut-through tip, each page
from the height after the last one. The indexer may do anything between two pages. -/

namespace BitcoinData

open Lib

/-- An answered page: its heights, the tip that was served for it, the labels that were asked for
and the blocks that its body holds, as a frame or in JSON. -/
structure SyncedPage where
  start : ℕ
  last : ℕ
  tip : ℕ
  labels : Option UInt16
  messages : List Bytes
deriving DecidableEq

/-- What a page asks for; count, byte cap, labels and format are free. -/
structure PageQuery (first next : ℕ) (q : SyncRangeQuery) : Prop where
  start : q.start = next
  cutthroughStart : q.cutthroughStart = some first
  cutthroughTip : q.cutthroughTip = none
  filterReuse : q.filterReuse = false

section
variable [Externals]

/-- A sync with the boundary `first`: the pages so far, the state of the last of them and the next
height to ask for. -/
inductive Sync (config : IndexerConfig) (chain : List BlockScanInput) (maxRangeCount : UInt32)
    (maxResponseBytes first : ℕ) : List SyncedPage → System → ℕ → Prop
  | nil : Sync config chain maxRangeCount maxResponseBytes first [] System.init first
  | page {pages : List SyncedPage} {sys sys' : System} {next : ℕ} {acts : List Action} {q : SyncRangeQuery}
      {accept : Option (List Char)} {r : RangeResponse} {tip : ChainTip}
      (sync : Sync config chain maxRangeCount maxResponseBytes first pages sys next)
      (onChain : OnChain chain acts) (indexed : run (step config) sys acts = some sys')
      (query : PageQuery first next q)
      (answered : blockRange ⟨sys'.disk.archive, maxRangeCount, maxResponseBytes⟩ q accept = .ok r)
      (served : sys'.disk.archive.tip = some tip) :
      Sync config chain maxRangeCount maxResponseBytes first
        (pages ++ [⟨r.start, r.last, tip.height, q.labels, r.messages⟩]) sys' (r.last + 1)

/-- The blocks of all pages in order, from an empty wallet. -/
def Client.sync (self : Client) (pages : List SyncedPage) : Except String (Finset ℕ) :=
  (pages.flatMap fun page => page.messages.zipIdx page.start).foldlM
    (fun wallet p => self.block wallet p.2 p.1) ∅

end

end BitcoinData
