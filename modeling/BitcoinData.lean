import BitcoinData.Lib.Bits
import BitcoinData.Lib.Buffered
import BitcoinData.Lib.Codec
import BitcoinData.Lib.Columns
import BitcoinData.Lib.Groups
import BitcoinData.Lib.Ids
import BitcoinData.Lib.Ledger
import BitcoinData.Lib.Lines
import BitcoinData.Lib.Lists
import BitcoinData.Lib.Result
import BitcoinData.Lib.Runs
import BitcoinData.Lib.Toggle
import BitcoinData.Lib.Unordered
import BitcoinData.Spec.Archive
import BitcoinData.Spec.Chain
import BitcoinData.Spec.Client
import BitcoinData.Spec.Decode
import BitcoinData.Spec.EliasDelta
import BitcoinData.Spec.Files
import BitcoinData.Spec.Index
import BitcoinData.Spec.IndexBytes
import BitcoinData.Spec.IndexStore
import BitcoinData.Spec.Leb128
import BitcoinData.Spec.LightIndexer
import BitcoinData.Spec.Ipc
import BitcoinData.Spec.IpcChain
import BitcoinData.Spec.MultiSource
import BitcoinData.Spec.Node
import BitcoinData.Spec.P2trIndexer
import BitcoinData.Spec.Pipeline
import BitcoinData.Spec.Progress
import BitcoinData.Spec.Range
import BitcoinData.Spec.Rest
import BitcoinData.Spec.RestRange
import BitcoinData.Spec.Rpc
import BitcoinData.Spec.ScanPoint
import BitcoinData.Spec.Scanning
import BitcoinData.Spec.Schema
import BitcoinData.Spec.ScriptPushes
import BitcoinData.Spec.Server
import BitcoinData.Spec.Slots
import BitcoinData.Spec.Source
import BitcoinData.Spec.SpTweak
import BitcoinData.Spec.SpentTxOuts
import BitcoinData.Spec.Stats.Block
import BitcoinData.Spec.Stats.Csv
import BitcoinData.Spec.Stats.Origins
import BitcoinData.Spec.Stats.Pipeline
import BitcoinData.Spec.Stats.Attached
import BitcoinData.Spec.Stats.Resume
import BitcoinData.Spec.Stats.Scan
import BitcoinData.Spec.Stats.Script
import BitcoinData.Spec.Stats.Totals
import BitcoinData.Spec.Stats.Transaction
import BitcoinData.Spec.Stats.Wire
import BitcoinData.Spec.Sync
import BitcoinData.Spec.Types
import BitcoinData.Spec.Wire
import BitcoinData.Sanity.Applies
import BitcoinData.Sanity.Apply
import BitcoinData.Sanity.Bitmap
import BitcoinData.Sanity.ChainRun
import BitcoinData.Sanity.Decode
import BitcoinData.Sanity.Drafts
import BitcoinData.Sanity.EliasDelta
import BitcoinData.Sanity.Entries
import BitcoinData.Sanity.Filtered
import BitcoinData.Sanity.IndexBytes
import BitcoinData.Sanity.Layers
import BitcoinData.Sanity.Light
import BitcoinData.Sanity.Marking
import BitcoinData.Sanity.NodeSample
import BitcoinData.Sanity.Outputs
import BitcoinData.Sanity.Precomputed
import BitcoinData.Sanity.Range
import BitcoinData.Sanity.Reading
import BitcoinData.Sanity.Reference
import BitcoinData.Sanity.Reuse
import BitcoinData.Sanity.RoundTrip
import BitcoinData.Sanity.Sample
import BitcoinData.Sanity.Served
import BitcoinData.Sanity.Server
import BitcoinData.Sanity.Simulation
import BitcoinData.Sanity.Slots
import BitcoinData.Sanity.SpentIds
import BitcoinData.Sanity.SpentTxOuts
import BitcoinData.Sanity.Stages
import BitcoinData.Sanity.Stats.Csv
import BitcoinData.Sanity.Stats.Directory
import BitcoinData.Sanity.Stats.Ids
import BitcoinData.Sanity.Stats.Measure
import BitcoinData.Sanity.Stats.Pruning
import BitcoinData.Sanity.Stats.Sample
import BitcoinData.Sanity.Stats.Serving
import BitcoinData.Sanity.Stats.Totals
import BitcoinData.Sanity.Stats.Trace
import BitcoinData.Sanity.System
import BitcoinData.Sanity.Valid
import BitcoinData.Sanity.Window
import BitcoinData.Proofs.Advance
import BitcoinData.Proofs.BackedSpends
import BitcoinData.Proofs.Balance
import BitcoinData.Proofs.Batches
import BitcoinData.Proofs.Caching
import BitcoinData.Proofs.CodeLengths
import BitcoinData.Proofs.CommittedChain
import BitcoinData.Proofs.CsvCommit
import BitcoinData.Proofs.DecodeOrder
import BitcoinData.Proofs.Failover
import BitcoinData.Proofs.Ipc
import BitcoinData.Proofs.IpcNode
import BitcoinData.Proofs.FastPath
import BitcoinData.Proofs.Finality
import BitcoinData.Proofs.Formats
import BitcoinData.Proofs.Leb128
import BitcoinData.Proofs.Marks
import BitcoinData.Proofs.NodeChain
import BitcoinData.Proofs.Paging
import BitcoinData.Proofs.Pipeline
import BitcoinData.Proofs.Progress
import BitcoinData.Proofs.Ranges
import BitcoinData.Proofs.Recovery
import BitcoinData.Proofs.RestForms
import BitcoinData.Proofs.RestNode
import BitcoinData.Proofs.RestScan
import BitcoinData.Proofs.IpcScan
import BitcoinData.Proofs.RestRange
import BitcoinData.Proofs.Restarts
import BitcoinData.Proofs.Restore
import BitcoinData.Proofs.Resume
import BitcoinData.Proofs.Retention
import BitcoinData.Proofs.ReuseFlags
import BitcoinData.Proofs.RollingHash
import BitcoinData.Proofs.RpcBatch
import BitcoinData.Proofs.RunTotals
import BitcoinData.Proofs.ScanIds
import BitcoinData.Proofs.ScanPoint
import BitcoinData.Proofs.Scanning
import BitcoinData.Proofs.ScriptPushes
import BitcoinData.Proofs.SeenCounts
import BitcoinData.Proofs.SequentialRefinement
import BitcoinData.Proofs.Servable
import BitcoinData.Proofs.ServedTip
import BitcoinData.Proofs.SpentPayload
import BitcoinData.Proofs.SpentStreams
import BitcoinData.Proofs.StableResponses
import BitcoinData.Proofs.StatsWire
import BitcoinData.Proofs.Storable
import BitcoinData.Proofs.TaprootPaths
import BitcoinData.Proofs.TornRows
import BitcoinData.Proofs.UidDomain
import BitcoinData.Proofs.IndexBytes
