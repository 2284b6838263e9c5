import StorageFabric.Lib.Table
import StorageFabric.Lib.Runs
import StorageFabric.Lib.RefCount
import StorageFabric.Lib.OrderedTable
import StorageFabric.Core.Digest
import StorageFabric.Core.Planner
import StorageFabric.Core.Ledger
import StorageFabric.Model.Manifest
import StorageFabric.Wire.Protocol
import StorageFabric.Runtime.Atomicity
import StorageFabric.Runtime.Interleaving
import StorageFabric.Runtime.DedupIndex
import StorageFabric.Runtime.Reads
import StorageFabric.Runtime.Dedupe
import StorageFabric.Core.Bytes
import StorageFabric.Persist.Codec
import StorageFabric.Persist.Snapshot
import StorageFabric.Persist.RoundTrip
import StorageFabric.Runtime.Recovery
import StorageFabric.Runtime.Epochs
import StorageFabric.Tools.Coordinator
import StorageFabric.Model.Authority
import StorageFabric.Tools.Fencing
import StorageFabric.Tools.Incarnations
import StorageFabric.Tools.RecoverRace
import StorageFabric.Runtime.Restore
import StorageFabric.Persist.Decoded
import StorageFabric.Runtime.Savable
import StorageFabric.Tools.Saved
import StorageFabric.Core.Occupancy
import StorageFabric.Runtime.Commits
import StorageFabric.Runtime.Balance
import StorageFabric.Runtime.Host
import StorageFabric.Runtime.Fenced
import StorageFabric.Runtime.Lifecycle
import StorageFabric.Runtime.Verified
import StorageFabric.Runtime.Rebuild
import StorageFabric.Runtime.Allocation
import StorageFabric.Runtime.Restarts
import StorageFabric.Model.Coverage
import StorageFabric.Core.Ranking
import StorageFabric.Core.Targets
import StorageFabric.Core.Admission
import StorageFabric.Runtime.Chunking
import StorageFabric.Runtime.Accounts
import StorageFabric.Runtime.Sharing
import StorageFabric.Runtime.Delivers
import StorageFabric.Tools.Rpc
import StorageFabric.Tools.Fetched
import StorageFabric.Core.Guards
import StorageFabric.Persist.WellFormed
import StorageFabric.Persist.Canonical
import StorageFabric.Persist.Corruption
import StorageFabric.Tools.BootIds
import StorageFabric.Persist.Layout
import StorageFabric.Tools.Refused
import StorageFabric.Storage.Capped
import StorageFabric.Storage.Governed
import StorageFabric.Core.Sha256
import StorageFabric.Runtime.Queries
import StorageFabric.Lib.Disk
import StorageFabric.Lib.Replace
import StorageFabric.Lib.Simulation
import StorageFabric.Storage.Drive
import StorageFabric.Runtime.Machine
import StorageFabric.Tools.Sessions
import StorageFabric.Runtime.Crashes
import StorageFabric.Lib.Framing
import StorageFabric.Tools.Link
import StorageFabric.Model.Commitment
import StorageFabric.Runtime.Integrity
import StorageFabric.Lib.FileTree
import StorageFabric.Storage.Directories
