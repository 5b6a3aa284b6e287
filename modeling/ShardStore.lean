import ShardStore.Database.Operation
import ShardStore.Main
import ShardStore.Storage.Memory
import ShardStore.Proofs.Table
import ShardStore.Database.Event
import ShardStore.Proofs.Database.Effect
import ShardStore.Proofs.Database.WellFormed
import ShardStore.Proofs.Storage.Contract
import ShardStore.Proofs.Storage.Memory
import ShardStore.Proofs.Database.Agreement
import ShardStore.Proofs.Database.Failure
import ShardStore.Proofs.Database.History
import ShardStore.Proofs.Json.Block
import ShardStore.Proofs.Document.Json
import ShardStore.Proofs.Disk.Follow
import ShardStore.Proofs.Disk.Growth
import ShardStore.Proofs.Storage.FileName
import ShardStore.Proofs.Disk.Files
import ShardStore.Proofs.Storage.Directory
import ShardStore.Proofs.Storage.DirectoryContract
import ShardStore.Proofs.Database.Reopen
import ShardStore.Statement.Grammar
import ShardStore.Proofs.Statement.Reading
import ShardStore.Proofs.Text.Blank
import ShardStore.Proofs.Database.Partway
import ShardStore.Proofs.Storage.Listing
import ShardStore.Proofs.Storage.Crash
import ShardStore.Database.Request
import ShardStore.Proofs.Storage.Mirror
import ShardStore.Proofs.Database.Mirror
import ShardStore.Proofs.Statement.Expressible
import ShardStore.Proofs.Query
import ShardStore.Proofs.Condition
import ShardStore.Proofs.Database.Selection
import ShardStore.Proofs.Database.ReadBack
import ShardStore.Proofs.Disk.Written
import ShardStore.Proofs.Storage.Lossless
import ShardStore.Proofs.Database.Answering
import ShardStore.Proofs.Database.Scattering
import ShardStore.Proofs.Database.Snapshot
import ShardStore.Proofs.Database.Regathering
import ShardStore.Proofs.Database.Independence
import ShardStore.Proofs.Text.Utf8
import ShardStore.Proofs.Shell.Script
import ShardStore.Proofs.Shell.Session
import ShardStore.Proofs.Storage.Recorded
import ShardStore.Proofs.Storage.Confined
import ShardStore.Proofs.Shell.Confinement
import ShardStore.Proofs.Decimal.Grammar
import ShardStore.Proofs.Decimal.Rounding
import ShardStore.Proofs.Decimal.Nearest
import ShardStore.Proofs.Condition.Numeric
import ShardStore.Proofs.Decimal.Range
import ShardStore.Proofs.Text.Words
import ShardStore.Proofs.Text.Size
import ShardStore.Proofs.Condition.Expressible
import ShardStore.Proofs.Shell.Command
import ShardStore.Proofs.Shell.Pieces
import ShardStore.Proofs.Shell.Quoting
import ShardStore.Proofs.Table.Filled
import ShardStore.Proofs.Database.Insertion
import ShardStore.Proofs.Fragment.Shards
import ShardStore.Proofs.Fragment.Partitions
import ShardStore.Proofs.Program.Arguments
import ShardStore.Proofs.Program.Settled
import ShardStore.Proofs.Program.Precedence
import ShardStore.Proofs.Shell.Box
