import LeaseOrder.Batch.Lines
import LeaseOrder.Batch.Store
import LeaseOrder.Command.Grammar
import LeaseOrder.Command.Invocation
import LeaseOrder.Command.Run
import LeaseOrder.Command.Usage
import LeaseOrder.Config.Basic
import LeaseOrder.Config.Json
import LeaseOrder.Config.Load
import LeaseOrder.Config.Print
import LeaseOrder.Config.Read
import LeaseOrder.Decimal.Binary64
import LeaseOrder.Decimal.Shortest
import LeaseOrder.Depth.Graph
import LeaseOrder.Depth.Resolve
import LeaseOrder.Depth.Walk
import LeaseOrder.Files.Path
import LeaseOrder.Files.System
import LeaseOrder.Files.Tree
import LeaseOrder.Json.Decode
import LeaseOrder.Json.Draft
import LeaseOrder.Json.Failure
import LeaseOrder.Json.Number
import LeaseOrder.Json.Token
import LeaseOrder.Json.Value
import LeaseOrder.Main
import LeaseOrder.Order.Basic
import LeaseOrder.Order.Orderer
import LeaseOrder.Order.ParentsFirst
import LeaseOrder.Proofs.Ancestry
import LeaseOrder.Proofs.Batch.Compose
import LeaseOrder.Proofs.Batch.Frame
import LeaseOrder.Proofs.Batch.Lines
import LeaseOrder.Proofs.Batch.Read
import LeaseOrder.Proofs.Batch.Replace
import LeaseOrder.Proofs.Batch.Store
import LeaseOrder.Proofs.Batch.Writable
import LeaseOrder.Proofs.Batch.Write
import LeaseOrder.Proofs.Blame
import LeaseOrder.Proofs.ByteOrder
import LeaseOrder.Proofs.Checkpoint
import LeaseOrder.Proofs.Command.Output
import LeaseOrder.Proofs.Command.Reorder
import LeaseOrder.Proofs.Command.Run
import LeaseOrder.Proofs.Command.Settings
import LeaseOrder.Proofs.Command.Story
import LeaseOrder.Proofs.Config.Print
import LeaseOrder.Proofs.Depth.Graph
import LeaseOrder.Proofs.Depth.Guarded
import LeaseOrder.Proofs.Depth.Log
import LeaseOrder.Proofs.Depth.Mirror
import LeaseOrder.Proofs.Depth.Recursive
import LeaseOrder.Proofs.Depth.Refinement
import LeaseOrder.Proofs.Depth.Resolve
import LeaseOrder.Proofs.Depth.Rounds
import LeaseOrder.Proofs.Depth.Run
import LeaseOrder.Proofs.Depth.Walk
import LeaseOrder.Proofs.Files.Faulty
import LeaseOrder.Proofs.Files.Grow
import LeaseOrder.Proofs.Files.Path
import LeaseOrder.Proofs.Files.Tree
import LeaseOrder.Proofs.Files.Walk
import LeaseOrder.Proofs.Json.Decode
import LeaseOrder.Proofs.Json.Print
import LeaseOrder.Proofs.Json.Token
import LeaseOrder.Proofs.Order.Absence
import LeaseOrder.Proofs.Order.Arrivals
import LeaseOrder.Proofs.Order.Bound
import LeaseOrder.Proofs.Order.Drain
import LeaseOrder.Proofs.Order.Firsts
import LeaseOrder.Proofs.Order.Idempotent
import LeaseOrder.Proofs.Order.Levels
import LeaseOrder.Proofs.Order.Log
import LeaseOrder.Proofs.Order.ParentsFirst
import LeaseOrder.Proofs.Order.Places
import LeaseOrder.Proofs.Order.Progress
import LeaseOrder.Proofs.Order.Relisting
import LeaseOrder.Proofs.Order.Renaming
import LeaseOrder.Proofs.Order.Repeats
import LeaseOrder.Proofs.Order.Shuffle
import LeaseOrder.Proofs.Outcome
import LeaseOrder.Proofs.ParentSet
import LeaseOrder.Proofs.Record
import LeaseOrder.Proofs.Shard
import LeaseOrder.Proofs.ShardId
import LeaseOrder.Proofs.Text
import LeaseOrder.Proofs.Toml.Document
import LeaseOrder.Proofs.Toml.Line
import LeaseOrder.Proofs.Toml.Scalar
import LeaseOrder.Proofs.Utf8
import LeaseOrder.Proofs.WellFormed
import LeaseOrder.Random.ChaCha
import LeaseOrder.Record.Basic
import LeaseOrder.Record.Item
import LeaseOrder.Record.Lease
import LeaseOrder.Record.Shard
import LeaseOrder.Shard.Checkpoint
import LeaseOrder.Shard.Id
import LeaseOrder.Shard.Info
import LeaseOrder.Shard.Lease
import LeaseOrder.Shard.ParentSet
import LeaseOrder.Text.Basic
import LeaseOrder.Text.Extend
import LeaseOrder.Text.Printable
import LeaseOrder.Text.Quoted
import LeaseOrder.Text.Utf8
import LeaseOrder.Toml.Datetime
import LeaseOrder.Toml.Node
import LeaseOrder.Toml.Number
import LeaseOrder.Toml.Reader
import LeaseOrder.Toml.Text
