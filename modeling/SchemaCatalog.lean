import SchemaCatalog.Catalog.Open
import SchemaCatalog.Command
import SchemaCatalog.Describe
import SchemaCatalog.Proofs.Catalog.Action
import SchemaCatalog.Proofs.Catalog.Acyclic
import SchemaCatalog.Proofs.Catalog.Admission
import SchemaCatalog.Proofs.Catalog.Allowlist
import SchemaCatalog.Proofs.Catalog.Ascent
import SchemaCatalog.Proofs.Catalog.Building
import SchemaCatalog.Proofs.Catalog.Commands
import SchemaCatalog.Proofs.Catalog.Copies
import SchemaCatalog.Proofs.Catalog.Cycle
import SchemaCatalog.Proofs.Catalog.Demand
import SchemaCatalog.Proofs.Catalog.Discovery
import SchemaCatalog.Proofs.Catalog.Drop
import SchemaCatalog.Proofs.Catalog.Entries
import SchemaCatalog.Proofs.Catalog.FailedDrop
import SchemaCatalog.Proofs.Catalog.Filling
import SchemaCatalog.Proofs.Catalog.Frame
import SchemaCatalog.Proofs.Catalog.Grove
import SchemaCatalog.Proofs.Catalog.Handles
import SchemaCatalog.Proofs.Catalog.Idle
import SchemaCatalog.Proofs.Catalog.Index
import SchemaCatalog.Proofs.Catalog.Later
import SchemaCatalog.Proofs.Catalog.Links
import SchemaCatalog.Proofs.Catalog.Live
import SchemaCatalog.Proofs.Catalog.Mirror
import SchemaCatalog.Proofs.Catalog.Open
import SchemaCatalog.Proofs.Catalog.Outcome
import SchemaCatalog.Proofs.Catalog.Ownership
import SchemaCatalog.Proofs.Catalog.Partition
import SchemaCatalog.Proofs.Catalog.Recasing
import SchemaCatalog.Proofs.Catalog.References
import SchemaCatalog.Proofs.Catalog.Refresh
import SchemaCatalog.Proofs.Catalog.Repeat
import SchemaCatalog.Proofs.Catalog.Routine
import SchemaCatalog.Proofs.Catalog.Run
import SchemaCatalog.Proofs.Catalog.Schedule
import SchemaCatalog.Proofs.Catalog.Snapshot
import SchemaCatalog.Proofs.Catalog.Spelling
import SchemaCatalog.Proofs.Catalog.Step
import SchemaCatalog.Proofs.Catalog.Supply
import SchemaCatalog.Proofs.Catalog.Takeover
import SchemaCatalog.Proofs.Catalog.Transcript
import SchemaCatalog.Proofs.Catalog.Vouched
import SchemaCatalog.Proofs.Catalog.Waiting
import SchemaCatalog.Proofs.Catalog.Warming
import SchemaCatalog.Proofs.Config.Forms
import SchemaCatalog.Proofs.Config.Storage
import SchemaCatalog.Proofs.Directory
import SchemaCatalog.Proofs.Json.Draft
import SchemaCatalog.Proofs.Json.Form
import SchemaCatalog.Proofs.Json.Grammar
import SchemaCatalog.Proofs.Json.Printing
import SchemaCatalog.Proofs.Json.Record
import SchemaCatalog.Proofs.NameHash
import SchemaCatalog.Proofs.QualifiedName
import SchemaCatalog.Proofs.Registry.Branch
import SchemaCatalog.Proofs.Registry.Described
import SchemaCatalog.Proofs.Registry.FailedBuild
import SchemaCatalog.Proofs.Resolution
import SchemaCatalog.Proofs.Source.Declared
import SchemaCatalog.Proofs.Source.Memory
import SchemaCatalog.Proofs.Source.Pooled
import SchemaCatalog.Proofs.Table.Columns
import SchemaCatalog.Proofs.Table.Fields
import SchemaCatalog.Proofs.Table.Rows
import SchemaCatalog.Proofs.Text.AsciiCase
import SchemaCatalog.Proofs.Text.ByteOrder
import SchemaCatalog.Proofs.Text.Context
import SchemaCatalog.Proofs.Text.Lowercase
import SchemaCatalog.Registry.Build
import SchemaCatalog.Release
