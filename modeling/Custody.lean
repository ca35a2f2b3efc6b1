import Custody.Host.Reference
import Custody.Host.Replacement
import Custody.Memory.Build
import Custody.DataList.Read
import Custody.Workbench.Deed
import Custody.Workbench.Program
import Custody.Proofs.Memory.Lookup
import Custody.Proofs.Memory.Reach
import Custody.Proofs.Memory.Release
import Custody.Proofs.Memory.Unfolding
import Custody.Proofs.Memory.Copy
import Custody.Proofs.Call.Guard
import Custody.Proofs.Failure.Registration
import Custody.Proofs.Memory.Accounts
import Custody.Proofs.Host.Reference
import Custody.Proofs.Container.Duty
import Custody.Proofs.Memory.Evolve
import Custody.Proofs.Memory.Expand
import Custody.Proofs.Container.Make
import Custody.Proofs.Container.Gain
import Custody.Proofs.Container.Dispatch
import Custody.Proofs.Memory.Shape
import Custody.Proofs.Container.Shape
import Custody.Proofs.Call.Operate
import Custody.Proofs.DataList.Append
import Custody.Proofs.Estate.Run
import Custody.Proofs.Estate.NoLeak
import Custody.Proofs.Estate.Trace
import Custody.Proofs.Text.Utf8
import Custody.Proofs.DataList.Atomic
import Custody.Proofs.Memory.NodeTable
import Custody.Proofs.Journal.Posting
import Custody.Proofs.Journal.Run
import Custody.Proofs.Journal.Trace
import Custody.Proofs.Journal.HostKept
import Custody.Proofs.Journal.ReadBack
import Custody.Proofs.Memory.Inventory
import Custody.Proofs.Memory.Continue
import Custody.Proofs.Journal.Inventory
import Custody.Proofs.Journal.Continue
import Custody.Proofs.Journal.Shape
import Custody.Proofs.Text.Order
import Custody.Proofs.Text.JsonReader
import Custody.Proofs.Text.JsonObject
import Custody.Proofs.Report
import Custody.Proofs.Failure.Export
import Custody.Proofs.Call.Report
import Custody.Proofs.Memory.ReleaseOrder
import Custody.Proofs.Journal.DropOrder
import Custody.Proofs.Memory.Nesting
import Custody.Proofs.Memory.Levels
import Custody.Proofs.Journal.Nesting
import Custody.Proofs.Memory.FailedCopy
import Custody.Proofs.Journal.FailedCopy
import Custody.Proofs.Journal.Succession
import Custody.Proofs.Container.Independence
import Custody.Proofs.Ledger.Run
import Custody.Proofs.Memory.Storage
import Custody.Proofs.Number.Integer
import Custody.Proofs.Container.Create
import Custody.Proofs.Conversion.Numeric
import Custody.Proofs.Conversion.Pixel
import Custody.Proofs.Container.Place
import Custody.Proofs.Conversion.Integer
import Custody.Proofs.Container.Filled
import Custody.Proofs.Container.Values
import Custody.Proofs.Container.Access
import Custody.Proofs.Call.Passing
import Custody.Proofs.Call.TextResult
import Custody.Proofs.Journal.Heirs
import Custody.Proofs.Crossing
import Custody.Proofs.Memory.Count
import Custody.Proofs.Container.PixelCount
import Custody.Proofs.Memory.NodeKinds
import Custody.Proofs.Host.Service
import Custody.Proofs.Journal.Hostless
import Custody.Proofs.Journal.NodeTable
