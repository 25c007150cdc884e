import Registrar.Application
import Registrar.Binding
import Registrar.Bus
import Registrar.Cluster
import Registrar.Command
import Registrar.Condition
import Registrar.Controller
import Registrar.Controller.Runtime
import Registrar.Domain
import Registrar.ErrorType
import Registrar.ErrorType.Expansion
import Registrar.ErrorType.Reader
import Registrar.ErrorType.Token
import Registrar.ErrorType.TypeForm
import Registrar.ErrorType.TypeForm.Reader
import Registrar.Files
import Registrar.Finalizer
import Registrar.Hash.Sha256
import Registrar.Hostname
import Registrar.Ini
import Registrar.Json
import Registrar.Json.Double
import Registrar.Json.Loose
import Registrar.Json.Reader
import Registrar.Json.Record
import Registrar.Json.Writer
import Registrar.Json5
import Registrar.Logging
import Registrar.Logging.Error
import Registrar.Logging.Filter
import Registrar.Logging.Level
import Registrar.Logging.Line
import Registrar.Main
import Registrar.Metadata
import Registrar.Pass
import Registrar.Proofs.Bus.Accounts
import Registrar.Proofs.Bus.Mailboxes
import Registrar.Proofs.Bus.Receivers
import Registrar.Proofs.Bus.Wiring
import Registrar.Proofs.Controller.Drain
import Registrar.Proofs.Controller.Lags
import Registrar.Proofs.Controller.Launch
import Registrar.Proofs.Controller.Moves
import Registrar.Proofs.Controller.Outstanding
import Registrar.Proofs.Controller.Pool
import Registrar.Proofs.Controller.Watches
import Registrar.Proofs.ErrorType.Acceptance
import Registrar.Proofs.ErrorType.Conditions
import Registrar.Proofs.First
import Registrar.Proofs.Hostname.Grammar
import Registrar.Proofs.Hostname.RecordName
import Registrar.Proofs.Json.Records
import Registrar.Proofs.Json.Retold
import Registrar.Proofs.KeyOrder
import Registrar.Proofs.Lookup
import Registrar.Proofs.Passes.Alone
import Registrar.Proofs.Passes.Binder
import Registrar.Proofs.Passes.Bindings
import Registrar.Proofs.Passes.Calls
import Registrar.Proofs.Passes.Calm
import Registrar.Proofs.Passes.Chronicle
import Registrar.Proofs.Passes.Converge
import Registrar.Proofs.Passes.Dangling
import Registrar.Proofs.Passes.Done
import Registrar.Proofs.Passes.Failed
import Registrar.Proofs.Passes.Footprint
import Registrar.Proofs.Passes.Listing
import Registrar.Proofs.Passes.Orders
import Registrar.Proofs.Passes.Ownership
import Registrar.Proofs.Passes.Port
import Registrar.Proofs.Passes.Reconcile
import Registrar.Proofs.Passes.Records
import Registrar.Proofs.Passes.Rounds
import Registrar.Proofs.Passes.Settled
import Registrar.Proofs.Passes.Site
import Registrar.Proofs.Passes.Sketch
import Registrar.Proofs.Passes.Spares
import Registrar.Proofs.Passes.Spellings
import Registrar.Proofs.Passes.Sticky
import Registrar.Proofs.Passes.Terms
import Registrar.Proofs.Passes.Visits
import Registrar.Proofs.Passes.Writes
import Registrar.Proofs.References
import Registrar.Proofs.Runs
import Registrar.Proofs.Settings.Layers
import Registrar.Proofs.Settings.Leaves
import Registrar.Proofs.Settings.Overrides
import Registrar.Proofs.Store.Catalog
import Registrar.Proofs.Store.Inventory
import Registrar.Proofs.Store.Life
import Registrar.Proofs.Store.Objects
import Registrar.Proofs.Store.Parts
import Registrar.Proofs.Store.Replay
import Registrar.Proofs.Store.Request
import Registrar.Proofs.Store.Seeding
import Registrar.Proofs.Store.Shelf
import Registrar.Proofs.Store.Stale
import Registrar.Proofs.Time.RoundTrip
import Registrar.Proofs.Uid
import Registrar.Proofs.Wire
import Registrar.Proofs.Wire.Faithful
import Registrar.Proofs.WorkQueue.Deliveries
import Registrar.Proofs.WorkQueue.Tasks
import Registrar.Proofs.WorkQueue.Wakeups
import Registrar.Reconcile
import Registrar.References
import Registrar.Registration
import Registrar.Resource
import Registrar.Ron
import Registrar.Seed
import Registrar.Settings
import Registrar.Settings.Layer
import Registrar.Settings.Load
import Registrar.Settings.Variables
import Registrar.SortedMap
import Registrar.Store
import Registrar.Store.Call
import Registrar.Store.Error
import Registrar.Store.Faults
import Registrar.Text
import Registrar.Time
import Registrar.Time.Reader
import Registrar.Token
import Registrar.Toml
import Registrar.Toml.Reader
import Registrar.Uid
import Registrar.Verification
import Registrar.WorkQueue
import Registrar.WorkQueue.Waiting
import Registrar.Yaml
