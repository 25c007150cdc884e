import Registrar.Controller.Runtime
import Registrar.Files
import Registrar.Logging
import Registrar.Seed

/-!
# The application

The controller on a cluster in memory: it is built from the settings, seeded, started, and stopped.
What it does is told by log entries in the order it happens.
-/

namespace Registrar

open Logging (Entry Level)

inductive AppError where
  | capacity (source : BusError)
  | unreadableSeed (path : String)
  | malformedSeed (path : String)
  | seeding (source : SeedError)
  | starting (source : PassError)
  deriving DecidableEq

/-- A cluster with the settings of its controller. -/
structure Application where
  settings : Settings
  cluster : Cluster

namespace AppError

/-- What was being done when the error arose. -/
def headline : AppError → String
  | .capacity _ => "Invalid controller.queue_capacity"
  | .unreadableSeed path => s!"Failed to read seed manifest {path}"
  | .malformedSeed path => s!"Malformed seed manifest {path}"
  | .seeding source => source.headline
  | .starting _ => "Failed to start controller"

/-- What went wrong, and what that came from, outermost first. -/
def chain (e : AppError) : List String :=
  match e with
  | .capacity source => [e.headline, source.message]
  | .unreadableSeed _ | .malformedSeed _ => [e.headline]
  | .seeding source => source.chain
  | .starting source => e.headline :: source.chain

end AppError

namespace Application

def entry (level : Level) (target message : String) (fields : List (String × Json)) : Entry where
  level := level
  target := target
  message := message
  fields := fields

def entries (level : Level) (target message : String) (fields : List (String × Json)) : List Entry :=
  [entry level target message fields]

def seedEntry : Seeded → Entry
  | .created kind key uid =>
    entry .debug "hostbind_store::engine" "Created object"
      [("key", .string key.render), ("kind", .string kind), ("uid", .string uid)]
  | .present kind key =>
    entry .warn "hostbind_controller::seed" "Seed object already exists, skipping"
      [("key", .string key.render), ("kind", .string kind)]

def manifest (files : Files) (path : String) : Except AppError Manifest :=
  match files.read? path with
  | none => .error (.unreadableSeed path)
  | some text => (Manifest.parse? text).elim (.error (.malformedSeed path)) .ok

/-- Applies the seed that the settings name, if they do. -/
def seed (files : Files) (settings : Settings) (cluster : Cluster) :
    List Entry × Except AppError Cluster :=
  match settings.seed with
  | none => ([], .ok cluster)
  | some path =>
    match manifest files path with
    | .error e => ([], .error e)
    | .ok m =>
      let ((told, failure), cluster) := m.sowAll.run Cluster.access cluster
      match failure with
      | some e => (told.map seedEntry, .error (.seeding e))
      | none =>
        (told.map seedEntry ++ entries .info "hostbind_controller::seed" "Applied seed manifest"
          [("created", .natural (told.countP Seeded.isNew))], .ok cluster)

/-- Prepares a cluster and seeds it. -/
def build (files : Files) (settings : Settings) (now : Time) :
    List Entry × Except AppError Application :=
  match Bus.create settings.controller.capacity with
  | .error e => ([], .error (.capacity e))
  | .ok bus =>
    let (told, seeded) := seed files settings ⟨.empty, bus, now⟩
    (entries .info "hostbind_store::builder" "Initialized in-memory resource store" [] ++ told,
      seeded.map fun cluster => ⟨settings, cluster⟩)

def controllerTarget : String :=
  "hostbind_registration::controller"

def start (app : Application) : List Entry × Except AppError (Runtime Cluster) :=
  let settings := app.settings.controller
  let reconciler := Reconciler.ofSettings app.settings
  let built := entries .debug "hostbind_registration::reconciler" "Built reconciler"
    [("conflict_retries", .natural reconciler.attempts), ("finalizer", .string reconciler.finalizer)]
  let (answer, runtime) :=
    (Runtime.begin app.cluster).start Cluster.backend reconciler settings.workers settings.retryDelay
  match answer with
  | .error e => (built, .error (.starting e))
  | .ok () =>
    (built ++ entries .info controllerTarget "Controller started"
      [("registrations", .natural (app.cluster.store.count Registration)),
        ("workers", .natural settings.workers)], .ok runtime)

/-- Stops the controller, lets its workers finish, and shuts the bus. -/
def stop (runtime : Runtime Cluster) : List Entry × Cluster :=
  let cluster := (runtime.stop Cluster.backend).state
  let (channels, bus) := cluster.bus.shutdown
  (entries .info controllerTarget "Stopping controller" []
    ++ entries .info controllerTarget "Controller stopped" []
    ++ entries .info "hostbind_controller" "Event bus closed" [("channels", .natural channels)],
    { cluster with bus })

end Application

end Registrar
