import Registrar.Application
import Registrar.Settings.Load

/-!
# The command

A run of the program from its settings to its end: it sets the logger up, builds the application and
runs it until it is told to end.
-/

namespace Registrar

open Logging (Entry)

inductive CommandError where
  | settings (source : Settings.LoadError)
  /-- A setting of the logger cannot be understood. -/
  | logSetting (source : LogError)
  | logger (source : LogError)
  | application (source : AppError)
  deriving DecidableEq

structure Command.Report where
  logger : Option Logger
  /-- What was logged, the entries included that the logger does not keep. -/
  entries : List Entry
  /-- Why the run ended, unless it was told to. -/
  failure : Option CommandError

namespace CommandError

def headline : CommandError → String
  | .settings _ => "Critical: Configuration is malformed"
  | .logSetting source => source.message
  | .logger _ => "Failed to initialize logging"
  | .application source => source.headline

end CommandError

namespace Command

def name : String :=
  "hostbind-controller"

def logger (files : Files) (filter? : Option String) (settings : Settings.Logging) :
    Except CommandError Logger := do
  let threshold ← (Logging.Threshold.parse settings.level).mapError .logSetting
  let format ← (Logging.Format.parse settings.format).mapError .logSetting
  let request : Logging.Request := {
    name
    threshold
    format
    filter := settings.filter
    path := settings.path
    maxFiles := if settings.path.isSome then settings.maxFiles else 10
    jsonFiles := settings.jsonFiles }
  (Logger.create files filter? request).mapError .logger

/-- Builds the application, starts it, and stops it after a span of time. -/
def perform (files : Files) (settings : Settings) (now : Time) (span : Nat) :
    List Entry × Option CommandError :=
  match Application.build files settings now with
  | (told, .error e) => (told, some (.application e))
  | (told, .ok app) =>
    match app.start with
    | (more, .error e) => (told ++ more, some (.application e))
    | (more, .ok runtime) =>
      let signalled := Application.entries .info "hostbind_controller"
        "Shutdown signal received, starting graceful shutdown..." []
      let (last, _) := Application.stop (runtime.advance Cluster.backend span)
      let complete := Application.entries .info "hostbind_controller"
        "Controller shutdown complete" []
      (told ++ more ++ signalled ++ last ++ complete, none)

/-- A run that is told to end after a span of time. -/
def run (files : Files) (environment : List (String × String)) (path : Option String) (now : Time)
    (span : Nat) : Report :=
  match Settings.load files environment path with
  | .error e => ⟨none, [], some (.settings e)⟩
  | .ok settings =>
    match logger files (environment.lookup "RUST_LOG") settings.logging with
    | .error e => ⟨none, [], some e⟩
    | .ok logger =>
      let (told, failure) := perform files settings now span
      ⟨some logger, told ++ logger.farewell, failure⟩

namespace Report

def code (r : Report) : Nat :=
  if r.failure.isSome then 1 else 0

/-- What the run says on standard error. -/
def complaints (r : Report) : List String :=
  (r.logger.elim [] (·.complaints)) ++ (r.failure.map (fun e => "Error: " ++ e.headline)).toList

def kept (r : Report) : List Entry :=
  r.logger.elim [] (·.kept r.entries)

end Report

end Command

end Registrar
