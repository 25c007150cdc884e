import Registrar.Hostname
import Registrar.Json.Record

/-!
# Settings

What a deployment may set. Every setting has a default, so settings may be told in part; what is told
is never converted from one type to another.
-/

namespace Registrar

structure Settings.Controller where
  workers : Nat := 2
  /-- After how many milliseconds a failed pass is tried again. -/
  retryDelay : Nat := 5000
  /-- How often a write of a domain is tried. -/
  attempts : Nat := 5
  /-- The marker that keeps a registration until it has been released. -/
  finalizer : String := "hostbind.io/domain-registration"
  /-- How many changes a watch may leave unread. -/
  capacity : Nat := 1024
  deriving DecidableEq, Inhabited

structure Settings.Logging where
  level : String := "info"
  format : String := "compact"
  filter : Option String := none
  /-- The directory of the log files, of which there are none unless it is set. -/
  path : Option String := none
  jsonFiles : Bool := false
  maxFiles : Nat := 10
  deriving DecidableEq, Inhabited

structure Settings where
  controller : Settings.Controller := {}
  /-- The label in front of a hostname under which its owner proves control. -/
  recordLabel : String := Hostname.defaultRecordLabel
  logging : Settings.Logging := {}
  /-- The file of the manifest that is applied at the start. -/
  seed : Option String := none
  deriving DecidableEq, Inhabited

namespace Settings

def count? (value : Json) : Option Nat :=
  value.below? UInt64.size

namespace Controller

def decode? (value : Json) : Option Controller := do
  let r ← value.fields? ["workers", "requeue_delay_ms", "conflict_retries", "finalizer",
    "queue_capacity"]
  let default : Controller := {}
  return {
    workers := ← r.defaulted "workers" default.workers count?
    retryDelay := ← r.defaulted "requeue_delay_ms" default.retryDelay count?
    attempts := ← r.defaulted "conflict_retries" default.attempts (Json.below? UInt32.size)
    finalizer := ← r.defaulted "finalizer" default.finalizer Json.string?
    capacity := ← r.defaulted "queue_capacity" default.capacity count? }

/-- The delay of a retry in whole seconds and the nanoseconds over. -/
def retryDuration (c : Controller) : Nat × Nat :=
  (c.retryDelay / 1000, c.retryDelay % 1000 * 1000000)

end Controller

/-- The label is all that can be set about verification. -/
def recordLabel? (value : Json) : Option String := do
  let r ← value.fields? ["record_prefix"]
  r.defaulted "record_prefix" Hostname.defaultRecordLabel Json.string?

def Logging.decode? (value : Json) : Option Logging := do
  let r ← value.fields? ["level", "format", "filter", "path", "json_files", "max_files"]
  let default : Logging := {}
  return {
    level := ← r.defaulted "level" default.level Json.string?
    format := ← r.defaulted "format" default.format Json.string?
    filter := ← r.optional "filter" Json.string?
    path := ← r.optional "path" Json.string?
    jsonFiles := ← r.defaulted "json_files" default.jsonFiles Json.bool?
    maxFiles := ← r.defaulted "max_files" default.maxFiles count? }

def decode? (value : Json) : Option Settings := do
  let members ← value.object?
  let r ← (Json.object members).fields? ["controller", "verification", "logging", "seed"]
  return {
    controller := ← r.defaulted "controller" {} Controller.decode?
    recordLabel := ← r.defaulted "verification" Hostname.defaultRecordLabel recordLabel?
    logging := ← r.defaulted "logging" {} Logging.decode?
    seed := ← r.optional "seed" Json.string? }

def Controller.encode (c : Controller) : Json :=
  let (seconds, nanoseconds) := c.retryDuration
  .record [
    ("conflict_retries", some (.natural c.attempts)),
    ("finalizer", some (.string c.finalizer)),
    ("queue_capacity", some (.natural c.capacity)),
    ("requeue_delay_ms", some (.natural c.retryDelay)),
    ("requeue_delay_nanos", some (.natural nanoseconds)),
    ("requeue_delay_secs", some (.natural seconds)),
    ("workers", some (.natural c.workers))]

/-- A setting that may be missing. -/
def orNull (setting : Option String) : Option Json :=
  some (setting.elim .null .string)

def Logging.encode (l : Logging) : Json :=
  .record [
    ("filter", orNull l.filter),
    ("format", some (.string l.format)),
    ("json_files", some (.bool l.jsonFiles)),
    ("level", some (.string l.level)),
    ("max_files", some (.natural l.maxFiles)),
    ("path", orNull l.path)]

/-- All settings, those not set included. -/
def encode (s : Settings) : Json :=
  .record [
    ("controller", some s.controller.encode),
    ("logging", some s.logging.encode),
    ("seed", orNull s.seed),
    ("verification", some (.record [("record_prefix", some (.string s.recordLabel))]))]

end Settings

end Registrar
