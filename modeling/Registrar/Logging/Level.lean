import Registrar.Logging.Error
import Registrar.Text

/-!
# Levels

How grave a log entry is, and how grave it has to be to be kept.
-/

namespace Registrar.Logging

/-- From the gravest to the least. -/
inductive Level where
  | error
  | warn
  | info
  | debug
  | trace
  deriving DecidableEq

/-- The least grave level that is kept, if any is. -/
abbrev Threshold := Option Level

namespace Level

def all : List Level :=
  [error, warn, info, debug, trace]

def name : Level → String
  | .error => "error"
  | .warn => "warn"
  | .info => "info"
  | .debug => "debug"
  | .trace => "trace"

/-- One for the gravest, more for those below. -/
def rank : Level → Nat
  | .error => 1
  | .warn => 2
  | .info => 3
  | .debug => 4
  | .trace => 5

end Level

namespace Threshold

def all : List Threshold :=
  none :: Level.all.map some

def name (t : Threshold) : String :=
  t.elim "off" Level.name

def rank (t : Threshold) : Nat :=
  t.elim 0 Level.rank

def admits (t : Threshold) (level : Level) : Bool :=
  level.rank ≤ t.rank

/-- The number that a text writes in decimal digits, perhaps with a plus before them. -/
def number? (text : String) : Option Nat :=
  let digits := match text.toList with
    | '+' :: rest => rest
    | cs => cs
  if digits.isEmpty || !digits.all Char.isDigit then none
  else some (digits.foldl (fun n c => 10 * n + (c.toNat - 48)) 0)

/-- A threshold is told by its name in letters of any size or by its number. An empty text asks for
errors alone. -/
def parse? (text : String) : Option Threshold :=
  match number? text with
  | some n => all.find? (·.rank == n)
  | none =>
    if text = "" then some (some .error)
    else all.find? (·.name == text.toLower)

/-- What is said of a text that tells no threshold. -/
def fault : String :=
  "error parsing level filter: expected one of \"off\", \"error\", \"warn\", \"info\", "
    ++ "\"debug\", \"trace\", or a number 0-5"

def parse (setting : String) : Except LogError Threshold :=
  match parse? (Text.trim setting) with
  | some t => .ok t
  | none => .error { cause := .invalid s!"Invalid log level '{setting}': {fault}" }

end Threshold

end Registrar.Logging
