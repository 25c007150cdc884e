import Registrar.Files
import Registrar.Logging.Filter

/-!
# Logging

A logger keeps the entries that its filter admits and writes them on the console, to a file, or both.
-/

namespace Registrar

namespace Logging

inductive Format where
  | compact
  | pretty
  | json
  deriving DecidableEq

namespace Format

def all : List Format :=
  [compact, pretty, json]

def name : Format → String
  | .compact => "compact"
  | .pretty => "pretty"
  | .json => "json"

/-- The format that a setting tells, in letters of any size. -/
def parse (setting : String) : Except LogError Format :=
  let small := (Text.trim setting).toLower
  match all.find? (·.name == small) with
  | some format => .ok format
  | none => .error {
      cause := .invalid s!"Unknown log format '{small}'"
      context := some ("expected one of: " ++ ", ".intercalate (all.map name)) }

end Format

/-- What is asked of a logger. -/
structure Request where
  /-- The start of the names of its files. -/
  name : String
  threshold : Threshold := some .info
  format : Format := .compact
  console : Bool := true
  filter : Option String := none
  /-- The directory of its files, if it is to write any. -/
  path : Option String := none
  maxFiles : Nat := 10
  jsonFiles : Bool := false

end Logging

structure Logger where
  filter : Logging.Filter
  console : Option Logging.Format
  /-- The directory of the files, and whether they hold JSON. -/
  file : Option (String × Bool)
  /-- What was said of directives that were passed over. -/
  complaints : List String

namespace Logger

open Logging

def invalid (message : String) : LogError where
  cause := .invalid message

/-- The filter that is asked for: the one requested, otherwise the one that a variable tells. -/
def filter? (request : Request) (told? : Option String) : Except LogError (Filter × List String) :=
  match request.filter with
  | none => .ok (Filter.parseLenient request.threshold (told?.getD ""))
  | some text =>
    match Filter.parse request.threshold text with
    | .ok filter => .ok (filter, [])
    | .error fault => .error (invalid s!"Invalid env filter '{text}': {fault.message}")

def makeDirectory (files : Files) (path : String) : Except LogError Unit :=
  match files.directoryFault? path with
  | some reason => .error {
      cause := .internal reason
      context := some s!"Failed to create path: {path}" }
  | none => .ok ()

def create (files : Files) (told? : Option String) (request : Request) :
    Except LogError Logger := do
  if Text.trim request.name = "" then throw (invalid "Logger name cannot be empty")
  if request.maxFiles = 0 then throw (invalid "max_files must be greater than zero")
  let (filter, complaints) ← filter? request told?
  if let some path := request.path then makeDirectory files path
  if !request.console && request.path.isNone then
    throw (invalid "No logging layers enabled. Enable console or file output.")
  return {
    filter
    console := if request.console then some request.format else none
    file := request.path.map (·, request.jsonFiles)
    complaints }

/-- Sets a logger up where another one takes all entries already. -/
def createSecond (files : Files) (told? : Option String) (request : Request) :
    Except LogError Logger := do
  let _ ← create files told? request
  throw { cause := .taken }

def kept (logger : Logger) (entries : List Entry) : List Entry :=
  entries.filter logger.filter.admits

/-- What a logger tells of itself when it is asked to write everything out. -/
def flushed : Entry where
  level := .debug
  target := "hostbind_logger"
  message := "Logger flushed"

/-- What a logger tells of itself at its end; one without files says nothing. -/
def farewell (logger : Logger) : List Entry :=
  if logger.file.isSome then
    [{ level := .info
       target := "hostbind_logger"
       message := "Logging system shutting down, flushing buffers..." }]
  else []

end Logger

end Registrar
