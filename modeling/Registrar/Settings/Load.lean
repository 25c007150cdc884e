import Registrar.Files
import Registrar.Ini
import Registrar.Json.Reader
import Registrar.Json5
import Registrar.Ron
import Registrar.Settings
import Registrar.Settings.Layer
import Registrar.Settings.Variables
import Registrar.Toml.Reader
import Registrar.Yaml

/-!
# Loading settings

Settings are read from a file and then from the environment. A file that is asked for has to be there;
the default one need not.
-/

namespace Registrar

inductive Settings.LoadError where
  /-- The file is missing, of an unknown format, or malformed. -/
  | unreadable
  /-- What was read is no settings. -/
  | undecodable
  deriving DecidableEq

namespace Settings

/-- The file that is read when none is asked for, without its extension. -/
def defaultFile : String :=
  "controller"

def LoadError.message : LoadError → String
  | .unreadable => "Failed to build config"
  | .undecodable => "Failed to deserialize config"

inductive Format where
  | toml
  | json
  | yaml
  | ini
  | ron
  | json5
  deriving DecidableEq

namespace Format

def all : List Format :=
  [toml, json, yaml, ini, ron, json5]

def extensions : Format → List String
  | .toml => ["toml"]
  | .json => ["json"]
  | .yaml => ["yaml", "yml"]
  | .ini => ["ini"]
  | .ron => ["ron"]
  | .json5 => ["json5"]

def ofExtension? (extension : String) : Option Format :=
  all.find? (extension ∈ ·.extensions)

end Format

mutual

/-- A value of which every integer has 64 bits with a sign; what does not fit is a double. -/
def narrowed : Json → Json
  | .number (.int n) =>
    if n < (UInt64.size / 2 : Nat) then .number (.int n)
    else .number (.float (Float.ofInt n).toBits)
  | .array items => .array (narrowedItems items)
  | .object members => .object (narrowedMembers members)
  | value => value

def narrowedItems : List Json → List Json
  | [] => []
  | item :: rest => narrowed item :: narrowedItems rest

def narrowedMembers : List (String × Json) → List (String × Json)
  | [] => []
  | (name, value) :: rest => (name, narrowed value) :: narrowedMembers rest

end

/-- The table that a text writes. -/
def Format.parse? (format : Format) (text : String) : Option (List (String × Json)) :=
  let value := match format with
    | .toml => Toml.parse? text
    | .json => Json.parse? text
    | .yaml => Yaml.parse? text
    | .ini => Ini.parse? text
    | .ron => Ron.parse? text
    | .json5 => Json5.parse? text
  (value.map narrowed).bind Json.object?

/-- The paths of a file with an extension added, and their formats. -/
def extended (path : String) : List (Format × String) :=
  Format.all.flatMap fun format => format.extensions.map fun extension =>
    (format, "/".intercalate (Files.names path) ++ "." ++ extension)

/-- The text at a path and its format: of the very file if there is one, otherwise of the first that is
there with an extension added. -/
def locate? (files : Files) (path : String) : Option (Format × String) :=
  match files.read? path with
  | some text => do return (← Files.extension? path >>= Format.ofExtension?, text)
  | none => (extended path).findSome? fun (format, path) => (files.read? path).map (format, ·)

/-- A text without the mark of byte order at its start. -/
def withoutMark (text : String) : String :=
  match text.toList with
  | '\ufeff' :: rest => String.ofList rest
  | _ => text

/-- The layer of the file that is asked for, or of the default one. -/
def fileLayer (files : Files) (path : Option String) : Except LoadError (List (String × Json)) :=
  match locate? files (path.getD defaultFile), path with
  | some (format, text), _ => ((format.parse? (withoutMark text)).elim (.error .unreadable) .ok)
  | none, some _ => .error .unreadable
  | none, none => .ok []

/-- The settings of a file and of the environment. -/
def load (files : Files) (environment : List (String × String)) (path : Option String) :
    Except LoadError Settings := do
  let layer ← fileLayer files path
  let told := Layer.add (Layer.add (.object []) layer) (Variables.layer environment)
  (decode? told).elim (.error .undecodable) .ok

end Settings

end Registrar
