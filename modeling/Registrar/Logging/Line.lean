import Registrar.Json.Writer
import Registrar.Logging

/-!
# Lines of a log

An entry is written on one line, as a JSON object or as text.
-/

namespace Registrar.Logging

namespace Entry

/-- An entry as an object, what it tells beside its message in an object of its own. -/
def encode (e : Entry) : Json :=
  .ofMembers [("level", .string e.level.name.toUpper), ("message", .string e.message),
    ("fields", .ofMembers e.fields)]

def line (format : Format) (e : Entry) : String :=
  match format with
  | .json => e.encode.render
  | .compact | .pretty =>
    e.level.name.toUpper ++ " " ++ e.target ++ ": " ++ e.message
      ++ String.join (e.fields.map fun (name, value) => " " ++ name ++ "=" ++ value.render)

end Entry

end Registrar.Logging
