import Registrar.Json
import Registrar.Text

/-!
# Settings in environment variables

A variable whose name starts with `HOSTBIND__`, in letters of any size, sets what the rest of its name
leads to, with two underscores between the parts of the path. Its value is always a string.
-/

namespace Registrar.Settings.Variables

/-- The name with which the variables of the program start. -/
def programName : String :=
  "HOSTBIND"

def divider : String :=
  "__"

/-- Whether a word ends between two characters of a name in small letters. -/
def isBoundary (c d : Char) : Bool :=
  (c.isLower && d.isDigit) || (c.isDigit && d.isLower)

/-- The words of a name, with underscores, hyphens and blanks between them and next to digits. -/
def words : List Char → List (List Char)
  | [] => [[]]
  | c :: rest =>
    if c == '_' || c == '-' || c == ' ' then [] :: words rest
    else match rest, words rest with
      | d :: _, first :: others =>
        if isBoundary c d then [c] :: first :: others else (c :: first) :: others
      | _, first :: others => (c :: first) :: others
      | _, [] => [[c]]

/-- A name with a single underscore between any two of its words. -/
def snake (name : String) : String :=
  "_".intercalate (((words name.toList).filter (!·.isEmpty)).map String.ofList)

def key? (name : String) : Option String :=
  let start := (programName ++ divider).toLower.toList
  let small := name.toLower.toList
  if start.isPrefixOf small then
    let rest := String.ofList (small.drop start.length)
    some (snake (".".intercalate (Text.split rest divider)))
  else none

def layer (environment : List (String × String)) : List (String × Json) :=
  environment.filterMap fun v => (key? v.1).map (·, .string v.2)

end Registrar.Settings.Variables
