import Registrar.Text

/-!
# Files

The files that a program finds: a text for each path. A directory can be made wherever no file is in
the way.
-/

namespace Registrar

structure Files where
  texts : List (String × String)

namespace Files

/-- The names that a path goes through. Names that lead nowhere are left out, an absolute path starts
with an empty one. -/
def names (path : String) : List String :=
  let all := (Text.split path "/").filter (fun name => name ≠ "" ∧ name ≠ ".")
  if path.startsWith "/" then "" :: all else all

def read? (files : Files) (path : String) : Option String :=
  (files.texts.find? (fun file => names file.1 = names path)).map Prod.snd

def contains (files : Files) (path : String) : Bool :=
  (files.read? path).isSome

/-- Why the directory at a path cannot be made. -/
def directoryFault? (files : Files) (path : String) : Option String :=
  if path = "" then none
  else if files.contains path then some "File exists (os error 17)"
  else if files.texts.any (fun file => (names file.1).isPrefixOf (names path)) then
    some "Not a directory (os error 20)"
  else none

/-- The name of the directory that a path is in, and its own name. -/
def split (path : String) : List String × String :=
  ((names path).dropLast, (names path).getLast?.getD "")

/-- What stands behind the last point of a name, unless the name starts with it. -/
def extension? (path : String) : Option String :=
  match (Text.split (split path).2 ".").reverse with
  | ext :: stem :: others => if stem = "" ∧ others = [] then none else some ext
  | _ => none

end Files

end Registrar
