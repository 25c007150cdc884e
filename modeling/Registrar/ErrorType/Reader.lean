import Registrar.ErrorType
import Registrar.ErrorType.TypeForm.Reader

/-!
# Reading declarations

The parts of a declaration from the pieces of source that they are written with.
-/

namespace Registrar.ErrorType

/-- A piece of source that is one name. -/
def name? (s : String) : Option String := do
  let tokens ← Token.read? s
  Reading.run? (fun _ => Reading.name) tokens

/-- The text of conditions or other contents of an attribute, which may be any tokens. -/
def contents? (s : String) : Option String :=
  (Token.read? s).map Token.textOf

namespace Field

def name? (s : String) : Option String :=
  if Token.read? s = some [.word "_"] then some "_" else ErrorType.name? s

/-- What may follow the path of an attribute: nothing, a group, or a value. -/
def markEnd : Reading Unit := do
  if ← Reading.acceptsGroup then return
  if ← Reading.accepts "=" then
    guard !(← get).isEmpty
    set ([] : List Token)

/-- The path of an attribute. Where it has several names, they are given with the marks between. -/
def mark? (s : String) : Option String := do
  let tokens ← Token.read? s
  Reading.run? (fun all => do
    let _ ← Reading.accepts "::"
    let _ ← Reading.plainPath (fun t => Reading.isName t || t.text ∈ Reading.pathWords)
      (all.length + 1)
    let path := all.take (all.length - (← get).length)
    markEnd
    return Token.textOf path) tokens

def read? (name type : String) (mark : Option String) : Option Field := do
  let tokens ← Token.read? type
  return {
    name := ← name? name
    typeText := Token.textOf tokens
    type := ← TypeForm.ofTokens? tokens
    marks := ← mark.toList.mapM mark? }

end Field

/-- The last names of the paths that start a list of traits, up to the first entry that is more than
a path. -/
def traitNames : Nat → Reading (List String)
  | 0 => failure
  | fuel + 1 => do
    let _ ← Reading.accepts "::"
    let name ← Reading.plainPath (fun _ => true) (fuel + 1)
    let rest ← get
    match rest with
    | .mark "," :: rest => return name :: (((traitNames fuel).run rest).map Prod.fst).getD []
    | _ => return [name]

namespace Derivation

/-- A list of traits to derive. An entry that is no path ends the traits that are known. -/
def read? (s : String) : Option Derivation := do
  let tokens ← Token.read? s
  return {
    text := Token.textOf tokens
    names := (((traitNames (tokens.length + 1)).run tokens).map Prod.fst).getD [] }

end Derivation

end Registrar.ErrorType
