import Registrar.Json.Loose
import Registrar.Text

/-!
# Reading JSON5

JSON with comments, a comma behind the last item, names without quotes, and strings between quotes of
either kind.
-/

namespace Registrar.Json5

open Registrar.Json (Piece)

def isBlank (c : Char) : Bool :=
  Text.isBlank c || c == '\ufeff'

def skip (cs : List Char) : List Char :=
  Json.Loose.skip isBlank false (cs.length + 1) cs

/-- The parts of a string up to the quote that ends it. A backslash at the end of a line joins it with
the next one. -/
def pieces? (quote : Char) : List Char → Option (List Piece × List Char)
  | [] => none
  | '\\' :: 'u' :: a :: b :: c :: d :: rest => do
    let n ← Json.unit? a b c d
    let (ps, rest) ← pieces? quote rest
    return (.unit n :: ps, rest)
  | '\\' :: 'x' :: a :: b :: rest => do
    let n ← Json.unit? '0' '0' a b
    let (ps, rest) ← pieces? quote rest
    return (.unit n :: ps, rest)
  | '\\' :: '\r' :: '\n' :: rest => pieces? quote rest
  | '\\' :: c :: rest => do
    let (ps, rest) ← pieces? quote rest
    if c = '\n' ∨ c = '\r' ∨ c = '\u2028' ∨ c = '\u2029' then return (ps, rest)
    guard !('1' ≤ c ∧ c ≤ '9' ∨ c = 'x' ∨ c = 'u')
    let plain := if c = '0' then '\x00' else if c = 'v' then '\x0b' else c
    return (.char ((Json.escaped? c).getD plain) :: ps, rest)
  | c :: rest =>
    if c = quote then some ([], rest)
    else if c = '\n' ∨ c = '\r' then none
    else do
      let (ps, rest) ← pieces? quote rest
      return (.char c :: ps, rest)

def string? (quote : Char) (cs : List Char) : Option (String × List Char) := do
  let (ps, rest) ← pieces? quote cs
  return (String.ofList (← Json.joined? ps), rest)

def isNameStart (c : Char) : Bool :=
  Text.isLetter c || c == '$'

def isNamePart (c : Char) : Bool :=
  Text.isNamePart c || c == '$' || c == '\u200c' || c == '\u200d'

/-- The name of a member, between quotes or not. -/
def name? : List Char → Option (String × List Char)
  | '"' :: rest => string? '"' rest
  | '\'' :: rest => string? '\'' rest
  | c :: rest =>
    if isNameStart c then
      some (String.ofList (c :: rest.takeWhile isNamePart), rest.dropWhile isNamePart)
    else none
  | [] => none

def isScalarPart (c : Char) : Bool :=
  c.isAlphanum || c == '+' || c == '-' || c == '.'

/-- Whether digits have a needless zero in front. -/
def isPadded : List Char → Bool
  | '0' :: c :: _ => c.isDigit
  | _ => false

/-- A value that is written as one word. -/
def scalar? (cs : List Char) : Option Json :=
  match String.ofList cs with
  | "null" => some .null
  | "true" => some (.bool true)
  | "false" => some (.bool false)
  | _ =>
    let unsigned := (Json.Loose.signed cs).2
    if unsigned = "Infinity".toList ∨ unsigned = "NaN".toList then some Json.unreadable
    else if isPadded unsigned then none
    else Json.Loose.number? cs

mutual

def value : Nat → List Char → Option (Json × List Char)
  | 0, _ => none
  | fuel + 1, cs =>
    match skip cs with
    | '[' :: rest => (items fuel rest).map fun (all, rest) => (.array all, rest)
    | '\x7b' :: rest => (members fuel rest).map fun (all, rest) => (.ofMembers all, rest)
    | '"' :: rest => (string? '"' rest).map fun (s, rest) => (.string s, rest)
    | '\'' :: rest => (string? '\'' rest).map fun (s, rest) => (.string s, rest)
    | cs => (scalar? (cs.takeWhile isScalarPart)).map (·, cs.dropWhile isScalarPart)

def items : Nat → List Char → Option (List Json × List Char)
  | 0, _ => none
  | fuel + 1, cs =>
    match skip cs with
    | ']' :: rest => some ([], rest)
    | cs => do
      let (item, rest) ← value fuel cs
      match skip rest with
      | ',' :: rest => (items fuel rest).map fun (more, rest) => (item :: more, rest)
      | ']' :: rest => some ([item], rest)
      | _ => none

def members : Nat → List Char → Option (List (String × Json) × List Char)
  | 0, _ => none
  | fuel + 1, cs =>
    match skip cs with
    | '\x7d' :: rest => some ([], rest)
    | cs => do
      let (name, rest) ← name? cs
      match skip rest with
      | ':' :: rest =>
        let (told, rest) ← value fuel rest
        match skip rest with
        | ',' :: rest => (members fuel rest).map fun (more, rest) => ((name, told) :: more, rest)
        | '\x7d' :: rest => some ([(name, told)], rest)
        | _ => none
      | _ => none

end

def parse? (text : String) : Option Json := do
  let cs := text.toList
  let (told, rest) ← value (cs.length + 1) cs
  guard (skip rest).isEmpty
  return told

end Registrar.Json5
