import Registrar.Json
import Registrar.Json.Reader
import Registrar.Text

/-!
# Reading INI

Lines with a key and a value, in sections or in front of them. Every value is a string. Of sections
with one name the last counts.
-/

namespace Registrar.Ini

/-- A line without the blanks at its ends. -/
inductive Line where
  | blank
  | header (name : String) (behind : List Char)
  | entry (key value : String)

def trimEnd (cs : List Char) : List Char :=
  (cs.reverse.dropWhile Text.isBlank).reverse

/-- The character that an escape writes, without the backslash. -/
def escape? : List Char → Option (Char × List Char)
  | '0' :: rest => some ('\x00', rest)
  | 'a' :: rest => some ('\x07', rest)
  | 'b' :: rest => some ('\x08', rest)
  | 't' :: rest => some ('\t', rest)
  | 'r' :: rest => some ('\r', rest)
  | 'n' :: rest => some ('\n', rest)
  | 'x' :: a :: b :: c :: d :: rest => do
    let n ← Json.unit? a b c d
    guard n.isValidChar
    return (Char.ofNat n, rest)
  | 'x' :: _ => none
  | c :: rest => some (c, rest)
  | [] => none

/-- What stands in front of the first of some marks, its escapes read, and what starts with the mark. -/
def upTo? (isMark : Char → Bool) : Nat → List Char → Option (List Char × List Char)
  | 0, _ => none
  | fuel + 1, cs =>
    match cs with
    | [] => some ([], [])
    | '\\' :: rest => do
      let (c, rest) ← escape? rest
      (upTo? isMark fuel rest).map fun (s, rest) => (c :: s, rest)
    | c :: rest =>
      if isMark c then some ([], c :: rest)
      else (upTo? isMark fuel rest).map fun (s, rest) => (c :: s, rest)

/-- A value: quoted parts, and at its end one that is not. -/
def value? : Nat → List Char → Option (List Char)
  | 0, _ => none
  | fuel + 1, cs =>
    match cs with
    | [] => some []
    | c :: rest =>
      if c = '"' ∨ c = '\'' then do
        let (s, rest) ← upTo? (· == c) (fuel + 1) rest
        guard (rest.head? == some c)
        (value? fuel (rest.drop 1)).map (s ++ ·)
      else (upTo? (fun _ => false) (fuel + 1) cs).map fun (s, _) => trimEnd s

def line? (cs : List Char) : Option Line := do
  let fuel := cs.length + 1
  match cs with
  | [] | ';' :: _ | '#' :: _ => return .blank
  | '[' :: rest =>
    let (name, rest) ← upTo? (· == ']') fuel rest
    guard !rest.isEmpty
    return .header (Text.trim (String.ofList name)) (Text.skipBlanks (rest.drop 1))
  | cs =>
    let (key, rest) ← upTo? (fun c => c == '=' || c == ':') fuel cs
    guard (!rest.isEmpty && !key.isEmpty)
    return .entry (Text.trim (String.ofList key))
      (String.ofList (← value? fuel (Text.skipBlanks (rest.drop 1))))

/-- Adds an entry to the open section, if there is one. -/
def define (open? : Option String) (key value : String) (root : Json) : Json :=
  match open? with
  | none => root.setMember key (.string value)
  | some name =>
    let table := (root.member? name).getD (.object [])
    root.setMember name (table.setMember key (.string value))

/-- Reads lines into a table. What stands behind the header of a section on its line is a line too. -/
def build? : Nat → Option String → List (List Char) → Json → Option Json
  | 0, _, _, _ => none
  | _ + 1, _, [], root => some root
  | fuel + 1, open?, cs :: rest, root => do
    match ← line? cs with
    | .blank => build? fuel open? rest root
    | .header name behind =>
      build? fuel (some name) (behind :: rest) (root.setMember name (.object []))
    | .entry key value => build? fuel open? rest (define open? key value root)

def parse? (text : String) : Option Json :=
  let lines := (Text.split text "\n").map fun line => (Text.trim line).toList
  build? (text.length + lines.length + 1) none lines (.object [])

end Registrar.Ini
