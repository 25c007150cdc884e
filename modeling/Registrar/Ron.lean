import Registrar.Json.Loose
import Registrar.Text

/-!
# Reading RON

Values written with the names of their fields between parentheses. The name in front of a structure
is passed over, and an optional value stands for itself.
-/

namespace Registrar.Ron

def skip (cs : List Char) : List Char :=
  Json.Loose.skip Text.isBlank true (cs.length + 1) cs

/-- The character that an escape writes, without the backslash. -/
def escape? : List Char → Option (Char × List Char)
  | 'n' :: rest => some ('\n', rest)
  | 'r' :: rest => some ('\r', rest)
  | 't' :: rest => some ('\t', rest)
  | '0' :: rest => some ('\x00', rest)
  | '"' :: rest => some ('"', rest)
  | '\'' :: rest => some ('\'', rest)
  | '\\' :: rest => some ('\\', rest)
  | 'x' :: a :: b :: rest => do return (Char.ofNat (← Json.unit? '0' '0' a b), rest)
  | 'u' :: '\x7b' :: rest => do
    let n ← Json.Loose.ofBase? 16 (rest.takeWhile (· != '\x7d'))
    guard n.isValidChar
    return (Char.ofNat n, (rest.dropWhile (· != '\x7d')).drop 1)
  | _ => none

/-- The characters of a string up to the quote that ends it. -/
def quoted? : Nat → List Char → Option (List Char × List Char)
  | 0, _ => none
  | fuel + 1, cs =>
    match cs with
    | '"' :: rest => some ([], rest)
    | '\\' :: rest => do
      let (c, rest) ← escape? rest
      (quoted? fuel rest).map fun (s, rest) => (c :: s, rest)
    | c :: rest => (quoted? fuel rest).map fun (s, rest) => (c :: s, rest)
    | [] => none

/-- The characters of a string without escapes, up to the marks that end it. -/
def raw? (closing : List Char) : List Char → Option (List Char × List Char)
  | [] => none
  | c :: rest =>
    if closing.isPrefixOf (c :: rest) then some ([], (c :: rest).drop closing.length)
    else (raw? closing rest).map fun (s, rest) => (c :: s, rest)

def string? : List Char → Option (String × List Char)
  | '"' :: rest => (quoted? (rest.length + 1) rest).map fun (s, rest) => (String.ofList s, rest)
  | 'r' :: rest =>
    let signs := rest.takeWhile (· == '#')
    match rest.dropWhile (· == '#') with
    | '"' :: rest => (raw? ('"' :: signs) rest).map fun (s, rest) => (String.ofList s, rest)
    | _ => none
  | _ => none

/-- A character between apostrophes, as a string. -/
def character? : List Char → Option (String × List Char)
  | '\'' :: '\\' :: rest => do
    let (c, rest) ← escape? rest
    match rest with
    | '\'' :: rest => some (String.singleton c, rest)
    | _ => none
  | '\'' :: c :: '\'' :: rest => some (String.singleton c, rest)
  | _ => none

def name? : List Char → Option (String × List Char)
  | c :: rest =>
    if Text.isLetter c then
      some (String.ofList (c :: rest.takeWhile Text.isNamePart), rest.dropWhile Text.isNamePart)
    else none
  | [] => none

/-- Whether a field with its name starts here. -/
def startsField (cs : List Char) : Bool :=
  match name? cs with
  | some (_, rest) => (skip rest).head? == some ':'
  | none => false

def isNumberPart (c : Char) : Bool :=
  c.isAlphanum || c == '+' || c == '-' || c == '.' || c == '_'

mutual

def value : Nat → List Char → Option (Json × List Char)
  | 0, _ => none
  | fuel + 1, cs =>
    let cs := skip cs
    match string? cs with
    | some (s, rest) => some (.string s, rest)
    | none =>
      match cs with
      | '[' :: rest => (items fuel ']' rest).map fun (all, rest) => (.array all, rest)
      | '\x7b' :: rest => (entries fuel rest).map fun (all, rest) => (.ofMembers all, rest)
      | '(' :: rest => group fuel rest
      | '\'' :: _ => (character? cs).map fun (s, rest) => (.string s, rest)
      | cs =>
        match name? cs with
        | some ("true", rest) => some (.bool true, rest)
        | some ("false", rest) => some (.bool false, rest)
        | some ("inf", rest) | some ("NaN", rest) => some (Json.unreadable, rest)
        | some ("Some", rest) =>
          match skip rest with
          | '(' :: rest => do
            let (told, rest) ← value fuel rest
            match skip rest with
            | ')' :: rest => some (told, rest)
            | ',' :: rest => do
              guard ((skip rest).head? == some ')')
              some (told, (skip rest).drop 1)
            | _ => none
          | _ => none
        | some (_, rest) =>
          match skip rest with
          | '(' :: rest => group fuel rest
          | _ => some (.null, rest)
        | none => do
          let told ← Json.Loose.number? ((cs.takeWhile isNumberPart).filter (· != '_'))
          return (told, cs.dropWhile isNumberPart)

/-- What stands between parentheses: fields with their names, values in a row, or nothing. -/
def group : Nat → List Char → Option (Json × List Char)
  | 0, _ => none
  | fuel + 1, cs =>
    match skip cs with
    | ')' :: rest => some (.null, rest)
    | cs =>
      if startsField cs then (fields fuel cs).map fun (all, rest) => (.ofMembers all, rest)
      else (items fuel ')' cs).map fun (all, rest) => (.array all, rest)

def items : Nat → Char → List Char → Option (List Json × List Char)
  | 0, _, _ => none
  | fuel + 1, closing, cs =>
    let cs := skip cs
    if cs.head? = some closing then some ([], cs.drop 1)
    else do
      let (item, rest) ← value fuel cs
      match skip rest with
      | ',' :: rest => (items fuel closing rest).map fun (more, rest) => (item :: more, rest)
      | c :: rest => if c = closing then some ([item], rest) else none
      | [] => none

def fields : Nat → List Char → Option (List (String × Json) × List Char)
  | 0, _ => none
  | fuel + 1, cs =>
    match skip cs with
    | ')' :: rest => some ([], rest)
    | cs => do
      let (name, rest) ← name? cs
      match skip rest with
      | ':' :: rest =>
        let (told, rest) ← value fuel rest
        match skip rest with
        | ',' :: rest => (fields fuel rest).map fun (more, rest) => ((name, told) :: more, rest)
        | ')' :: rest => some ([(name, told)], rest)
        | _ => none
      | _ => none

/-- The entries of a map, whose keys have to be strings. -/
def entries : Nat → List Char → Option (List (String × Json) × List Char)
  | 0, _ => none
  | fuel + 1, cs =>
    match skip cs with
    | '\x7d' :: rest => some ([], rest)
    | cs => do
      let (name, rest) ← string? cs
      match skip rest with
      | ':' :: rest =>
        let (told, rest) ← value fuel rest
        match skip rest with
        | ',' :: rest => (entries fuel rest).map fun (more, rest) => ((name, told) :: more, rest)
        | '\x7d' :: rest => some ([(name, told)], rest)
        | _ => none
      | _ => none

end

/-- Skips a statement in front of the value that enables extensions. -/
def skipExtensions (cs : List Char) : List Char :=
  match skip cs with
  | '#' :: '!' :: rest => (rest.dropWhile (· != ']')).drop 1
  | cs => cs

def parse? (text : String) : Option Json := do
  let cs := skipExtensions text.toList
  let (told, rest) ← value (3 * cs.length + 3) cs
  guard (skip rest).isEmpty
  return told

end Registrar.Ron
