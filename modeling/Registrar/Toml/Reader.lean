import Registrar.Json.Reader
import Registrar.Time
import Registrar.Toml

/-!
# Reading TOML

A date or a time is kept as its text, every other scalar as the JSON value of its kind.
-/

namespace Registrar.Toml

open Registrar.Json (Number unit? hexValue?)

def isBlank (c : Char) : Bool :=
  c == ' ' || c == '\t'

def skipBlank (cs : List Char) : List Char :=
  cs.dropWhile isBlank

/-- Whether a character may stand in a comment or a string on one line. -/
def isShown (c : Char) : Bool :=
  c == '\t' || (32 ≤ c.toNat && c != '\x7f')

def skipComment : List Char → List Char
  | '#' :: rest => rest.dropWhile isShown
  | cs => cs

/-- What comes behind the end of a line. -/
def newline? : List Char → Option (List Char)
  | '\n' :: rest => some rest
  | '\r' :: '\n' :: rest => some rest
  | _ => none

/-- Skips blanks, comments and ends of lines. -/
def skipLines : Nat → List Char → List Char
  | 0, cs => cs
  | fuel + 1, cs =>
    let cs := skipComment (skipBlank cs)
    match newline? cs with
    | some rest => skipLines fuel rest
    | none => cs

/-- The character that an escape writes, without the backslash. -/
def escape? : List Char → Option (Char × List Char)
  | 'b' :: rest => some ('\x08', rest)
  | 't' :: rest => some ('\t', rest)
  | 'n' :: rest => some ('\n', rest)
  | 'f' :: rest => some ('\x0c', rest)
  | 'r' :: rest => some ('\r', rest)
  | 'e' :: rest => some ('\x1b', rest)
  | '"' :: rest => some ('"', rest)
  | '\\' :: rest => some ('\\', rest)
  | 'x' :: a :: b :: rest => do return (Char.ofNat (← unit? '0' '0' a b), rest)
  | 'u' :: a :: b :: c :: d :: rest => do
    let n ← unit? a b c d
    if n.isValidChar then some (Char.ofNat n, rest) else none
  | 'U' :: a :: b :: c :: d :: e :: f :: g :: h :: rest => do
    let n := 65536 * (← unit? a b c d) + (← unit? e f g h)
    if n.isValidChar then some (Char.ofNat n, rest) else none
  | _ => none

def cons? (c : Char) (r : Option (List Char × List Char)) : Option (List Char × List Char) :=
  r.map fun (s, rest) => (c :: s, rest)

/-- A string between quotes on one line. -/
def basic : Nat → List Char → Option (List Char × List Char)
  | 0, _ => none
  | fuel + 1, cs =>
    match cs with
    | '"' :: rest => some ([], rest)
    | '\\' :: rest => do
      let (c, rest) ← escape? rest
      cons? c (basic fuel rest)
    | c :: rest => if isShown c then cons? c (basic fuel rest) else none
    | [] => none

/-- A string between apostrophes on one line, without escapes. -/
def literal : List Char → Option (List Char × List Char)
  | '\'' :: rest => some ([], rest)
  | c :: rest => if isShown c then cons? c (literal rest) else none
  | [] => none

/-- Up to two quotes may stand before the three that end a string. -/
def closing (quote : Char) (cs : List Char) : Option (List Char × List Char) :=
  let quotes := (cs.take 5).takeWhile (· == quote)
  if quotes.length < 3 then none else some (quotes.drop 3, cs.drop quotes.length)

/-- A string over lines, with escapes or without. A backslash at the end of a line joins it with the
next text. -/
def multiline (quote : Char) : Nat → List Char → Option (List Char × List Char)
  | 0, _ => none
  | fuel + 1, cs =>
    match closing quote cs with
    | some ended => some ended
    | none =>
      match newline? cs with
      | some rest => cons? '\n' (multiline quote fuel rest)
      | none =>
        match cs with
        | [] => none
        | c :: rest =>
          if c = '\\' ∧ quote = '"' then
            match newline? (skipBlank rest) with
            | some _ =>
              multiline quote fuel (rest.dropWhile (fun c => isBlank c || c == '\n' || c == '\r'))
            | none => do
              let (c, rest) ← escape? rest
              cons? c (multiline quote fuel rest)
          else if isShown c then cons? c (multiline quote fuel rest)
          else none

def string? (cs : List Char) : Option (String × List Char) := do
  let trimmed (rest : List Char) : List Char := (newline? rest).getD rest
  let (s, rest) ← match cs with
    | '"' :: '"' :: '"' :: rest => multiline '"' (rest.length + 1) (trimmed rest)
    | '\'' :: '\'' :: '\'' :: rest => multiline '\'' (rest.length + 1) (trimmed rest)
    | '"' :: rest => basic (rest.length + 1) rest
    | '\'' :: rest => literal rest
    | _ => none
  return (String.ofList s, rest)

def isBare (c : Char) : Bool :=
  c.isAlphanum || c == '-' || c == '_'

def name? (cs : List Char) : Option (String × List Char) :=
  match cs with
  | '"' :: rest => do
    let (s, rest) ← basic (rest.length + 1) rest
    return (String.ofList s, rest)
  | '\'' :: rest => do
    let (s, rest) ← literal rest
    return (String.ofList s, rest)
  | cs =>
    let bare := cs.takeWhile isBare
    if bare.isEmpty then none else some (String.ofList bare, cs.drop bare.length)

/-- The parts of a key and what comes behind it, blanks skipped. -/
def key : Nat → List Char → Option (List String × List Char)
  | 0, _ => none
  | fuel + 1, cs => do
    let (name, rest) ← name? (skipBlank cs)
    match skipBlank rest with
    | '.' :: rest =>
      let (path, rest) ← key fuel rest
      return (name :: path, rest)
    | rest => return ([name], rest)

/-- The digits of a row in which a single underscore may stand between two of them. -/
def digits? (isDigit : Char → Bool) : List Char → Option (List Char)
  | [] => none
  | [c] => if isDigit c then some [c] else none
  | c :: '_' :: rest => if isDigit c then (c :: ·) <$> digits? isDigit rest else none
  | c :: rest => if isDigit c then (c :: ·) <$> digits? isDigit rest else none

/-- The number that a row of digits writes in a base. -/
def ofBase (base : Nat) (digits : List Char) : Nat :=
  digits.foldl (fun n c => base * n + (hexValue? c).getD 0) 0

def int64? (n : Int) : Option Json :=
  let half : Int := (UInt64.size / 2 : Nat)
  if -half ≤ n ∧ n < half then some (.number (.int n)) else none

/-- A row of decimal digits without needless zeros in front. -/
def decimal? (cs : List Char) : Option (List Char) := do
  let digits ← digits? Char.isDigit cs
  if digits.head? = some '0' ∧ 1 < digits.length then none else some digits

def signed (cs : List Char) : Bool × List Char :=
  match cs with
  | '-' :: rest => (true, rest)
  | '+' :: rest => (false, rest)
  | _ => (false, cs)

def integer? (cs : List Char) : Option Json :=
  match cs with
  | '0' :: 'x' :: rest => do
    int64? (ofBase 16 (← digits? (fun c => (hexValue? c).isSome) rest))
  | '0' :: 'o' :: rest => do int64? (ofBase 8 (← digits? (fun c => '0' ≤ c ∧ c ≤ '7') rest))
  | '0' :: 'b' :: rest => do int64? (ofBase 2 (← digits? (fun c => c = '0' ∨ c = '1') rest))
  | cs => do
    let (negative, rest) := signed cs
    let n : Int := ofBase 10 (← decimal? rest)
    int64? (if negative then -n else n)

/-- A number with a fraction or an exponent. -/
def double? (cs : List Char) : Option Json := do
  let (negative, rest) := signed cs
  if rest = ['i', 'n', 'f'] ∨ rest = ['n', 'a', 'n'] then return Json.unreadable
  let whole ← decimal? (rest.takeWhile (fun c => c != '.' && c != 'e' && c != 'E'))
  let isExponent (c : Char) : Bool := c == 'e' || c == 'E'
  let behind := rest.dropWhile (fun c => c != '.' && !isExponent c)
  let fraction ← match behind with
    | '.' :: rest => some <$> digits? Char.isDigit (rest.takeWhile (!isExponent ·))
    | _ => some none
  let exponent : Option Int ← match behind.dropWhile (!isExponent ·) with
    | _ :: rest => do
      let (negative, rest) := signed rest
      let n : Int := ofBase 10 (← digits? Char.isDigit rest)
      some (some (if negative then -n else n))
    | [] => some none
  if fraction.isNone && exponent.isNone then none
  else
    let values (digits : List Char) : List Nat := digits.map Json.digitValue
    Json.number <$> Json.Numeral.value? ⟨negative, values whole, fraction.map values, exponent⟩

/-- A number of exactly so many digits. -/
def fixed? (width : Nat) (cs : List Char) : Option (Nat × List Char) :=
  let digits := cs.take width
  if digits.length = width ∧ digits.all Char.isDigit then some (ofBase 10 digits, cs.drop width)
  else none

def expect? (c : Char) : List Char → Option (List Char)
  | d :: rest => if c = d then some rest else none
  | [] => none

def date? (cs : List Char) : Option (String × List Char) := do
  let (year, cs) ← fixed? 4 cs
  let (month, cs) ← fixed? 2 (← expect? '-' cs)
  let (day, cs) ← fixed? 2 (← expect? '-' cs)
  guard (Calendar.isDate year month day)
  return (s!"{Time.padded 4 year}-{Time.padded 2 month}-{Time.padded 2 day}", cs)

/-- A time of day; the seconds may be left out, and no more than nine digits of their fraction count. -/
def timeOfDay? (cs : List Char) : Option (String × List Char) := do
  let (hour, cs) ← fixed? 2 cs
  let (minute, cs) ← fixed? 2 (← expect? ':' cs)
  let (second, cs) ← match cs with
    | ':' :: rest => fixed? 2 rest
    | _ => some (0, cs)
  guard (hour < 24 && minute < 60 && second ≤ 60)
  let told := s!"{Time.padded 2 hour}:{Time.padded 2 minute}:{Time.padded 2 second}"
  match cs with
  | '.' :: rest =>
    let digits := rest.takeWhile Char.isDigit
    guard !digits.isEmpty
    let kept := ((digits.take 9).reverse.dropWhile (· == '0')).reverse
    return (if kept.isEmpty then told else told ++ "." ++ String.ofList kept, rest.drop digits.length)
  | _ => return (told, cs)

def offset? : List Char → Option String
  | [] => some ""
  | ['Z'] | ['z'] => some "Z"
  | sign :: cs => do
    guard (sign = '+' ∨ sign = '-')
    let (hours, cs) ← fixed? 2 cs
    let (minutes, cs) ← fixed? 2 (← expect? ':' cs)
    guard (cs.isEmpty && hours < 24 && minutes < 60)
    let sign := if hours = 0 ∧ minutes = 0 then '+' else sign
    return s!"{sign}{Time.padded 2 hours}:{Time.padded 2 minutes}"

/-- The text of a date, a time of day, or both with or without an offset. -/
def moment? (cs : List Char) : Option String :=
  match date? cs with
  | some (date, []) => some date
  | some (date, sep :: rest) => do
    guard (sep = 'T' ∨ sep = 't' ∨ sep = ' ')
    let (time, rest) ← timeOfDay? rest
    return date ++ "T" ++ time ++ (← offset? rest)
  | none =>
    match timeOfDay? cs with
    | some (time, []) => some time
    | _ => none

def isScalarChar (c : Char) : Bool :=
  isBare c || c == '+' || c == '.' || c == ':'

/-- The characters of a scalar that is not a string. A blank may stand between a date and a time. -/
def scalarText (cs : List Char) : List Char × List Char :=
  let first := cs.takeWhile isScalarChar
  let rest := cs.drop first.length
  match rest with
  | ' ' :: c :: _ =>
    if c.isDigit && ((date? first).map Prod.snd) == some [] then
      let second := (rest.drop 1).takeWhile isScalarChar
      (first ++ ' ' :: second, rest.drop (second.length + 1))
    else (first, rest)
  | _ => (first, rest)

def scalar? (cs : List Char) : Option Json :=
  if cs = "true".toList then some (.bool true)
  else if cs = "false".toList then some (.bool false)
  else (integer? cs).or ((double? cs).or ((moment? cs).map .string))

mutual

def value : Nat → List Char → Option (Json × List Char)
  | 0, _ => none
  | fuel + 1, cs =>
    match cs with
    | '[' :: rest => do
      let (items, rest) ← items fuel rest
      return (.array items, rest)
    | '\x7b' :: rest => do
      let (definitions, rest) ← definitions fuel rest
      return (← inlineTable? definitions, rest)
    | '"' :: _ | '\'' :: _ => do
      let (s, rest) ← string? cs
      return (.string s, rest)
    | cs => do
      let (text, rest) := scalarText cs
      return (← scalar? text, rest)

/-- The values of an array up to its end. -/
def items : Nat → List Char → Option (List Json × List Char)
  | 0, _ => none
  | fuel + 1, cs =>
    match skipLines (cs.length + 1) cs with
    | ']' :: rest => some ([], rest)
    | cs => do
      let (item, rest) ← value fuel cs
      match skipLines (rest.length + 1) rest with
      | ',' :: rest =>
        let (more, rest) ← items fuel rest
        return (item :: more, rest)
      | ']' :: rest => some ([item], rest)
      | _ => none

/-- The definitions of an inline table up to its end. -/
def definitions : Nat → List Char → Option (List (List String × Json) × List Char)
  | 0, _ => none
  | fuel + 1, cs =>
    match skipLines (cs.length + 1) cs with
    | '\x7d' :: rest => some ([], rest)
    | cs => do
      let (path, rest) ← key (cs.length + 1) cs
      let (v, rest) ← value fuel (skipBlank (← expect? '=' rest))
      match skipLines (rest.length + 1) rest with
      | ',' :: rest =>
        let (more, rest) ← definitions fuel rest
        return ((path, v) :: more, rest)
      | '\x7d' :: rest => some ([(path, v)], rest)
      | _ => none

end

/-- A line without its comment and its end. -/
def line? (cs : List Char) : Option (Line × List Char) :=
  match cs with
  | '[' :: '[' :: rest => do
    let (path, rest) ← key (rest.length + 1) rest
    return (.arrayHeader path, ← expect? ']' (← expect? ']' rest))
  | '[' :: rest => do
    let (path, rest) ← key (rest.length + 1) rest
    return (.header path, ← expect? ']' rest)
  | [] | '#' :: _ | '\n' :: _ | '\r' :: _ => some (.blank, cs)
  | cs => do
    let (path, rest) ← key (cs.length + 1) cs
    let (v, rest) ← value (rest.length + 1) (skipBlank (← expect? '=' rest))
    return (.definition path v, rest)

/-- Takes in the lines of a text. -/
def lines : Nat → Draft → List Char → Option Draft
  | 0, _, _ => none
  | fuel + 1, draft, cs => do
    let (line, rest) ← line? (skipBlank cs)
    let draft ← draft.add line
    match skipComment (skipBlank rest) with
    | [] => return draft
    | rest => lines fuel draft (← newline? rest)

def parse? (text : String) : Option Json :=
  let cs := text.toList
  (lines (cs.length + 1) .empty cs).map Draft.value

end Registrar.Toml
