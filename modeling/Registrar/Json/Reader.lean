import Registrar.Json
import Registrar.Json.Double

/-!
# Reading JSON

Reading has two steps. `read?` takes a text apart and keeps the members of objects as written.
`parse?` also wants every part to be a value that can be kept: numbers that fit a double, strings of
whole characters, at most 127 values inside one another. It puts members in order, the last of
several with one name counting.
-/

namespace Registrar.Json

def isBlank (c : Char) : Bool :=
  c == ' ' || c == '\n' || c == '\t' || c == '\r'

def skipBlank (cs : List Char) : List Char :=
  cs.dropWhile isBlank

/-- Stands for a part that is well formed and has no value. No number that can be kept equals it. -/
def unreadable : Json :=
  .number (.float Double.infinity)

structure Numeral where
  negative : Bool
  whole : List Nat
  fraction : Option (List Nat)
  exponent : Option Int

def digitValue (c : Char) : Nat :=
  c.toNat - 48

def spanDigits (cs : List Char) : List Nat × List Char :=
  ((cs.takeWhile Char.isDigit).map digitValue, cs.dropWhile Char.isDigit)

/-- The number that a row of decimal digits writes. -/
def ofDigits (digits : List Nat) : Nat :=
  digits.foldl (fun n d => 10 * n + d) 0

def numeral? (cs : List Char) : Option (Numeral × List Char) := do
  let (negative, cs) := match cs with
    | '-' :: rest => (true, rest)
    | _ => (false, cs)
  let (whole, cs) := spanDigits cs
  guard (!whole.isEmpty && (whole.head? != some 0 || whole.length == 1))
  let (fraction, cs) ← match cs with
    | '.' :: rest =>
      let (digits, rest) := spanDigits rest
      if digits.isEmpty then none else some (some digits, rest)
    | _ => some (none, cs)
  let scaled (negative : Bool) (rest : List Char) : Option (Option Int × List Char) :=
    let (digits, rest) := spanDigits rest
    let n : Int := ofDigits digits
    if digits.isEmpty then none else some (some (if negative then -n else n), rest)
  let (exponent, cs) ← match cs with
    | c :: rest =>
      if c == 'e' || c == 'E' then
        match rest with
        | '+' :: rest => scaled false rest
        | '-' :: rest => scaled true rest
        | _ => scaled false rest
      else some (none, cs)
    | [] => some (none, [])
  return (⟨negative, whole, fraction, exponent⟩, cs)

/-- Appends digits to a significand as long as it stays within 64 bits, and counts them. -/
def absorb (significand : Nat) : List Nat → Nat × Nat
  | [] => (significand, 0)
  | d :: rest =>
    if 10 * significand + d < UInt64.size then
      let (s, n) := absorb (10 * significand + d) rest
      (s, n + 1)
    else (significand, 0)

def powerOfTen (k : Nat) : Float :=
  Float.ofScientific 1 false k

/-- Divides a significand by a power of ten, of which a double holds those up to `10 ^ 308`. -/
def shrink (f : Float) (k : Nat) : Float :=
  if k ≤ 308 then f / powerOfTen k
  else if k ≤ 616 then f / powerOfTen 308 / powerOfTen (k - 308)
  else 0

/-- Scales a significand by a power of ten, in double arithmetic throughout. -/
def scale? (significand : Nat) (exponent : Int) : Option Float :=
  let f := (UInt64.ofNat significand).toFloat
  if exponent < 0 then some (shrink f (-exponent).toNat)
  else if exponent ≤ 308 then
    let g := f * powerOfTen exponent.toNat
    if g.isInf then none else some g
  else if significand = 0 then some f
  else none

/-- An integer that fits 64 bits stays one; every other number is a double. -/
def Numeral.value? (n : Numeral) : Option Number :=
  let (s, kept) := absorb 0 n.whole
  let skipped := n.whole.length - kept
  if n.fraction.isNone && n.exponent.isNone && skipped == 0 && !n.negative then some (.int s)
  else if n.fraction.isNone && n.exponent.isNone && skipped == 0 && 0 < s && s ≤ UInt64.size / 2 then
    some (.int (-s))
  else
    let (s, places) := absorb s (n.fraction.getD [])
    (scale? s ((skipped : Int) - places + n.exponent.getD 0)).map fun f =>
      .float (if n.negative then -f else f).toBits

/-- A part of a string: a character, or a 16-bit unit that an escape gives. -/
inductive Piece where
  | char (c : Char)
  | unit (n : Nat)

def hexValue? (c : Char) : Option Nat :=
  if '0' ≤ c ∧ c ≤ '9' then some (c.toNat - 48)
  else if 'a' ≤ c ∧ c ≤ 'f' then some (c.toNat - 87)
  else if 'A' ≤ c ∧ c ≤ 'F' then some (c.toNat - 55)
  else none

def unit? (a b c d : Char) : Option Nat := do
  return 4096 * (← hexValue? a) + 256 * (← hexValue? b) + 16 * (← hexValue? c) + (← hexValue? d)

def escaped? (c : Char) : Option Char :=
  match c with
  | '"' => some '"'
  | '\\' => some '\\'
  | '/' => some '/'
  | 'b' => some '\x08'
  | 'f' => some '\x0c'
  | 'n' => some '\n'
  | 'r' => some '\r'
  | 't' => some '\t'
  | _ => none

/-- The parts of a string up to its closing quote. -/
def pieces? : List Char → Option (List Piece × List Char)
  | [] => none
  | '"' :: rest => some ([], rest)
  | '\\' :: 'u' :: a :: b :: c :: d :: rest => do
    let n ← unit? a b c d
    let (ps, rest) ← pieces? rest
    return (.unit n :: ps, rest)
  | '\\' :: c :: rest => do
    let e ← escaped? c
    let (ps, rest) ← pieces? rest
    return (.char e :: ps, rest)
  | c :: rest =>
    if c.toNat < 32 || c == '\\' then none
    else do
      let (ps, rest) ← pieces? rest
      return (.char c :: ps, rest)

/-- The characters of a string; a unit that is half of a pair needs the other half behind it. -/
def joined? : List Piece → Option (List Char)
  | [] => some []
  | .char c :: rest => (c :: ·) <$> joined? rest
  | [.unit n] => if 0xd800 ≤ n ∧ n < 0xe000 then none else some [Char.ofNat n]
  | .unit n :: .unit m :: rest =>
    if n < 0xd800 ∨ 0xe000 ≤ n then (Char.ofNat n :: ·) <$> joined? (.unit m :: rest)
    else if n < 0xdc00 ∧ 0xdc00 ≤ m ∧ m < 0xe000 then
      (Char.ofNat (0x10000 + 0x400 * (n - 0xd800) + (m - 0xdc00)) :: ·) <$> joined? rest
    else none
  | .unit n :: .char c :: rest =>
    if 0xd800 ≤ n ∧ n < 0xe000 then none
    else (Char.ofNat n :: c :: ·) <$> joined? rest

def string?? (cs : List Char) : Option (Option String × List Char) := do
  let (ps, rest) ← pieces? cs
  return ((joined? ps).map String.ofList, rest)

mutual

def readValue : Nat → List Char → Option (Json × List Char)
  | 0, _ => none
  | fuel + 1, cs =>
    match skipBlank cs with
    | 'n' :: 'u' :: 'l' :: 'l' :: rest => some (.null, rest)
    | 't' :: 'r' :: 'u' :: 'e' :: rest => some (.bool true, rest)
    | 'f' :: 'a' :: 'l' :: 's' :: 'e' :: rest => some (.bool false, rest)
    | '"' :: rest => do
      let (s, rest) ← string?? rest
      return (s.elim unreadable .string, rest)
    | '[' :: rest =>
      match skipBlank rest with
      | ']' :: rest => some (.array [], rest)
      | rest => do
        let (items, rest) ← readItems fuel rest
        return (.array items, rest)
    | '\x7b' :: rest =>
      match skipBlank rest with
      | '\x7d' :: rest => some (.object [], rest)
      | rest => do
        let (members, rest) ← readMembers fuel rest
        return (members.elim unreadable .object, rest)
    | rest => do
      let (n, rest) ← numeral? rest
      return (n.value?.elim unreadable .number, rest)

def readItems : Nat → List Char → Option (List Json × List Char)
  | 0, _ => none
  | fuel + 1, cs => do
    let (item, rest) ← readValue fuel cs
    match skipBlank rest with
    | ',' :: rest =>
      let (items, rest) ← readItems fuel rest
      return (item :: items, rest)
    | ']' :: rest => some ([item], rest)
    | _ => none

/-- The members of an object, or nothing when one of the names is no string of whole characters. -/
def readMembers : Nat → List Char → Option (Option (List (String × Json)) × List Char)
  | 0, _ => none
  | fuel + 1, cs =>
    match skipBlank cs with
    | '"' :: rest => do
      let (name, rest) ← string?? rest
      match skipBlank rest with
      | ':' :: rest =>
        let (value, rest) ← readValue fuel rest
        let member := name.map (·, value)
        match skipBlank rest with
        | ',' :: rest =>
          let (members, rest) ← readMembers fuel rest
          return ((· :: ·) <$> member <*> members, rest)
        | '\x7d' :: rest => some (member.map ([·]), rest)
        | _ => none
      | _ => none
    | _ => none

end

def read? (text : String) : Option Json := do
  let cs := text.toList
  let (value, rest) ← readValue (cs.length + 1) cs
  guard (skipBlank rest).isEmpty
  return value

mutual

/-- A value that can be kept, with `room` for so many values inside one another. -/
def kept? (room : Nat) : Json → Option Json
  | .number (.float bits) => if Double.isFinite bits then some (.number (.float bits)) else none
  | .array items => if room = 0 then none else .array <$> keptItems? (room - 1) items
  | .object members => if room = 0 then none else ofMembers <$> keptMembers? (room - 1) members
  | value => some value

def keptItems? (room : Nat) : List Json → Option (List Json)
  | [] => some []
  | item :: rest => do return (← kept? room item) :: (← keptItems? room rest)

def keptMembers? (room : Nat) : List (String × Json) → Option (List (String × Json))
  | [] => some []
  | (name, value) :: rest => do
    return (name, ← kept? room value) :: (← keptMembers? room rest)

end

def parse? (text : String) : Option Json :=
  read? text >>= kept? 127

end Registrar.Json
