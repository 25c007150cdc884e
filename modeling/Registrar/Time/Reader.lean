import Registrar.Text
import Registrar.Time

/-!
# Reading times

A date, a `T` or a blank, a time of day and an offset from UTC. Blanks may stand around the parts,
numbers need not be padded, a year with a sign may have any number of digits, and digits of a second
after the ninth are passed over.
-/

namespace Registrar.Time

open Registrar.Text (skipBlanks)

/-- A number of at least one and at most `width` digits. -/
def number? (width : Nat) (cs : List Char) : Option (Nat × List Char) :=
  let digits := (cs.take width).takeWhile Char.isDigit
  if digits.isEmpty then none
  else some (digits.foldl (fun n c => 10 * n + (c.toNat - 48)) 0, cs.drop digits.length)

def field? (width : Nat) (cs : List Char) : Option (Nat × List Char) :=
  number? width (skipBlanks cs)

def year? (cs : List Char) : Option (Int × List Char) :=
  match skipBlanks cs with
  | '-' :: rest => (number? rest.length rest).map (fun (n, rest) => (-(n : Int), rest))
  | '+' :: rest => (number? rest.length rest).map (fun (n, rest) => ((n : Int), rest))
  | rest => (number? 4 rest).map (fun (n, rest) => ((n : Int), rest))

/-- A separator, with blanks before it. -/
def separator? (c : Char) (cs : List Char) : Option (List Char) :=
  match skipBlanks cs with
  | d :: rest => if c = d then some rest else none
  | [] => none

/-- The nanoseconds behind a point, if there is one. -/
def fraction? : List Char → Option (Nat × List Char)
  | '.' :: rest => do
    let (n, after) ← number? 9 rest
    return (n * Nat.pow 10 (9 - (rest.length - after.length)), after.dropWhile Char.isDigit)
  | rest => some (0, rest)

def pair? (tens units : Char) : Option Nat :=
  if tens.isDigit && units.isDigit then some (10 * (tens.toNat - 48) + (units.toNat - 48)) else none

/-- Minutes ahead of UTC, by less than a day. -/
def offset? : List Char → Option (Int × List Char)
  | u :: t :: c :: rest =>
    if u.toUpper = 'U' ∧ t.toUpper = 'T' ∧ c.toUpper = 'C' then some (0, rest)
    else signed? (u :: t :: c :: rest)
  | cs => signed? cs
where
  signed? : List Char → Option (Int × List Char)
    | 'Z' :: rest | 'z' :: rest => some (0, rest)
    | sign :: h₁ :: h₂ :: rest => do
      guard (sign = '+' ∨ sign = '-' ∨ sign = '\u2212')
      let hours ← pair? h₁ h₂
      match rest.dropWhile (fun c => c = ':' || Text.isBlank c) with
      | m₁ :: m₂ :: rest =>
        let minutes ← pair? m₁ m₂
        guard (minutes < 60 ∧ hours < 24)
        let ahead : Int := 60 * hours + minutes
        return (if sign = '+' then ahead else -ahead, rest)
      | _ => none
    | _ => none

def bounded? (n bound : Nat) : Option (Fin bound) :=
  if h : n < bound then some ⟨n, h⟩ else none

def parse? (text : String) : Option Time := do
  let (year, cs) ← year? text.toList
  let cs ← separator? '-' cs
  let (month, cs) ← field? 2 cs
  let cs ← separator? '-' cs
  let (day, cs) ← field? 2 cs
  let cs ← match cs with
    | 'T' :: rest | 't' :: rest | ' ' :: rest => some rest
    | _ => none
  let (hour, cs) ← field? 2 cs
  let cs ← separator? ':' cs
  let (minute, cs) ← field? 2 cs
  let cs ← separator? ':' cs
  let (second, cs) ← field? 2 cs
  let (nanosecond, cs) ← fraction? cs
  let (ahead, cs) ← offset? (skipBlanks cs)
  guard (skipBlanks cs).isEmpty
  let told : Time := {
    date := ← Date.of? year month day
    hour := ← bounded? hour 24
    minute := ← bounded? minute 60
    second := ← bounded? second 61
    nanosecond := ← bounded? nanosecond 1000000000 }
  told.behind? ahead

end Registrar.Time
