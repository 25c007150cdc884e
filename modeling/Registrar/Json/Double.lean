/-!
# Doubles as decimals

A finite double is `m * 2 ^ q`. Its text is the shortest decimal that reads back as it, of two such
the nearer, positional from `1e-5` up to below `1e16` and with an exponent beyond.
-/

namespace Registrar.Json.Double

/-- The significand and the binary exponent of a finite double, without its sign. -/
def parts (bits : UInt64) : Nat × Int :=
  let exponent := ((bits >>> 52) &&& 0x7ff).toNat
  let fraction := (bits &&& 0xfffffffffffff).toNat
  if exponent = 0 then (fraction, -1074) else (fraction + Nat.pow 2 52, exponent - 1075)

/-- Every finite double lies below this one. -/
def infinity : UInt64 :=
  0x7ff0000000000000

def isFinite (bits : UInt64) : Bool :=
  bits &&& infinity != infinity

def isNegative (bits : UInt64) : Bool :=
  bits >>> 63 == 1

/-- A decimal `digits * 10 ^ exponent`. -/
structure Decimal where
  digits : Nat
  exponent : Int

/-- How many decimal digits the whole part of `num / den` has, less one; below one, how far the
first digit stands behind the point, as a negative number. -/
def magnitude (num den : Nat) : Int :=
  if den ≤ num then ((num / den).repr.length : Int) - 1
  else -((List.range 400).find? (fun k => den ≤ num * Nat.pow 10 k)).getD 0

/-- The decimals of a grid next to `num / den` that lie strictly between `low / den` and
`high / den`, or on an end when the ends count. -/
def hits (num low high den : Nat) (ends : Bool) (grid : Int) : List Decimal :=
  let up := Nat.pow 10 grid.toNat
  let down := Nat.pow 10 (-grid).toNat
  let floor := num * down / (den * up)
  let near := if 2 * (num * down - floor * (den * up)) ≤ den * up
    then [floor, floor + 1] else [floor + 1, floor]
  let inside := near.filter fun d =>
    let x := d * up * den
    let (l, h) := (low * down, high * down)
    (l < x && x < h) || (ends && (x == l || x == h))
  inside.map (⟨·, grid⟩)

/-- The shortest decimal that rounds to `m * 2 ^ q`. -/
def shortest (m : Nat) (q : Int) : Decimal :=
  let scale := Nat.pow 2 q.toNat
  let den := 4 * Nat.pow 2 (-q).toNat
  let num := 4 * m * scale
  let low := if m = Nat.pow 2 52 && q > -1074 then num - scale else num - 2 * scale
  let high := num + 2 * scale
  let top := magnitude num den
  let grids := (List.range 17).map (fun (n : Nat) => top - (n : Int))
  ((grids.map (hits num low high den (m % 2 == 0))).flatten.head?).getD ⟨m, q⟩

/-- A decimal without the zeros at the end of its digits. -/
def Decimal.trimmed (fuel : Nat) (d : Decimal) : Decimal :=
  match fuel with
  | 0 => d
  | fuel + 1 =>
    if d.digits ≠ 0 ∧ d.digits % 10 = 0 then Decimal.trimmed fuel ⟨d.digits / 10, d.exponent + 1⟩
    else d

def Decimal.render (d : Decimal) : String :=
  let text := d.digits.repr
  let point := (text.length : Int) + d.exponent
  if 0 ≤ d.exponent ∧ point ≤ 16 then
    text ++ String.ofList (List.replicate d.exponent.toNat '0') ++ ".0"
  else if 0 < point ∧ point ≤ 16 then
    let chars := text.toList
    String.ofList (chars.take point.toNat ++ '.' :: chars.drop point.toNat)
  else if -5 < point ∧ point ≤ 0 then
    "0." ++ String.ofList (List.replicate (-point).toNat '0') ++ text
  else
    let mantissa := match text.toList with
      | [] => []
      | [c] => [c]
      | c :: rest => c :: '.' :: rest
    String.ofList mantissa ++ "e" ++ toString (point - 1)

/-- The text of a finite double. -/
def render (bits : UInt64) : String :=
  let sign := if isNegative bits then "-" else ""
  let (m, q) := parts bits
  sign ++ if m = 0 then "0.0" else ((shortest m q).trimmed 20).render

end Registrar.Json.Double
