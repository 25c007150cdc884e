import Mathlib.Algebra.Group.Nat.Defs
import Mathlib.Data.Option.Basic
import Mathlib.Tactic.Common
import Registrar.Proofs.Text
import Registrar.Time.Reader

/-!
# The text of a time tells the time

Each number in the text of a time stands between things that are no digits, or has all the digits
its field can take, so the reader takes exactly its digits (`number?_append`). A time is therefore
read back from its text (`parse?_render`).
-/

namespace Registrar

open Text (isBlank isBlank_of_isDigit skipBlanks)

theorem Date.of?_self (d : Date) : Date.of? d.year d.month d.day = some d := by
  simp [Date.of?, d.valid]

theorem Date.month_day_lt (d : Date) : d.month < 100 ∧ d.day < 100 := by
  have h := d.valid
  simp only [Calendar.isDate, Bool.and_eq_true, decide_eq_true_eq] at h
  have hd : Calendar.daysInMonth d.year d.month ≤ 31 := by
    unfold Calendar.daysInMonth
    split_ifs <;> omega
  omega

namespace Time

section Numbers

/-- The number that digits tell. -/
def numeral (digits : List Char) : Nat :=
  digits.foldl (fun n c => 10 * n + (c.toNat - 48)) 0

theorem takeWhile_isDigit_append {ds rest : List Char} (hd : ∀ c ∈ ds, c.isDigit)
    (hrest : ∀ c ∈ rest.head?, c.isDigit = false) :
    (ds ++ rest).takeWhile Char.isDigit = ds := by
  rw [List.takeWhile_append_of_pos hd]
  cases rest with
  | nil => simp
  | cons c tl => simp [hrest c rfl]

/-- Digits are read up to the width of the field, or up to what is no digit. -/
theorem number?_append {width : Nat} {ds rest : List Char} (hd : ∀ c ∈ ds, c.isDigit)
    (hne : ds ≠ []) (hle : ds.length ≤ width)
    (hrest : ds.length = width ∨ ∀ c ∈ rest.head?, c.isDigit = false) :
    number? width (ds ++ rest) = some (numeral ds, rest) := by
  have htake : ((ds ++ rest).take width).takeWhile Char.isDigit = ds := by
    rw [List.take_append, List.take_of_length_le hle]
    refine takeWhile_isDigit_append hd ?_
    rcases hrest with hlen | hstop
    · simp [hlen]
    · intro c hc
      rcases h : width - ds.length with _ | k <;> rw [h] at hc
      · simp at hc
      · cases rest with
        | nil => simp at hc
        | cons a tl => exact hstop c (by simpa using hc)
  simp only [number?, htake]
  rw [if_neg (by simpa using hne), List.drop_left]
  rfl

theorem toList_padded (width n : Nat) :
    (padded width n).toList
      = List.replicate (width - (Nat.toDigits 10 n).length) '0' ++ Nat.toDigits 10 n := by
  have hlen : n.repr.length = (Nat.toDigits 10 n).length := by
    rw [← String.length_toList, Nat.toList_repr]
  simp [padded, String.toList_append, Nat.toList_repr, hlen]

theorem isDigit_of_mem_padded {width n : Nat} {c : Char} (h : c ∈ (padded width n).toList) :
    c.isDigit := by
  rw [toList_padded] at h
  rcases List.mem_append.1 h with h | h
  · rw [(List.mem_replicate.1 h).2]
    decide
  · exact Nat.isDigit_of_mem_toDigits (by decide) (by decide) h

theorem padded_ne_nil (width n : Nat) : (padded width n).toList ≠ [] := by
  rw [toList_padded]
  simp [Nat.toDigits_ne_nil]

theorem numeral_padded (width n : Nat) : numeral (padded width n).toList = n := by
  have h : ∀ ds, numeral ds = Nat.ofDigitChars 10 ds 0 := fun ds => rfl
  rw [h, toList_padded, Nat.ofDigitChars_append, Nat.ofDigitChars_replicate_zero, Nat.mul_zero,
    Nat.ofDigitChars_ten_toDigits]

theorem length_padded {width n : Nat} (hw : 0 < width) (hn : n < 10 ^ width) :
    (padded width n).toList.length = width := by
  have := (Nat.length_toDigits_le_iff (by decide) hw).2 hn
  rw [toList_padded, List.length_append, List.length_replicate]
  omega

theorem number?_padded {width n : Nat} (hw : 0 < width) (hn : n < 10 ^ width) (rest : List Char) :
    number? width ((padded width n).toList ++ rest) = some (n, rest) := by
  have hlen := length_padded hw hn
  rw [number?_append (fun c => isDigit_of_mem_padded) (padded_ne_nil width n) (by omega)
    (.inl hlen),
    numeral_padded]

theorem skipBlanks_padded (width n : Nat) (rest : List Char) :
    skipBlanks ((padded width n).toList ++ rest) = (padded width n).toList ++ rest := by
  rcases hp : (padded width n).toList with _ | ⟨c, cs⟩
  · exact absurd hp (padded_ne_nil width n)
  · have hc : c.isDigit := @isDigit_of_mem_padded width n _ (by simp [hp])
    simp [skipBlanks, isBlank_of_isDigit hc]

theorem field?_padded {width n : Nat} (hw : 0 < width) (hn : n < 10 ^ width) (rest : List Char) :
    field? width ((padded width n).toList ++ rest) = some (n, rest) := by
  rw [field?, skipBlanks_padded, number?_padded hw hn]

end Numbers

/-- The digits of a number with a sign end where the hyphen behind them stands. -/
theorem number?_signed (n : Nat) (rest : List Char) :
    number? ((padded 4 n).toList ++ '-' :: rest).length ((padded 4 n).toList ++ '-' :: rest)
      = some (n, '-' :: rest) := by
  rw [number?_append (fun c => isDigit_of_mem_padded) (padded_ne_nil 4 n)
    (by simp) (.inr (by simp)), numeral_padded]

theorem year?_renderYear (year : Int) (rest : List Char) :
    year? ((renderYear year).toList ++ '-' :: rest) = some (year, '-' :: rest) := by
  have plus : "+".toList = ['+'] := rfl
  have hyphen : "-".toList = ['-'] := rfl
  unfold renderYear
  split_ifs with h₁ h₂
  · have hn : number? 4 ((padded 4 year.toNat).toList ++ '-' :: rest)
        = some (year.toNat, '-' :: rest) :=
      number?_padded (by decide) (by omega) _
    have hs := skipBlanks_padded 4 year.toNat ('-' :: rest)
    rcases hp : (padded 4 year.toNat).toList with _ | ⟨c, cs⟩
    · exact absurd hp (padded_ne_nil _ _)
    · have hc : c.isDigit := @isDigit_of_mem_padded 4 year.toNat _ (by simp [hp])
      rw [hp] at hn hs
      simp only [List.cons_append] at hn hs ⊢
      simp only [year?, hs]
      split
      · rename_i heq
        simp only [List.cons.injEq] at heq
        exact absurd hc (by rw [heq.1]; decide)
      · rename_i heq
        simp only [List.cons.injEq] at heq
        exact absurd hc (by rw [heq.1]; decide)
      · simp only [hn, Option.map_some, Option.some.injEq, Prod.mk.injEq, and_true]
        omega
  · simp only [String.toList_append, List.append_assoc]
    have hs : skipBlanks ('+' :: ((padded 4 year.toNat).toList ++ '-' :: rest))
        = '+' :: ((padded 4 year.toNat).toList ++ '-' :: rest) := by simp [skipBlanks, isBlank]
    simp only [year?, plus, List.cons_append, List.nil_append, hs, number?_signed,
      Option.map_some, Option.some.injEq, Prod.mk.injEq, and_true]
    omega
  · simp only [String.toList_append, List.append_assoc]
    have hs : skipBlanks ('-' :: ((padded 4 (-year).toNat).toList ++ '-' :: rest))
        = '-' :: ((padded 4 (-year).toNat).toList ++ '-' :: rest) := by simp [skipBlanks, isBlank]
    simp only [year?, hyphen, List.cons_append, List.nil_append, hs, number?_signed,
      Option.map_some, Option.some.injEq, Prod.mk.injEq, and_true]
    omega

/-- The fraction of a second is read back, up to what ends the text. -/
theorem fraction?_renderFraction {n : Nat} (hn : n < 1000000000) :
    fraction? ((renderFraction n).toList ++ ['Z']) = some (n, ['Z']) := by
  have hread : ∀ width k, 0 < width → width ≤ 9 → k < 10 ^ width →
      fraction? ('.' :: ((padded width k).toList ++ ['Z']))
        = some (k * 10 ^ (9 - width), ['Z']) := by
    intro width k hw hw9 hk
    have hlen := length_padded hw hk
    have hnum : number? 9 ((padded width k).toList ++ ['Z']) = some (k, ['Z']) := by
      rw [number?_append (fun c => isDigit_of_mem_padded) (padded_ne_nil width k) (by omega)
        (.inr (by simp)), numeral_padded]
    simp [fraction?, hnum, hlen]
  have point : ".".toList = ['.'] := rfl
  unfold renderFraction
  split_ifs with h₁ h₂ h₃
  · subst h₁
    simp [fraction?]
  · have := hread 3 (n / 1000000) (by decide) (by decide) (by omega)
    simp only [String.toList_append, point, List.cons_append, List.nil_append, this]
    simp only [Option.some.injEq, Prod.mk.injEq, and_true]
    omega
  · have := hread 6 (n / 1000) (by decide) (by decide) (by omega)
    simp only [String.toList_append, point, List.cons_append, List.nil_append, this]
    simp only [Option.some.injEq, Prod.mk.injEq, and_true]
    omega
  · have := hread 9 n (by decide) (by decide) (by omega)
    simp only [String.toList_append, point, List.cons_append, List.nil_append, this]
    simp

theorem bounded?_val {bound : Nat} (n : Fin bound) : bounded? n.val bound = some n := by
  simp [bounded?, n.isLt]

theorem offset?_utc : offset? (skipBlanks ['Z']) = some (0, []) := by
  decide

theorem behind?_zero (t : Time) : t.behind? 0 = some t :=
  if_pos rfl

theorem some_bind_eq {α β : Type} (a : α) (f : α → Option β) : (some a >>= f) = f a := by
  rw [Option.bind_eq_bind, Option.bind_some]

/-- A time is read back from its text. -/
theorem parse?_render (t : Time) : parse? t.render = some t := by
  obtain ⟨hmonth, hday⟩ := Date.month_day_lt t.date
  have hsep : ∀ c rest, isBlank c = false → separator? c (c :: rest) = some rest := by
    intro c rest hc
    simp [separator?, skipBlanks, hc]
  have hfrac := fraction?_renderFraction t.nanosecond.isLt
  have hend : (guard ((skipBlanks []).isEmpty = true) : Option Unit) = some () := rfl
  have htext : t.render.toList = (renderYear t.date.year).toList ++ '-' ::
      ((padded 2 t.date.month).toList ++ '-' :: ((padded 2 t.date.day).toList ++ 'T' ::
        ((padded 2 t.hour).toList ++ ':' :: ((padded 2 t.minute).toList ++ ':' ::
          ((padded 2 t.second).toList ++ ((renderFraction t.nanosecond).toList ++ ['Z'])))))) := by
    simp [render, String.toList_append]
  simp only [parse?, htext, year?_renderYear, some_bind_eq, hsep '-' _ rfl, hsep ':' _ rfl, hfrac,
    @field?_padded 2 t.date.month (by decide) (by omega),
    @field?_padded 2 t.date.day (by decide) (by omega),
    @field?_padded 2 t.hour (by decide) (by omega),
    @field?_padded 2 t.minute (by decide) (by omega),
    @field?_padded 2 t.second (by decide) (by omega),
    offset?_utc, hend, Date.of?_self, bounded?_val, behind?_zero]

end Time

end Registrar
