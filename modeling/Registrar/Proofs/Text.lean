import Mathlib.Data.List.DropRight
import Mathlib.Data.String.Basic
import Registrar.Text

/-!
# Letters, digits and blanks

Only capitals have a small letter other than themselves, and it is a letter as well, so a character
that is no letter is the small form of nothing but itself (`toLower_eq_iff`). Letters and digits are
no blanks, and a text without the blanks at its ends is empty just when it has nothing but blanks
(`trim_eq_empty_iff`).
-/

namespace Registrar.Text

variable {c d : Char} {text : String}

theorem isAlpha_iff : c.isAlpha = true ↔
    65 ≤ c.toNat ∧ c.toNat ≤ 90 ∨ 97 ≤ c.toNat ∧ c.toNat ≤ 122 := by
  have hcapital : c.isUpper = true ↔ 65 ≤ c.toNat ∧ c.toNat ≤ 90 := decide_eq_true_iff
  have hsmall : c.isLower = true ↔ 97 ≤ c.toNat ∧ c.toNat ≤ 122 :=
    (Bool.and_eq_true_iff).trans (and_congr decide_eq_true_iff decide_eq_true_iff)
  exact (Bool.or_eq_true_iff).trans (or_congr hcapital hsmall)

theorem isDigit_iff : c.isDigit = true ↔ 48 ≤ c.toNat ∧ c.toNat ≤ 57 :=
  (Bool.and_eq_true_iff).trans (and_congr decide_eq_true_iff decide_eq_true_iff)

/-- A capital is 32 places before its small letter, and every other character stays as it is. -/
theorem toLower_cases (c : Char) :
    (65 ≤ c.toNat ∧ c.toNat ≤ 90) ∧ c.toLower.toNat = c.toNat + 32 ∨ c.toLower = c := by
  unfold Char.toLower
  split
  · rename_i hcapital
    have hcode : 65 ≤ c.toNat ∧ c.toNat ≤ 90 := hcapital
    have hmoved : (c.toNat + 32) % 2 ^ 32 = c.toNat + 32 := by omega
    exact .inl ⟨hcode, hmoved⟩
  · exact .inr rfl

theorem toLower_of_not_isAlpha (h : c.isAlpha = false) : c.toLower = c := by
  rcases toLower_cases c with ⟨hcode, -⟩ | hsame
  · rw [isAlpha_iff.2 (.inl hcode)] at h
    cases h
  · exact hsame

theorem isAlpha_toLower (c : Char) : c.toLower.isAlpha = c.isAlpha := by
  rcases toLower_cases c with ⟨hcode, hmoved⟩ | hsame
  · rw [Bool.eq_iff_iff, isAlpha_iff, isAlpha_iff, hmoved]
    omega
  · rw [hsame]

theorem toLower_toLower (c : Char) : c.toLower.toLower = c.toLower := by
  rcases toLower_cases c with ⟨hcode, hmoved⟩ | hsame
  · rcases toLower_cases c.toLower with ⟨hcode', -⟩ | hsame
    · omega
    · exact hsame
  · rw [hsame, hsame]

theorem toLower_eq_iff (hd : d.isAlpha = false) : c.toLower = d ↔ c = d := by
  rcases hc : c.isAlpha with _ | _
  · rw [toLower_of_not_isAlpha hc]
  · refine iff_of_false (fun h => ?_) fun h => ?_
    · rw [← h, isAlpha_toLower, hc] at hd
      cases hd
    · rw [← h, hc] at hd
      cases hd

theorem utf8Size_of_isAlpha (h : c.isAlpha = true) : c.utf8Size = 1 := by
  have hcode := isAlpha_iff.1 h
  rw [Char.utf8Size_eq_one_iff, UInt32.le_iff_toNat_le]
  show c.toNat ≤ 127
  omega

theorem utf8Size_toLower (c : Char) : c.toLower.utf8Size = c.utf8Size := by
  rcases hc : c.isAlpha with _ | _
  · rw [toLower_of_not_isAlpha hc]
  · rw [utf8Size_of_isAlpha hc, utf8Size_of_isAlpha (by rw [isAlpha_toLower, hc])]

theorem isBlank_of_toNat (hfirst : 0x20 < c.toNat) (hlast : c.toNat < 0x85) :
    isBlank c = false := by
  simp only [isBlank, Bool.or_eq_false_iff, Bool.and_eq_false_iff, decide_eq_false_iff_not,
    beq_eq_false_iff_ne]
  omega

theorem isBlank_of_isAlpha (h : c.isAlpha) : isBlank c = false := by
  have hcode := isAlpha_iff.1 h
  exact isBlank_of_toNat (by omega) (by omega)

theorem isBlank_of_isDigit (h : c.isDigit) : isBlank c = false := by
  have hcode := isDigit_iff.1 h
  exact isBlank_of_toNat (by omega) (by omega)

theorem trim_eq_empty_iff : trim text = "" ↔ ∀ c ∈ text.toList, isBlank c := by
  have hskip : ∀ cs, skipBlanks cs = [] ↔ ∀ c ∈ cs, isBlank c :=
    fun cs => List.dropWhile_eq_nil_iff
  have htrim : trim text = "" ↔ skipBlanks (skipBlanks text.toList).reverse = [] := by
    simp [trim]
  rw [htrim, hskip]
  simp only [List.mem_reverse]
  -- What is left of a text without the blanks at its start does not start with one.
  rw [← hskip (skipBlanks text.toList), ← hskip text.toList, skipBlanks, skipBlanks,
    List.dropWhile_idempotent]

end Registrar.Text
