import Mathlib.Tactic.Common
import Registrar.Uid

/-!
# Uids are distinct

The digits of a uid write its number in base 55, behind digits for zero up to the width, so the
number is read back from the uid (`number_nth`) and no uid is handed out twice (`nth_injective`).
-/

namespace Registrar.Uid

/-- The number that digits write, the lowest first. -/
def number : List Char → Nat
  | [] => 0
  | c :: rest => alphabet.idxOf c + 55 * number rest

theorem idxOf_alphabet : ∀ i < 55, alphabet.idxOf (alphabet.getD i '2') = i := by
  decide +kernel

theorem number_digits : ∀ {fuel n : Nat}, n < fuel → number (digits fuel n) = n
  | fuel + 1, n, h => by
    rw [digits]
    split
    · rename_i hn
      rw [hn]
      rfl
    · rw [number, idxOf_alphabet _ (Nat.mod_lt _ (by decide)), number_digits (by omega)]
      omega

theorem number_append_zeros : ∀ (cs : List Char) (k : Nat),
    number (cs ++ List.replicate k '2') = number cs
  | [], 0 => rfl
  | [], k + 1 => by
    have h : number (List.replicate k '2') = 0 := number_append_zeros [] k
    rw [List.nil_append, List.replicate_succ, number, number, h]
    decide +kernel
  | c :: cs, k => by rw [List.cons_append, number, number_append_zeros cs k, number]

theorem number_nth (n : Nat) : number (nth n).toList.reverse = n := by
  simp only [nth, String.toList_ofList, List.reverse_append, List.reverse_reverse,
    List.reverse_replicate, number_append_zeros]
  exact number_digits n.lt_succ_self

theorem nth_injective {m n : Nat} (h : nth m = nth n) : m = n := by
  rw [← number_nth m, h, number_nth]

end Registrar.Uid
