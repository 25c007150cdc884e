import Mathlib.Data.List.Nodup
import Mathlib.Data.List.Perm.Basic

/-!
# Values by keys

What is found in a list of values by keys when values of a key are taken away or replaced, and what
else is in it.
-/

namespace Registrar

variable {κ α : Type} [BEq κ] [LawfulBEq κ] {k k' : κ} {a : α}

theorem mem_of_lookup : ∀ {entries : List (κ × α)}, entries.lookup k = some a → (k, a) ∈ entries
  | (k', a') :: rest, h => by
    rw [List.lookup_cons] at h
    split at h
    · rename_i heq
      obtain rfl := eq_of_beq heq
      obtain rfl := Option.some.inj h
      exact List.mem_cons_self
    · exact List.mem_cons_of_mem _ (mem_of_lookup h)

theorem lookup_of_mem : ∀ {entries : List (κ × α)}, (entries.map Prod.fst).Nodup →
    (k, a) ∈ entries → entries.lookup k = some a
  | (k', a') :: rest, hkeys, h => by
    rw [List.map_cons, List.nodup_cons] at hkeys
    rcases List.mem_cons.1 h with heq | hrest
    · obtain ⟨rfl, rfl⟩ := Prod.mk.inj heq
      exact List.lookup_cons_self
    · have hne : k ≠ k' := by
        rintro rfl
        have hmem : k ∈ rest.map Prod.fst := List.mem_map_of_mem hrest
        exact hkeys.1 hmem
      rw [List.lookup_cons, beq_false_of_ne hne]
      exact lookup_of_mem hkeys.2 hrest

theorem lookup_filter_of_ne (hne : k ≠ k') : ∀ entries : List (κ × α),
    (entries.filter (·.1 != k')).lookup k = entries.lookup k
  | [] => rfl
  | (k'', a) :: rest => by
    have ih := lookup_filter_of_ne hne rest
    rw [List.filter_cons]
    split
    · rw [List.lookup_cons, List.lookup_cons, ih]
    · rename_i hdropped
      obtain rfl : k'' = k' := by simpa using hdropped
      rw [ih, List.lookup_cons, beq_false_of_ne hne]

theorem lookup_filter_self (k : κ) (entries : List (κ × α)) :
    (entries.filter (·.1 != k)).lookup k = none := by
  rcases hfound : (entries.filter (·.1 != k)).lookup k with _ | a
  · exact hfound
  · simpa using (List.mem_filter.1 (mem_of_lookup hfound)).2

/-- A list in which no key is twice is the value found and the others. -/
theorem perm_of_lookup : ∀ {entries : List (κ × α)}, (entries.map Prod.fst).Nodup →
    entries.lookup k = some a → entries.Perm ((k, a) :: entries.filter (·.1 != k))
  | (k', a') :: rest, hkeys, h => by
    rw [List.map_cons, List.nodup_cons] at hkeys
    rw [List.lookup_cons] at h
    by_cases hk : k == k'
    · obtain rfl := eq_of_beq hk
      rw [beq_self_eq_true] at h
      obtain rfl := Option.some.inj h
      have hothers : rest.filter (·.1 != k) = rest := by
        refine List.filter_eq_self.2 fun e he => bne_iff_ne.2 fun hsame => ?_
        have hmem : e.1 ∈ rest.map Prod.fst := List.mem_map_of_mem he
        exact hkeys.1 (hsame ▸ hmem)
      rw [List.filter_cons_of_neg (by simp), hothers]
    · rw [Bool.not_eq_true] at hk
      rw [hk] at h
      have hk' : (k' != k) = true := bne_iff_ne.2 (ne_of_beq_false hk).symm
      rw [List.filter_cons, if_pos hk']
      exact ((perm_of_lookup hkeys.2 h).cons _).trans (.swap _ _ _)

/-- Another value in place of each that a key has. -/
theorem lookup_replace (k k' : κ) (b : α) : ∀ entries : List (κ × α),
    (entries.map fun e => if e.1 == k' then (k', b) else e).lookup k
      = (entries.lookup k).map fun a => if k == k' then b else a
  | [] => rfl
  | (k'', a) :: rest => by
    have ih := lookup_replace k k' b rest
    rw [List.map_cons, List.lookup_cons]
    by_cases hk : k == k''
    · obtain rfl := eq_of_beq hk
      by_cases hk' : k == k'
      · simp [eq_of_beq hk']
      · simp [hk']
    · by_cases hk' : k'' == k'
      · obtain rfl := eq_of_beq hk'
        simp only [beq_self_eq_true, if_true, List.lookup_cons, hk, ih]
      · simp only [hk', hk, Bool.false_eq_true, if_false, List.lookup_cons, ih]

theorem keys_replace (k : κ) (b : α) (entries : List (κ × α)) :
    (entries.map fun e => if e.1 == k then (k, b) else e).map Prod.fst = entries.map Prod.fst := by
  rw [List.map_map]
  refine List.map_congr_left fun e _ => ?_
  by_cases he : e.1 == k
  · simp [eq_of_beq he]
  · simp [he]

theorem filter_replace (k : κ) (b : α) : ∀ entries : List (κ × α),
    (entries.map fun e => if e.1 == k then (k, b) else e).filter (·.1 != k)
      = entries.filter (·.1 != k)
  | [] => rfl
  | e :: rest => by
    have ih := filter_replace k b rest
    rw [List.map_cons, List.filter_cons, List.filter_cons, ih]
    by_cases he : e.1 == k
    · simp [eq_of_beq he]
    · rw [if_neg he]

end Registrar
