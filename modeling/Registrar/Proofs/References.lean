import Registrar.References

/-!
# The algebra of sets of references

To point to the same object is coarser than to be equal, and a list may hold several references to
one object. What putting and dropping a reference do to a list shows in how many of its members
point to each object (`tally_append`, `tally_remove`) and in the order of those that point to others
(`keepsOthers_iff`). The laws of the two together hold each under an exact condition
(`append_remove_laws`).
-/

namespace Registrar

namespace Reference

variable {r s : Reference}

theorem sameObject_iff : r.sameObject s ↔ r.key = s.key ∧ r.uid = s.uid := by
  simp [sameObject, key]

theorem sameObject_self (r : Reference) : r.sameObject r :=
  sameObject_iff.2 ⟨rfl, rfl⟩

theorem sameObject_comm (r s : Reference) : r.sameObject s = s.sameObject r := by
  rw [Bool.eq_iff_iff, sameObject_iff, sameObject_iff, eq_comm, @eq_comm String]

theorem sameObject_congr (h : r.sameObject s) (q : Reference) :
    q.sameObject r = q.sameObject s := by
  obtain ⟨hkey, huid⟩ := sameObject_iff.1 h
  rw [Bool.eq_iff_iff, sameObject_iff, sameObject_iff, hkey, huid]

end Reference

namespace References

open Reference

variable {set edited others : List Reference} {r s : Reference}

theorem contains_congr (h : r.sameObject s) (set : List Reference) :
    contains set r = contains set s :=
  List.any_congr rfl (sameObject_congr h)

theorem append_of_contains (h : contains set r = true) : append set r = set :=
  if_pos h

theorem append_of_not_contains (h : contains set r = false) : append set r = set ++ [r] := by
  simp [append, h]

theorem append_ne_iff : append set r ≠ set ↔ contains set r = false := by
  rcases h : contains set r <;> simp [append, h]

theorem remove_eq_iff : remove set r = set ↔ contains set r = false := by
  simp [remove, contains, List.filter_eq_self]

theorem remove_ne_iff : remove set r ≠ set ↔ contains set r := by
  rw [ne_eq, remove_eq_iff, Bool.not_eq_false]

/-- How many members point to the object of a reference. -/
def tally (set : List Reference) (r : Reference) : Nat :=
  set.countP (·.sameObject r)

theorem contains_iff_tally_pos : contains set r ↔ 0 < tally set r := by
  rw [contains, List.any_eq_true, tally, List.countP_pos_iff]

theorem contains_eq_false_iff : contains set r = false ↔ tally set r = 0 := by
  rw [← Bool.not_eq_true, contains_iff_tally_pos, Nat.not_lt, Nat.le_zero]

theorem tally_append (set : List Reference) (r s : Reference) :
    tally (append set r) s = if r.sameObject s then max (tally set s) 1 else tally set s := by
  rcases hr : contains set r with _ | _
  · rw [append_of_not_contains hr, tally, List.countP_append, List.countP_singleton, ← tally]
    split
    · rename_i hsame
      rw [contains_eq_false_iff.1 (contains_congr hsame set ▸ hr)]
      rfl
    · rfl
  · rw [append_of_contains hr]
    split
    · rename_i hsame
      exact (Nat.max_eq_left (contains_iff_tally_pos.1 (contains_congr hsame set ▸ hr))).symm
    · rfl

theorem tally_remove (set : List Reference) (r s : Reference) :
    tally (remove set r) s = if r.sameObject s then 0 else tally set s := by
  rw [tally, remove, List.countP_filter]
  split
  · rename_i hsame
    refine List.countP_eq_zero.2 fun q _ => ?_
    rw [sameObject_congr hsame]
    simp
  · rename_i hsame
    refine List.countP_congr fun q _ => ?_
    have hkept (hq : q.sameObject s) : q.sameObject r = false := by
      rwa [sameObject_comm, sameObject_congr hq, ← Bool.not_eq_true]
    simpa using hkept

theorem contains_append_iff :
    contains (append set r) s ↔ contains set s ∨ r.sameObject s := by
  rw [contains_iff_tally_pos, contains_iff_tally_pos, tally_append]
  split
  · rename_i hsame
    exact iff_of_true (Nat.lt_of_lt_of_le Nat.one_pos (Nat.le_max_right _ _)) (.inr hsame)
  · rename_i hsame
    simp [hsame]

theorem contains_remove_iff :
    contains (remove set r) s ↔ contains set s ∧ r.sameObject s = false := by
  rw [contains_iff_tally_pos, contains_iff_tally_pos, tally_remove]
  split
  · rename_i hsame
    simp [hsame]
  · rename_i hsame
    simp [hsame]

theorem contains_append_self : contains (append set r) r :=
  contains_append_iff.2 (.inr (sameObject_self r))

theorem not_contains_remove_self : contains (remove set r) r = false := by
  rw [contains_eq_false_iff, tally_remove, if_pos (sameObject_self r)]

theorem contains_append_of_ne (h : r.sameObject s = false) :
    contains (append set r) s = contains set s := by
  rw [Bool.eq_iff_iff, contains_append_iff]
  simp [h]

theorem contains_remove_of_ne (h : r.sameObject s = false) :
    contains (remove set r) s = contains set s := by
  rw [Bool.eq_iff_iff, contains_remove_iff]
  simp [h]

/-- A reference is put only as the first to its object. -/
theorem tally_append_le : tally (append set r) s ≤ max (tally set s) 1 := by
  rw [tally_append]
  split
  · exact Nat.le_refl _
  · exact Nat.le_max_left _ _

theorem tally_remove_le : tally (remove set r) s ≤ tally set s := by
  rw [tally_remove]
  split
  · exact Nat.zero_le _
  · exact Nat.le_refl _

theorem remove_remove_self : remove (remove set r) r = remove set r :=
  remove_eq_iff.2 not_contains_remove_self

theorem remove_append_self : remove (append set r) r = remove set r := by
  rcases hr : contains set r with _ | _
  · simp [append_of_not_contains hr, remove, sameObject_self]
  · rw [append_of_contains hr]

theorem remove_append_eq_iff : remove (append set r) r = set ↔ contains set r = false := by
  rw [remove_append_self, remove_eq_iff]

theorem remove_append_of_ne (h : r.sameObject s = false) :
    remove (append set s) r = append (remove set r) s := by
  rcases hs : contains set s with _ | _
  · have hs' : contains (remove set r) s = false := (contains_remove_of_ne h).trans hs
    rw [append_of_not_contains hs, append_of_not_contains hs', remove, List.filter_append, ← remove]
    simp [sameObject_comm s r, h]
  · have hs' : contains (remove set r) s = true := (contains_remove_of_ne h).trans hs
    rw [append_of_contains hs, append_of_contains hs']

theorem remove_append_comm_iff :
    remove (append set s) r = append (remove set r) s ↔ r.sameObject s = false := by
  refine ⟨fun h => ?_, remove_append_of_ne⟩
  have hs : contains (remove (append set s) r) s := h ▸ contains_append_self
  exact (contains_remove_iff.1 hs).2

theorem append_append_of_contains (h : contains set r = true) :
    append (append set r) s = append (append set s) r := by
  rw [append_of_contains h, append_of_contains (contains_append_iff.2 (.inl h))]

theorem append_append_perm (h : r.sameObject s = false) :
    (append (append set r) s).Perm (append (append set s) r) := by
  rcases hr : contains set r with _ | _
  · rcases hs : contains set s with _ | _
    · have hs' : contains (append set r) s = false := (contains_append_of_ne h).trans hs
      have hr' : contains (append set s) r = false :=
        (contains_append_of_ne (sameObject_comm s r ▸ h)).trans hr
      rw [append_of_not_contains hs', append_of_not_contains hr', append_of_not_contains hr,
        append_of_not_contains hs, List.append_assoc, List.append_assoc]
      exact (List.Perm.swap s r []).append_left set
    · exact .of_eq (append_append_of_contains hs).symm
  · exact .of_eq (append_append_of_contains hr)

/-- Of two references to one object, whichever is put first keeps the other out. -/
theorem append_append_perm_iff : (append (append set r) s).Perm (append (append set s) r) ↔
    r.sameObject s = false ∨ r = s ∨ contains set r := by
  constructor
  · intro hperm
    rcases hsame : r.sameObject s with _ | _
    · exact .inl rfl
    rcases hr : contains set r with _ | _
    · -- The lists differ in the last reference only, and have to be permutations of each other.
      have hs : contains set s = false := contains_congr hsame set ▸ hr
      have hrs : contains (append set r) s := contains_append_iff.2 (.inr hsame)
      have hsr : contains (append set s) r :=
        contains_append_iff.2 (.inr (sameObject_comm s r ▸ hsame))
      rw [append_of_contains hrs, append_of_contains hsr, append_of_not_contains hr,
        append_of_not_contains hs, List.perm_append_left_iff,
        List.singleton_perm_singleton] at hperm
      exact .inr (.inl hperm)
    · exact .inr (.inr rfl)
  · rintro (hne | rfl | hr)
    · exact append_append_perm hne
    · exact .refl _
    · exact .of_eq (append_append_of_contains hr)

/-- The members that point to other objects are the same in the same order: those that come one
after another in one list do so in the other. -/
def KeepsOthers (r : Reference) (set edited : List Reference) : Prop :=
  ∀ others : List Reference, (∀ q ∈ others, q.sameObject r = false) →
    (others.Sublist edited ↔ others.Sublist set)

theorem prefix_append : set <+: append set r := by
  rw [append]
  split
  · exact List.prefix_rfl
  · exact List.prefix_append set [r]

theorem mem_remove_iff {q : Reference} :
    q ∈ remove set r ↔ q ∈ set ∧ q.sameObject r = false := by
  simp [remove]

theorem sublist_remove_iff : others.Sublist (remove set r) ↔
    others.Sublist set ∧ ∀ q ∈ others, q.sameObject r = false := by
  constructor
  · intro h
    exact ⟨h.trans List.filter_sublist, fun q hq => (mem_remove_iff.1 (h.subset hq)).2⟩
  · rintro ⟨h, hothers⟩
    have hkept : others.filter (fun q => !q.sameObject r) = others :=
      List.filter_eq_self.2 fun q hq => by simp [hothers q hq]
    exact hkept ▸ h.filter _

theorem KeepsOthers.symm (h : KeepsOthers r set edited) : KeepsOthers r edited set :=
  fun others hothers => (h others hothers).symm

theorem KeepsOthers.sublist (h : KeepsOthers r set edited) :
    (remove edited r).Sublist (remove set r) := by
  have hothers : ∀ q ∈ remove edited r, q.sameObject r = false :=
    fun _ hq => (mem_remove_iff.1 hq).2
  exact sublist_remove_iff.2 ⟨(h _ hothers).1 List.filter_sublist, hothers⟩

theorem keepsOthers_iff : KeepsOthers r set edited ↔ remove edited r = remove set r := by
  constructor
  · intro h
    exact h.sublist.eq_of_length_le h.symm.sublist.length_le
  · intro h others hothers
    have hremove (list : List Reference) :
        others.Sublist list ↔ others.Sublist (remove list r) := by
      rw [sublist_remove_iff, and_iff_left hothers]
    rw [hremove edited, h, ← hremove set]

/-- Putting and dropping references are the operations of a set of objects: which objects are in it
then, just when they commute, and just when dropping undoes putting. The other members keep their
order, and no object gets a second member. -/
theorem append_remove_laws (set : List Reference) (r s : Reference) :
    (contains (append set r) s ↔ contains set s ∨ r.sameObject s) ∧
    (contains (remove set r) s ↔ contains set s ∧ r.sameObject s = false) ∧
    (remove (append set s) r = append (remove set r) s ↔ r.sameObject s = false) ∧
    ((append (append set r) s).Perm (append (append set s) r) ↔
      r.sameObject s = false ∨ r = s ∨ contains set r) ∧
    (remove (append set r) r = set ↔ contains set r = false) ∧
    (set <+: append set r ∧ KeepsOthers r set (append set r) ∧ KeepsOthers r set (remove set r)) ∧
    tally (append set r) s ≤ max (tally set s) 1 ∧ tally (remove set r) s ≤ tally set s := by
  have hput : KeepsOthers r set (append set r) := keepsOthers_iff.2 remove_append_self
  have hdropped : KeepsOthers r set (remove set r) := keepsOthers_iff.2 remove_remove_self
  exact ⟨contains_append_iff, contains_remove_iff, remove_append_comm_iff, append_append_perm_iff,
    remove_append_eq_iff, ⟨prefix_append, hput, hdropped⟩, tally_append_le, tally_remove_le⟩

-- They point to one object but differ in the kind.
example : append (append [] { kind := "A", name := "app" }) { kind := "B", name := "app" }
    = [{ kind := "A", name := "app" }] := by decide

end References

end Registrar
