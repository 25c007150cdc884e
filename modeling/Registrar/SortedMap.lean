/-!
# Sorted maps

A finite map as the list of its entries in strictly ascending order of the keys. The order belongs
to the type, so listing a map needs no further sorting and two maps with the same lookups are equal.
-/

namespace Registrar

universe u v

variable {κ : Type u} {α : Type v} [Ord κ]

def lookupEntry (k : κ) : List (κ × α) → Option α
  | [] => none
  | (k', a) :: rest => if compare k k' = .eq then some a else lookupEntry k rest

/-- Files a value before the first larger key, in place of what the key held. -/
def insertEntry (k : κ) (a : α) : List (κ × α) → List (κ × α)
  | [] => [(k, a)]
  | (k', a') :: rest =>
    match compare k k' with
    | .lt => (k, a) :: (k', a') :: rest
    | .eq => (k, a) :: rest
    | .gt => (k', a') :: insertEntry k a rest

def eraseEntry (k : κ) (entries : List (κ × α)) : List (κ × α) :=
  entries.filter (fun e => compare k e.1 != .eq)

/-- The keys ascend, none twice. -/
def Ascending (entries : List (κ × α)) : Prop :=
  entries.Pairwise (fun a b => compare a.1 b.1 = .lt)

section Entries

theorem mem_of_mem_insertEntry {k : κ} {a : α} {e : κ × α} {entries : List (κ × α)}
    (h : e ∈ insertEntry k a entries) : e = (k, a) ∨ e ∈ entries := by
  induction entries with
  | nil => exact .inl (by simpa [insertEntry] using h)
  | cons hd tl ih =>
    rw [insertEntry] at h
    split at h
    · rcases List.mem_cons.1 h with h | h
      · exact .inl h
      · exact .inr h
    · rcases List.mem_cons.1 h with h | h
      · exact .inl h
      · exact .inr (List.mem_cons_of_mem _ h)
    · rcases List.mem_cons.1 h with h | h
      · exact .inr (h ▸ List.mem_cons_self)
      · exact (ih h).imp_right (List.mem_cons_of_mem _)

theorem Ascending.nil : Ascending ([] : List (κ × α)) :=
  List.Pairwise.nil

theorem Ascending.eraseEntry (k : κ) {entries : List (κ × α)} (h : Ascending entries) :
    Ascending (eraseEntry k entries) :=
  List.Pairwise.filter _ h

variable [Std.TransOrd κ] [Std.LawfulEqOrd κ]

theorem Ascending.insertEntry (k : κ) (a : α) {entries : List (κ × α)} (h : Ascending entries) :
    Ascending (insertEntry k a entries) := by
  induction entries with
  | nil => simp [Registrar.insertEntry, Ascending]
  | cons hd tl ih =>
    obtain ⟨first, rest⟩ := List.pairwise_cons.1 h
    rw [Registrar.insertEntry]
    split
    · rename_i hlt
      refine List.pairwise_cons.2 ⟨fun e he => ?_, h⟩
      rcases List.mem_cons.1 he with rfl | he
      · exact hlt
      · exact Std.TransCmp.lt_trans hlt (first e he)
    · rename_i heq
      have hk := Std.LawfulEqCmp.eq_of_compare heq
      exact List.pairwise_cons.2 ⟨fun e he => hk ▸ first e he, rest⟩
    · rename_i hgt
      refine List.pairwise_cons.2 ⟨fun e he => ?_, ih rest⟩
      rcases mem_of_mem_insertEntry he with rfl | he
      · exact Std.OrientedCmp.gt_iff_lt.1 hgt
      · exact first e he

omit [Std.TransOrd κ] in
theorem lookupEntry_insertEntry (k k' : κ) (a : α) (entries : List (κ × α)) :
    lookupEntry k' (insertEntry k a entries)
      = if compare k' k = .eq then some a else lookupEntry k' entries := by
  induction entries with
  | nil => simp [insertEntry, lookupEntry]
  | cons hd tl ih =>
    obtain ⟨k₀, a₀⟩ := hd
    rw [insertEntry]
    split
    · rfl
    · rename_i heq
      have hk := Std.LawfulEqCmp.eq_of_compare heq
      subst hk
      simp only [lookupEntry]
      split <;> rfl
    · rename_i hgt
      simp only [lookupEntry, ih]
      by_cases h₀ : compare k' k₀ = .eq
      · have := Std.LawfulEqCmp.eq_of_compare h₀
        subst this
        have hne : compare k' k ≠ .eq := by
          intro he
          have := Std.LawfulEqCmp.eq_of_compare he
          subst this
          simp [Std.compare_self] at hgt
        simp [hne]
      · simp [h₀]

omit [Std.TransOrd κ] in
theorem lookupEntry_eraseEntry (k k' : κ) (entries : List (κ × α)) :
    lookupEntry k' (eraseEntry k entries)
      = if compare k' k = .eq then none else lookupEntry k' entries := by
  induction entries with
  | nil => simp [eraseEntry, lookupEntry]
  | cons hd tl ih =>
    obtain ⟨k₀, a₀⟩ := hd
    simp only [eraseEntry, List.filter_cons] at ih ⊢
    by_cases h₀ : compare k k₀ = .eq
    · have := Std.LawfulEqCmp.eq_of_compare h₀
      subst this
      simp only [Std.compare_self, bne_self_eq_false, Bool.false_eq_true, if_false, ih]
      by_cases h : compare k' k = .eq <;> simp [lookupEntry, h]
    · have : (compare k k₀ != .eq) = true := by simpa using h₀
      simp only [this, if_true, lookupEntry, ih]
      by_cases h : compare k' k₀ = .eq
      · have := Std.LawfulEqCmp.eq_of_compare h
        subst this
        have hne : compare k' k ≠ .eq := by
          intro he
          have := Std.LawfulEqCmp.eq_of_compare he
          subst this
          exact h₀ h
        simp [hne]
      · simp [h]

omit [Std.LawfulEqOrd κ] in
theorem lookupEntry_of_mem {k : κ} {a : α} : ∀ {entries : List (κ × α)}, Ascending entries →
    (k, a) ∈ entries → lookupEntry k entries = some a
  | (k', a') :: rest, h, hm => by
    obtain ⟨first, hrest⟩ := List.pairwise_cons.1 h
    rcases List.mem_cons.1 hm with heq | hm
    · obtain ⟨rfl, rfl⟩ := Prod.mk.inj heq
      simp [lookupEntry]
    · have hlt := first _ hm
      rw [lookupEntry, if_neg fun he => ?_, lookupEntry_of_mem hrest hm]
      rw [@Std.OrientedCmp.eq_swap _ compare, he] at hlt
      simp at hlt

omit [Std.TransOrd κ] in
theorem mem_of_lookupEntry {k : κ} {a : α} : ∀ {entries : List (κ × α)},
    lookupEntry k entries = some a → (k, a) ∈ entries
  | (k', a') :: rest, h => by
    rw [lookupEntry] at h
    split at h
    · rename_i heq
      obtain rfl := Std.LawfulEqCmp.eq_of_compare heq
      obtain rfl := Option.some.inj h
      exact List.mem_cons_self
    · exact List.mem_cons_of_mem _ (mem_of_lookupEntry h)

omit [Std.TransOrd κ] [Std.LawfulEqOrd κ] in
theorem length_insertEntry {k : κ} (a : α) : ∀ {entries : List (κ × α)},
    lookupEntry k entries = none → (insertEntry k a entries).length = entries.length + 1
  | [], _ => rfl
  | (k', a') :: rest, h => by
    rw [lookupEntry] at h
    rw [insertEntry]
    split
    · rfl
    · rename_i heq
      rw [if_pos heq] at h
      cases h
    · rename_i hgt
      rw [if_neg (by rw [hgt]; exact Ordering.noConfusion)] at h
      rw [List.length_cons, length_insertEntry a h, List.length_cons]

end Entries

/-- Entries listed in strictly ascending order of their keys. -/
structure SortedMap (κ : Type u) (α : Type v) [Ord κ] where
  entries : List (κ × α)
  ascending : Ascending entries

namespace SortedMap

def empty : SortedMap κ α :=
  ⟨[], .nil⟩

instance : Inhabited (SortedMap κ α) :=
  ⟨empty⟩

def get? (m : SortedMap κ α) (k : κ) : Option α :=
  lookupEntry k m.entries

def erase (m : SortedMap κ α) (k : κ) : SortedMap κ α :=
  ⟨eraseEntry k m.entries, m.ascending.eraseEntry k⟩

variable [Std.TransOrd κ] [Std.LawfulEqOrd κ]

def insert (m : SortedMap κ α) (k : κ) (a : α) : SortedMap κ α :=
  ⟨insertEntry k a m.entries, m.ascending.insertEntry k a⟩

omit [Std.TransOrd κ] [Std.LawfulEqOrd κ] in
@[simp] theorem get?_empty (k : κ) : (empty : SortedMap κ α).get? k = none :=
  rfl

theorem get?_insert (m : SortedMap κ α) (k k' : κ) (a : α) :
    (m.insert k a).get? k' = if compare k' k = .eq then some a else m.get? k' :=
  lookupEntry_insertEntry k k' a m.entries

omit [Std.TransOrd κ] in
theorem get?_erase (m : SortedMap κ α) (k k' : κ) :
    (m.erase k).get? k' = if compare k' k = .eq then none else m.get? k' :=
  lookupEntry_eraseEntry k k' m.entries

end SortedMap

end Registrar
