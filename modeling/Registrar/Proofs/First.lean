/-!
# The first of a list

The first element with a property is what a search for one finds, and a search for what an element
gives finds it at the first that gives something.
-/

namespace Registrar

variable {α β : Type} {P : α → Prop} {as : List α} {a : α}

/-- The first of a list with a property. -/
def First (P : α → Prop) (as : List α) (a : α) : Prop :=
  ∃ front back, as = front ++ a :: back ∧ P a ∧ ∀ b ∈ front, ¬P b

namespace First

theorem mem (h : First P as a) : a ∈ as := by
  obtain ⟨front, back, rfl, -⟩ := h
  simp

theorem holds (h : First P as a) : P a := by
  obtain ⟨-, -, -, ha, -⟩ := h
  exact ha

/-- The first of a list that begins with another element is the first of the others. -/
theorem of_cons {b : α} (h : First P (b :: as) a) : a = b ∨ ¬P b ∧ First P as a := by
  obtain ⟨front, back, heq, ha, hfront⟩ := h
  rcases front with _ | ⟨c, front⟩
  · exact .inl (List.cons.inj heq).1.symm
  · obtain ⟨rfl, rfl⟩ := List.cons.inj heq
    exact .inr ⟨hfront b List.mem_cons_self, front, back, rfl, ha, fun d hd =>
      hfront d (List.mem_cons_of_mem _ hd)⟩

end First

theorem find?_eq_some_iff_first {p : α → Bool} (hp : ∀ b, p b = true ↔ P b) :
    as.find? p = some a ↔ First P as a := by
  simp only [List.find?_eq_some_iff_append, First, hp, Bool.not_eq_true', ← Bool.not_eq_true]
  exact ⟨fun ⟨ha, front, back, heq, hfront⟩ => ⟨front, back, heq, ha, hfront⟩,
    fun ⟨front, back, heq, ha, hfront⟩ => ⟨ha, front, back, heq, hfront⟩⟩

theorem exists_first_iff : (∃ a, First P as a) ↔ ∃ a ∈ as, P a := by
  classical
  constructor
  · rintro ⟨a, h⟩
    exact ⟨a, h.mem, h.holds⟩
  · rintro ⟨a, ha, hP⟩
    have hfound : (as.find? (P ·)).isSome := List.find?_isSome.2 ⟨a, ha, by simpa using hP⟩
    obtain ⟨b, hb⟩ := Option.isSome_iff_exists.1 hfound
    exact ⟨b, (find?_eq_some_iff_first fun _ => decide_eq_true_iff).1 hb⟩

theorem findSome?_eq_some_iff_first {f : α → Option β} {b : β} :
    as.findSome? f = some b ↔ ∃ a, First (fun a => ∃ b, f a = some b) as a ∧ f a = some b := by
  rw [List.findSome?_eq_some_iff]
  constructor
  · rintro ⟨front, a, back, rfl, ha, hfront⟩
    refine ⟨a, ⟨front, back, rfl, ⟨b, ha⟩, ?_⟩, ha⟩
    rintro c hc ⟨b', hb'⟩
    rw [hfront c hc] at hb'
    cases hb'
  · rintro ⟨a, ⟨front, back, rfl, -, hfront⟩, ha⟩
    exact ⟨front, a, back, rfl, ha, fun c hc =>
      Option.eq_none_iff_forall_ne_some.2 fun b hb => hfront c hc ⟨b, hb⟩⟩

end Registrar
