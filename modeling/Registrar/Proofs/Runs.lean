/-!
# Runs

What happens on a run from state to state, move by move.
-/

namespace Registrar

universe u v

variable {σ : Type u} {μ : Type v}

/-- Something holds, on a run, of a move and the state before it. -/
def HappensIn (step : σ → μ → σ) (event : σ → μ → Prop) (s : σ) (moves : List μ) : Prop :=
  ∃ front move back, moves = front ++ move :: back ∧ event (front.foldl step s) move

variable {step : σ → μ → σ} {event : σ → μ → Prop} {s : σ} {move : μ} {moves : List μ}

@[simp] theorem not_happensIn_nil : ¬HappensIn step event s [] := by
  rintro ⟨front, move, back, h, -⟩
  simp at h

theorem happensIn_cons : HappensIn step event s (move :: moves) ↔
    event s move ∨ HappensIn step event (step s move) moves := by
  constructor
  · rintro ⟨_ | ⟨first, front⟩, move', back, hmoves, hevent⟩
    · obtain ⟨rfl, rfl⟩ := List.cons.inj hmoves
      exact .inl hevent
    · obtain ⟨rfl, rfl⟩ := List.cons.inj hmoves
      exact .inr ⟨front, move', back, rfl, hevent⟩
  · rintro (hevent | ⟨front, move', back, rfl, hevent⟩)
    · exact ⟨[], move, moves, rfl, hevent⟩
    · exact ⟨move :: front, move', back, rfl, hevent⟩

end Registrar
