import Registrar.Binding
import Registrar.Proofs.Passes.Terms
import Registrar.Proofs.References

/-!
# Binding among others

However the others go on, a registration that is bound writes its domain's list only by putting its
own reference behind the references stored right before, and is bound without an error only when it
is then listed (`meets_register`). One that is released only takes its own reference out, and is
released without an error only when it is then no longer listed (`meets_unregister`).
-/

namespace Registrar

open Resource Store

/-- The terms allow a pass that knows `P` one edit of the list of a domain. -/
structure Terms.Allows (t : Terms) (key : Key) (edit : List Reference → List Reference)
    (P : Moment → Prop) : Prop where
  stable : ∀ m n, P m → t.others m n → P n
  write : ∀ m s, P m → t.inv m.store → m.store.Relisted key (edit (m.store.listed key)) s →
    edit (m.store.listed key) ≠ m.store.listed key →
      t.inv s ∧ t.own m (m.next s) ∧ P (m.next s)
  missing : ∀ e s, t.mayFail (.get Domain key) e s → e.isNotFound → s.find? Domain key = none

namespace Binding

variable {t : Terms} {key : Key} {r : Reference} {P : Moment → Prop} {m n : Moment} {d : Domain}
  {edit : List Reference → List Reference}

theorem allows_idle (h : t.Allows key edit P) (hm : P m) : P m.idle :=
  h.stable m m.idle hm (t.others_idle m)

theorem meets_tryWrite (h : t.Allows key edit P) (hm : P m) (hkey : Resource.key d = key)
    (hd : m.store.find? Domain key = some d)
    (hne : edit d.spec.registrations ≠ d.spec.registrations) :
    (tryWrite key d (edit d.spec.registrations)).Meets t (fun answer n => P n ∧
      ∀ stored, answer = .ok (some stored) →
        stored.spec.registrations = edit d.spec.registrations ∧
        n.store.listed key = edit d.spec.registrations) m := by
  refine Pass.meets_bind (Pass.meets_ask fun n hn hinv hlimit => ?_)
  have hn' := h.stable m n hm hn
  have hrefused : ∀ e : StoreError, Pass.Meets t (fun answer n => P n ∧ ∀ stored,
      answer = .ok (some stored) → stored.spec.registrations = edit d.spec.registrations ∧
        n.store.listed key = edit d.spec.registrations)
      (if e.isConflict then pure none
        else throw (.ofStore e s!"Patching domain {key}") : Pass (Option Domain)) n.idle := by
    intro e
    split
    · exact ⟨allows_idle h hn', by simp⟩
    · exact ⟨allows_idle h hn', by simp⟩
  refine ⟨fun now answer s hs => ?_, fun e _ => hrefused e⟩
  obtain ⟨e, hp⟩ | ⟨hf, s', hp, hrelisted⟩ :=
      (t.follows m n hn).patch_listing hlimit (t.sound _ hinv) hd hkey hne <;>
    simp only [perform, hp, Prod.mk.injEq] at hs <;> obtain ⟨rfl, rfl⟩ := hs
  · exact ⟨hinv, t.own_idle n, hrefused e⟩
  · have hlisted := listed_of_find? hf
    obtain ⟨hinv', hown, hP⟩ := h.write n s' hn' hinv (hlisted ▸ hrelisted) (hlisted ▸ hne)
    refine ⟨hinv', hown, hP, fun stored hstored => ?_⟩
    obtain rfl : relisted d (edit d.spec.registrations) = stored := by simpa using hstored
    exact ⟨rfl, hrelisted.listed_eq⟩

theorem meets_createDomain {hostname : String}
    (h : t.Allows { name := hostname } (References.append · r) P) (hm : P m) (context : String) :
    Pass.Meets t (fun answer n => P n ∧
      (answer = .ok (some ()) → References.contains (n.store.listed { name := hostname }) r))
      (do
        let _ ← Pass.require (.create { Domain.named hostname with spec.registrations := [r] })
          context
        return some ()) m := by
  refine Pass.meets_bind (Pass.meets_require fun n hn hinv _ => ?_)
  have hP := h.stable m n hm hn
  refine ⟨fun now answer s hs => ?_, fun e _ => ⟨allows_idle h hP, by simp⟩⟩
  obtain ⟨e, hc⟩ | ⟨new, s', hc, -, hnone, hrelisted⟩ :=
      create_listing n.store now hostname [r] <;>
    simp only [perform, hc, Prod.mk.injEq] at hs <;> obtain ⟨rfl, rfl⟩ := hs
  · exact ⟨hinv, t.own_idle n, allows_idle h hP, by simp⟩
  · have hlisted := listed_of_none hnone
    have happend : References.append (n.store.listed { name := hostname }) r = [r] := by
      simp [hlisted, References.append, References.contains]
    have hne : References.append (n.store.listed { name := hostname }) r
        ≠ n.store.listed { name := hostname } := by
      rw [happend, hlisted]
      exact List.cons_ne_nil r []
    obtain ⟨hinv', hown, hP'⟩ := h.write n s' hP hinv (by rwa [happend]) hne
    refine ⟨hinv', hown, hP', fun _ => ?_⟩
    rw [Moment.next, hrelisted.listed_eq]
    simp [References.contains, Reference.sameObject_self]

theorem meets_tryRegister {hostname : String}
    (h : t.Allows { name := hostname } (References.append · r) P) (hm : P m) :
    (tryRegister { name := hostname } r).Meets t (fun answer n => P n ∧
      (answer = .ok (some ()) →
        References.contains (n.store.listed { name := hostname }) r)) m := by
  refine Pass.meets_bind (Pass.meets_get (fun s hs => (t.sound s hs).domain)
    fun n hn hinv hlimit => ?_)
  have hn' := h.stable m n hm hn
  have hfailed : ∀ e : StoreError, Pass.Meets t (fun answer n => P n ∧
      (answer = .ok (some ()) → References.contains (n.store.listed { name := hostname }) r))
      (throw (.ofStore e s!"Reading domain {({ name := hostname } : Key)}")) n.idle :=
    fun e => ⟨allows_idle h hn', by simp⟩
  have hcreate := meets_createDomain h (allows_idle h hn')
    s!"Creating domain {({ name := hostname } : Key)}"
  refine ⟨fun d hd => ?_, fun hnone => hcreate, fun e _ => ?_⟩
  · change Pass.Meets t _ (if References.contains d.spec.registrations r then pure (some ())
      else tryWrite { name := hostname } d (References.append d.spec.registrations r) >>=
        fun stored => pure (stored.map fun _ => ())) n.idle
    have hlisted := listed_of_find? hd
    split
    · rename_i hcontains
      exact ⟨allows_idle h hn', fun _ => by rwa [Moment.idle, Moment.next, hlisted]⟩
    · rename_i hcontains
      have habsent : References.contains d.spec.registrations r = false := by simpa using hcontains
      refine Pass.meets_bind (Program.Meets.mono ?_ (meets_tryWrite h (m := n.idle)
        (allows_idle h hn') ((t.sound _ hinv).domain.proper hd).key_eq hd
        (References.append_ne_iff.2 habsent)))
      rintro (e | stored) n' ⟨hP, hstored⟩
      · exact ⟨hP, by simp⟩
      · refine ⟨hP, fun hsome => ?_⟩
        rcases stored with _ | stored
        · simp at hsome
        · rw [(hstored stored rfl).2]
          exact References.contains_append_self
  · change Pass.Meets t _ (if e.isNotFound then _ else _) n.idle
    split
    · exact hcreate
    · exact hfailed e

theorem meets_tryUnregister (h : t.Allows key (References.remove · r) P) (hm : P m) :
    (tryUnregister key r).Meets t (fun answer n => P n ∧ ∀ bound, answer = .ok (some bound) →
      bound = false ∧ References.contains (n.store.listed key) r = false) m := by
  refine Pass.meets_bind (Pass.meets_get (fun s hs => (t.sound s hs).domain)
    fun n hn hinv hlimit => ?_)
  have hn' := allows_idle h (h.stable m n hm hn)
  have hmissing : n.store.find? Domain key = none → P n.idle ∧ ∀ bound,
      (Except.ok (some false) : Except PassError (Option Bool)) = .ok (some bound) →
      bound = false ∧ References.contains (n.idle.store.listed key) r = false := by
    intro hnone
    refine ⟨hn', fun bound hb => ⟨by simpa using hb.symm, ?_⟩⟩
    rw [Moment.idle, Moment.next, listed_of_none hnone]
    rfl
  refine ⟨fun d hd => ?_, fun hnone => hmissing hnone, fun e he => ?_⟩
  · change Pass.Meets t _ (if !References.contains d.spec.registrations r then pure (some false)
      else tryWrite key d (References.remove d.spec.registrations r) >>= fun stored =>
        pure (stored.map fun d => References.contains d.spec.registrations r)) n.idle
    have hlisted := listed_of_find? hd
    split
    · rename_i habsent
      refine ⟨hn', fun bound hb => ⟨by simpa using hb.symm, ?_⟩⟩
      rw [Moment.idle, Moment.next, hlisted]
      simpa using habsent
    · rename_i hcontains
      have hcontains : References.contains d.spec.registrations r := by simpa using hcontains
      refine Pass.meets_bind (Program.Meets.mono ?_ (meets_tryWrite h (m := n.idle) hn'
        ((t.sound _ hinv).domain.proper hd).key_eq hd (References.remove_ne_iff.2 hcontains)))
      rintro (e | stored) n' ⟨hP, hstored⟩
      · exact ⟨hP, by simp⟩
      · refine ⟨hP, fun bound hb => ?_⟩
        rcases stored with _ | stored
        · simp at hb
        · obtain ⟨hregistrations, hlisted'⟩ := hstored stored rfl
          obtain rfl : References.contains stored.spec.registrations r = bound := by simpa using hb
          rw [hregistrations, hlisted']
          exact ⟨References.not_contains_remove_self, References.not_contains_remove_self⟩
  · change Pass.Meets t _ (if e.isNotFound then _ else _) n.idle
    split
    · rename_i hnotFound
      exact hmissing (h.missing e _ he hnotFound)
    · exact ⟨hn', by simp⟩

theorem meets_retrying {α : Type} {attempts : Nat} {attempt : Pass (Option α)}
    {post : Except PassError α → Moment → Prop}
    (hattempt : ∀ m, P m → attempt.Meets t (fun
      | .ok (some a), n => post (.ok a) n
      | .ok none, n => P n
      | .error e, n => post (.error e) n) m)
    (hpost : ∀ e m, P m → post (.error e) m) :
    ∀ (left : Nat) {m : Moment}, P m → (retrying key attempts attempt left).Meets t post m
  | 0, m, hm => hpost _ m hm
  | left + 1, m, hm => by
    refine Pass.meets_bind (Program.Meets.mono ?_ (hattempt m hm))
    rintro (e | _ | a) n hn
    · exact hn
    · exact meets_retrying hattempt hpost left hn
    · exact hn

variable {registration : Registration} {attempts : Nat}

/-- A registration that is bound without an error is listed at the moment after the last call. -/
theorem meets_register
    (h : t.Allows (domainKey registration) (References.append · (reference registration)) P)
    (hm : P m) :
    (register registration attempts).Meets t (fun answer n => P n ∧ (answer = .ok () →
      References.contains (n.store.listed (domainKey registration)) (reference registration)))
      m := by
  refine meets_retrying (P := P) (fun m hm => Program.Meets.mono ?_ (meets_tryRegister h hm))
    (fun _ m hm => ⟨hm, by simp⟩) _ hm
  rintro (e | _ | ⟨⟩) n ⟨hP, hlisted⟩
  · exact ⟨hP, by simp⟩
  · exact hP
  · exact ⟨hP, fun _ => hlisted rfl⟩

/-- A registration that is released without an error is told to be no longer bound, and is not
listed at the moment after the last call. -/
theorem meets_unregister
    (h : t.Allows (domainKey registration) (References.remove · (reference registration)) P)
    (hm : P m) : (unregister registration attempts).Meets t (fun answer n => P n ∧ ∀ bound,
      answer = .ok bound → bound = false ∧
        References.contains (n.store.listed (domainKey registration)) (reference registration)
          = false) m := by
  refine meets_retrying (P := P) (fun m hm => Program.Meets.mono ?_ (meets_tryUnregister h hm))
    (fun _ m hm => ⟨hm, by simp⟩) _ hm
  rintro (e | _ | bound) n ⟨hP, hlisted⟩
  · exact ⟨hP, by simp⟩
  · exact hP
  · refine ⟨hP, fun b hb => ?_⟩
    obtain rfl : bound = b := by simpa using hb
    exact hlisted bound rfl

end Binding

end Registrar
