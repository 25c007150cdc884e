import Registrar.Proofs.Bus.Receivers
import Registrar.Proofs.Passes.Port
import Registrar.Proofs.Store.Replay

/-!
# What is left to read

Every change of a registration is told on the bus, by an event that concerns its key
(`concerns_of_changed`). While a receiver listens to each kind, what is told is for one of them to
read (`Listening.publish`), and it stays so whatever requests are served and whatever others do on
the bus (`Goes`).
-/

namespace Registrar

open Resource Parts

/-- An event is of the registration of a key, or of a domain that lists it. -/
inductive Concerns (key : Key) : String × WatchEvent Json → Prop
  | registration {event : WatchEvent Registration} (key_eq : Resource.key event.object = key) :
      Concerns key (kind Registration, event.map Cluster.wire)
  | domain {event : WatchEvent Domain}
      (listed : ∃ r ∈ event.object.spec.registrations, r.key = key) :
      Concerns key (kind Domain, event.map Cluster.wire)

variable {key : Key}

theorem Concerns.called {e : String × WatchEvent Json} (h : Concerns key e) :
    key ∈ Controller.calledFor e := by
  cases h with
  | @registration event key_eq =>
    rw [Controller.calledFor_registration, key_eq]
    exact List.mem_singleton.2 rfl
  | domain listed =>
    rw [Controller.calledFor_domain]
    exact List.mem_map.2 listed

theorem Concerns.called_registration {e : WatchEvent Json}
    (h : Concerns key (kind Registration, e)) :
    key ∈ Controller.eventKeys (fun r : Registration => [Resource.key r]) e := by
  simpa [Controller.calledFor] using h.called

theorem Concerns.called_domain {e : WatchEvent Json} (h : Concerns key (kind Domain, e)) :
    key ∈ Controller.eventKeys Domain.registrationKeys e := by
  have hne : kind Domain ≠ kind Registration := by decide
  simpa [Controller.calledFor, hne] using h.called

namespace Store

theorem told_call (s : Store) (now : Time) (r : Request) :
    s.told now r.call = announced (r.outcome s now).event := by
  cases r <;> rfl

/-- What a request changes of a registration is told, and concerns its key. -/
theorem concerns_of_changed {s : Store} (h : s.Sound) (r : Request) (now : Time)
    (hchanged : (r.serve now s).find? Registration key ≠ s.find? Registration key) :
    ∃ e, s.told now r.call = some e ∧ Concerns key e := by
  rw [Request.serve_eq] at hchanged
  rw [told_call]
  have htold := r.told_outcome h now
  generalize r.outcome s now = o at htold hchanged ⊢
  generalize r.kind = k at o
  cases k with
  | registration =>
    obtain ⟨event, he, hkey⟩ := htold.event_of_changed hchanged
    exact ⟨_, by rw [he]; rfl, .registration hkey⟩
  | domain =>
    have hother : kind Registration ≠ kind Domain := by decide
    exact absurd (htold.find?_other hother key) hchanged

end Store

/-- A watch has still to read what concerns a key, or has lost events and has not been told yet. -/
def Outstanding (bus : Bus String (WatchEvent Json)) (regs doms : Nat) (key : Key) :
    Prop :=
  bus.Pending regs (fun e => Concerns key (kind Registration, e)) ∨
    bus.Pending doms (fun e => Concerns key (kind Domain, e))

/-- Two receivers listen, one to each kind. -/
structure Listening (bus : Bus String (WatchEvent Json)) (regs doms : Nat) : Prop where
  registrations : bus.Listens (kind Registration) regs
  domains : bus.Listens (kind Domain) doms
  apart : regs ≠ doms

variable {bus bus' : Bus String (WatchEvent Json)} {regs doms : Nat}

theorem Outstanding.grows (h : Outstanding bus regs doms key)
    (hgrows : ∀ id ∈ [regs, doms], Bus.Grows id bus bus') :
    Outstanding bus' regs doms key :=
  h.imp (hgrows regs (by simp)).pending (hgrows doms (by simp)).pending

theorem Listening.grows (h : Listening bus regs doms)
    (hgrows : ∀ id ∈ [regs, doms], Bus.Grows id bus bus') :
    Listening bus' regs doms where
  registrations := (hgrows regs (by simp)).listens h.registrations
  domains := (hgrows doms (by simp)).listens h.domains
  apart := h.apart

/-- What is told while both receivers listen is outstanding. -/
theorem Listening.publish {e : String × WatchEvent Json}
    (h : Listening bus regs doms) (he : Concerns key e) :
    Outstanding (bus.publish e.1 e.2).2 regs doms key := by
  cases he with
  | registration key_eq => exact .inl (Bus.pending_publish h.registrations (.registration key_eq))
  | domain listed => exact .inr (Bus.pending_publish h.domains (.domain listed))

/-- A step on a cluster that leaves some receivers alone, and what it tells. -/
structure Goes (ids : List Nat) (s s' : Cluster) (told : Option (String × WatchEvent Json)) :
    Prop where
  store : s'.store.Sound
  bus : s'.bus.Sound
  grows : ∀ id ∈ ids, Bus.Grows id s.bus s'.bus
  /-- Every change of a registration is told. -/
  changed : ∀ key, s'.store.find? Registration key ≠ s.store.find? Registration key →
    ∃ e, told = some e ∧ Concerns key e
  tells : ∀ e key regs doms, told = some e → Concerns key e →
    Listening s.bus regs doms → Outstanding s'.bus regs doms key

namespace Goes

variable {s s' : Cluster} {ids : List Nat}

theorem quiet (hs : s.store.Sound) (hb : bus.Sound)
    (hgrows : ∀ id ∈ ids, Bus.Grows id s.bus bus) (now : Time) :
    Goes ids s ⟨s.store, bus, now⟩ none where
  store := hs
  bus := hb
  grows := hgrows
  changed _ h := absurd rfl h
  tells := nofun

theorem request (hs : s.store.Sound) (hb : s.bus.Sound) (ids : List Nat) (r : Request) :
    Goes ids s (Cluster.perform r.call s).2 (s.store.told s.now r.call) := by
  rw [Cluster.perform_eq_told]
  refine ⟨r.sound_serve hs s.now, ?_, fun id _ => ?_,
    fun key => Store.concerns_of_changed hs r s.now, fun e key regs doms he hconcerns hl => ?_⟩
  · rcases s.store.told s.now r.call with _ | e
    · exact hb
    · exact hb.publish e.1 e.2
  · rcases s.store.told s.now r.call with _ | e
    · exact .refl id s.bus
    · exact Bus.grows_publish id s.bus e.1 e.2
  · rw [he]
    exact hl.publish hconcerns

end Goes

end Registrar
