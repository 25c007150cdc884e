import Mathlib.Data.Multiset.Count
import Mathlib.Data.Multiset.Filter
import Registrar.Proofs.Passes.Converge

/-!
# Stores in outline

The order in which passes come shows in a store in two ways only: in the order of each domain's
list, and in the uids of the domains that passes create. A sketch of a store leaves both out. What a
pass does to it is one change of a registration and one of its domain (`Sketch.visit`), and two
passes over different keys come to the same in either order (`Sketch.visit_comm`).
-/

namespace Registrar

open Resource Parts Store

/-- A domain without its uid, and what it lists in no order. -/
structure Outline where
  core : Domain
  references : Multiset Reference

def Domain.outline (d : Domain) : Outline where
  core := { d with metadata.uid := "", spec.registrations := [] }
  references := d.spec.registrations

namespace Outline

variable {o : Outline} {keep keep' : Bool} {r r' : Reference} {name : String} {now : Time}

def lists (o : Outline) (r : Reference) : Bool :=
  decide (0 < o.references.countP (·.sameObject r))

theorem lists_eq_true : o.lists r = true ↔ ∃ x ∈ o.references, x.sameObject r = true := by
  rw [lists, decide_eq_true_iff, Multiset.countP_pos]

theorem lists_outline (d : Domain) (r : Reference) :
    d.outline.lists r = References.contains d.spec.registrations r := by
  rw [Bool.eq_iff_iff, lists_eq_true]
  simp [Domain.outline, References.contains]

/-- The domain lists a reference, or does not, as it is to. -/
def arranged (keep : Bool) (r : Reference) (o : Outline) : Outline :=
  if o.lists r = keep then o
  else ⟨raised o.core true,
    if keep then r ::ₘ o.references else o.references.filter fun x => !x.sameObject r⟩

theorem arranged_of_eq (h : o.lists r = keep) : o.arranged keep r = o :=
  if_pos h

theorem not_sameObject_of_ne {x : Reference} (h : r.key ≠ r'.key) (hx : x.sameObject r' = true) :
    x.sameObject r = false := by
  by_contra hsame
  rw [Bool.not_eq_false] at hsame
  exact h ((key_eq_of_sameObject hsame).symm.trans (key_eq_of_sameObject hx))

theorem not_sameObject (h : r.key ≠ r'.key) : r.sameObject r' = false := by
  by_contra hsame
  rw [Bool.not_eq_false] at hsame
  exact h (key_eq_of_sameObject hsame)

theorem lists_arranged_of_ne (o : Outline) (keep : Bool) (h : r.key ≠ r'.key) :
    (o.arranged keep r).lists r' = o.lists r' := by
  unfold arranged
  split_ifs with hkeep hadd
  · rfl
  · rw [Bool.eq_iff_iff, lists_eq_true, lists_eq_true]
    simp [not_sameObject h]
  · rw [Bool.eq_iff_iff, lists_eq_true, lists_eq_true]
    refine ⟨fun ⟨x, hx, hsame⟩ => ⟨x, Multiset.mem_of_mem_filter hx, hsame⟩,
      fun ⟨x, hx, hsame⟩ => ⟨x, Multiset.mem_filter.2 ⟨hx, ?_⟩, hsame⟩⟩
    simp [not_sameObject_of_ne h hsame]

/-- Two references of other keys can be seen to in either order. -/
theorem arranged_comm (h : r.key ≠ r'.key) :
    (o.arranged keep r).arranged keep' r' = (o.arranged keep' r').arranged keep r := by
  have hlists := lists_arranged_of_ne o keep h
  have hlists' := lists_arranged_of_ne o keep' h.symm
  by_cases hkeep : o.lists r = keep
  · rw [arranged_of_eq hkeep, arranged_of_eq (hlists'.trans hkeep)]
  · by_cases hkeep' : o.lists r' = keep'
    · rw [arranged_of_eq hkeep', arranged_of_eq (hlists.trans hkeep')]
    · rw [arranged, if_neg (hlists.trans_ne hkeep'), arranged, if_neg hkeep,
        arranged, if_neg (hlists'.trans_ne hkeep), arranged, if_neg hkeep']
      refine congrArg (Outline.mk _) ?_
      rcases keep with _ | _ <;> rcases keep' with _ | _
      · exact Multiset.filter_comm _ _ _
      · exact (Multiset.filter_cons_of_pos _ (by simp [not_sameObject h.symm])).symm
      · exact Multiset.filter_cons_of_pos _ (by simp [not_sameObject h])
      · exact Multiset.cons_swap _ _ _

/-- What a pass tells of a domain whatever it lists. -/
def face (o : Outline) : String × Option String × Domain.Status :=
  (o.core.hostname, o.core.spec.verificationKey, o.core.status)

theorem face_arranged : (o.arranged keep r).face = o.face := by
  unfold arranged
  split <;> rfl

/-- A domain of the time of its creation before it lists anything, one version before its first. -/
def unborn (name : String) (now : Time) : Outline where
  core := { Domain.named name with metadata.creationTime := some now }
  references := 0

/-- A pass arranges for a reference on a domain that it may have to create. -/
def placed (keep : Bool) (r : Reference) (name : String) (now : Time) :
    Option Outline → Option Outline
  | some o => some (o.arranged keep r)
  | none =>
    if keep = true ∧ Text.trim name ≠ "" then some ((unborn name now).arranged true r) else none

theorem placed_of_blank (h : Text.trim name = "") : placed keep r name now none = none :=
  if_neg fun hplaced => hplaced.2 h

theorem placed_of_named (h : Text.trim name ≠ "") :
    placed true r name now none = some ((unborn name now).arranged true r) :=
  if_pos ⟨rfl, h⟩

theorem placed_comm (h : r.key ≠ r'.key) (o : Option Outline) :
    placed keep' r' name now (placed keep r name now o)
      = placed keep r name now (placed keep' r' name now o) := by
  rcases o with _ | o
  · have hunlisted : ∀ {r}, (unborn name now).arranged false r = unborn name now :=
      arranged_of_eq rfl
    by_cases hname : Text.trim name = ""
    · simp [placed, hname]
    · rcases keep with _ | _ <;> rcases keep' with _ | _
      · simp [placed]
      · simp [placed, hname, arranged_comm h.symm, hunlisted]
      · simp [placed, hname, arranged_comm h, hunlisted]
      · simp [placed, hname, arranged_comm h]
  · exact congrArg some (arranged_comm h)

theorem map_face_placed (o : Option Outline) :
    (placed true r name now (placed keep' r' name now o)).map face
      = (placed true r name now o).map face := by
  rcases o with _ | o
  · by_cases hname : Text.trim name = ""
    · simp [placed, hname]
    · rcases keep' with _ | _ <;> simp [placed, hname, face_arranged]
  · simp [placed, face_arranged]

end Outline

namespace Reconciler

variable {rec : Reconciler} {now : Time} {reg reg' : Registration} {o o' : Option Outline}

/-- A registration as it is stored once it has been told a status. -/
def toldOf (reg : Registration) (status : Registration.Status) : Registration :=
  if status = reg.status then reg else retold reg status

/-- What is stored of a registration that is released. -/
def departed (rec : Reconciler) (reg : Registration) : Option Registration :=
  let list := reg.metadata.finalizers.filter (· != rec.finalizer)
  if reg.metadata.hasFinalizer rec.finalizer then
    if reg.metadata.isDeleting && list.isEmpty then none else some (remarked reg list)
  else some reg

/-- Whether a pass sees to it that a registration is listed or that it is not, if it does either. -/
def wanted? (rec : Reconciler) (reg : Registration) : Option Bool :=
  if reg.metadata.isDeleting then some false
  else if reg.metadata.hasFinalizer rec.finalizer then some true
  else none

/-- What a pass over a registration makes of its domain. -/
def shaped (rec : Reconciler) (now : Time) (reg : Registration) (o : Option Outline) :
    Option Outline :=
  (rec.wanted? reg).elim o (Outline.placed · (Resource.reference reg) reg.hostname now o)

/-- What a pass makes of a registration, given what it has made of its domain. -/
def turned (rec : Reconciler) (now : Time) (reg : Registration) (o : Option Outline) :
    Option Registration :=
  match rec.wanted? reg with
  | some false => rec.departed (toldOf reg (deletingStatus reg now (.ok false)))
  | some true => some (o.elim reg fun o => toldOf reg (rec.liveStatus reg now (.ok o.core)))
  | none => some (remarked reg (reg.metadata.finalizers ++ [rec.finalizer]))

theorem shaped_comm (h : Resource.key reg ≠ Resource.key reg')
    (hname : reg'.hostname = reg.hostname) (o : Option Outline) :
    rec.shaped now reg' (rec.shaped now reg o) = rec.shaped now reg (rec.shaped now reg' o) := by
  unfold shaped
  rcases rec.wanted? reg with _ | keep <;> rcases rec.wanted? reg' with _ | keep'
  · rfl
  · rfl
  · rfl
  · rw [hname]
    exact Outline.placed_comm (by rwa [key_reference, key_reference]) o

theorem liveStatus_congr (rec : Reconciler) (now : Time) (reg : Registration) {d d' : Domain}
    (hname : d'.hostname = d.hostname) (hkey : d'.spec.verificationKey = d.spec.verificationKey)
    (hstatus : d'.status = d.status) :
    rec.liveStatus reg now (.ok d') = rec.liveStatus reg now (.ok d) := by
  rw [liveStatus, liveStatus, verdict_congr rec reg hname hkey hstatus]

theorem liveStatus_outline (rec : Reconciler) (reg : Registration) (now : Time) (d : Domain) :
    rec.liveStatus reg now (.ok d.outline.core) = rec.liveStatus reg now (.ok d) :=
  liveStatus_congr rec now reg rfl rfl rfl

theorem turned_congr (h : o.map Outline.face = o'.map Outline.face) :
    rec.turned now reg o = rec.turned now reg o' := by
  unfold turned
  rcases rec.wanted? reg with _ | _ | _
  · rfl
  · rfl
  · rcases o with _ | o <;> rcases o' with _ | o' <;> simp [Outline.face] at h
    · rfl
    · obtain ⟨hname, hkey, hstatus⟩ := h
      simp only [Option.elim_some, liveStatus_congr rec now reg hname hkey hstatus]

theorem turned_shaped_shaped (hname : reg'.hostname = reg.hostname) (o : Option Outline) :
    rec.turned now reg (rec.shaped now reg (rec.shaped now reg' o))
      = rec.turned now reg (rec.shaped now reg o) := by
  rcases hreg : rec.wanted? reg with _ | _ | _
  · simp only [turned, hreg]
  · simp only [turned, hreg]
  · refine turned_congr ?_
    rcases hreg' : rec.wanted? reg' with _ | keep'
    · simp [shaped, hreg']
    · simp only [shaped, hreg, hreg', Option.elim_some, hname]
      exact Outline.map_face_placed o

end Reconciler

/-- The registrations of a store and its domains in outline. -/
@[ext]
structure Sketch where
  registrations : Key → Option Registration
  domains : Key → Option Outline

def Store.sketch (s : Store) : Sketch where
  registrations := s.find? Registration
  domains key := (s.find? Domain key).map Domain.outline

namespace Sketch

open Reconciler

variable {rec : Reconciler} {now : Time} {S : Sketch} {key key' : Key} {reg reg' : Registration}

/-- The sketch with this registration under a key, or with none. -/
def enter (S : Sketch) (key : Key) (o : Option Registration) : Sketch :=
  { S with registrations := Function.update S.registrations key o }

/-- The sketch with this domain under a key, or with none. -/
def shape (S : Sketch) (key : Key) (o : Option Outline) : Sketch :=
  { S with domains := Function.update S.domains key o }

section Entries

variable {o o' : Option Registration} {p : Option Outline}

theorem registrations_enter_self : (S.enter key o).registrations key = o := by
  simp [enter]

theorem registrations_enter_of_ne (h : key' ≠ key) :
    (S.enter key o).registrations key' = S.registrations key' := by
  simp [enter, h]

theorem enter_enter : (S.enter key o).enter key o' = S.enter key o' := by
  simp [enter]

theorem enter_self (h : S.registrations key = o) : S.enter key o = S := by
  simp [enter, ← h]

theorem domains_shape_self : (S.shape key p).domains key = p := by
  simp [shape]

theorem domains_shape_of_ne (h : key' ≠ key) : (S.shape key p).domains key' = S.domains key' := by
  simp [shape, h]

theorem shape_self (h : S.domains key = p) : S.shape key p = S := by
  simp [shape, ← h]

end Entries

/-- What a pass over a key does. -/
def visit (rec : Reconciler) (now : Time) (S : Sketch) (key : Key) : Sketch :=
  match S.registrations key with
  | none => S
  | some reg =>
    let domain := rec.shaped now reg (S.domains (Binding.domainKey reg))
    (S.shape (Binding.domainKey reg) domain).enter key (rec.turned now reg domain)

theorem visit_of_none (rec : Reconciler) (now : Time) (h : S.registrations key = none) :
    S.visit rec now key = S := by
  rw [visit, h]

theorem visit_of_some (rec : Reconciler) (now : Time) (h : S.registrations key = some reg) :
    S.visit rec now key = (S.shape (Binding.domainKey reg)
        (rec.shaped now reg (S.domains (Binding.domainKey reg)))).enter key
      (rec.turned now reg (rec.shaped now reg (S.domains (Binding.domainKey reg)))) := by
  rw [visit, h]

theorem registrations_visit_of_ne (rec : Reconciler) (now : Time) (S : Sketch) (h : key ≠ key') :
    (S.visit rec now key').registrations key = S.registrations key := by
  rcases hreg : S.registrations key' with _ | reg
  · rw [visit_of_none rec now hreg]
  · rw [visit_of_some rec now hreg]
    exact registrations_enter_of_ne h

/-- Passes over two registrations, each under its own key, come to the same in either order. -/
theorem visit_comm (h : key ≠ key')
    (hkey : ∀ reg, S.registrations key = some reg → Resource.key reg = key)
    (hkey' : ∀ reg, S.registrations key' = some reg → Resource.key reg = key') :
    (S.visit rec now key).visit rec now key' = (S.visit rec now key').visit rec now key := by
  have hother := registrations_visit_of_ne rec now S h
  have hother' := registrations_visit_of_ne rec now S h.symm
  rcases hreg : S.registrations key with _ | reg
  · rw [visit_of_none rec now hreg, visit_of_none rec now (hother.trans hreg)]
  · rcases hreg' : S.registrations key' with _ | reg'
    · rw [visit_of_none rec now hreg', visit_of_none rec now (hother'.trans hreg')]
    · have hne : Resource.key reg ≠ Resource.key reg' := by
        rwa [hkey reg hreg, hkey' reg' hreg']
      rw [visit_of_some rec now (hother'.trans hreg'), visit_of_some rec now (hother.trans hreg),
        visit_of_some rec now hreg, visit_of_some rec now hreg']
      by_cases hdomain : Binding.domainKey reg = Binding.domainKey reg'
      · have hname : reg.hostname = reg'.hostname := congrArg Key.name hdomain
        rw [← hdomain]
        simp only [enter, shape, Function.update_self, Function.update_idem,
          turned_shaped_shaped hname.symm, turned_shaped_shaped hname]
        rw [Function.update_comm h, shaped_comm hne hname.symm]
      · simp only [enter, shape, Function.update_of_ne hdomain,
          Function.update_of_ne (Ne.symm hdomain)]
        rw [Function.update_comm h, Function.update_comm hdomain]

end Sketch

end Registrar
