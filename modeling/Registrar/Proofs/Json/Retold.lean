import Mathlib.Data.List.Forall2
import Mathlib.Data.List.Nodup
import Registrar.Proofs.Json.Records

/-!
# Values told anew

One value tells the same as another when the members of its records stand in another order, or some
stand beside them that no field is named for. Where the records are is told by a shape. A record is
read through its fields alone, so it is read alike however it is told (`Shape.Reads.record`).
-/

namespace Registrar.Json

theorem distinct_iff_nodup {names : List String} : distinct names ↔ names.Nodup := by
  induction names with
  | nil => simp [distinct]
  | cons name rest ih => simp [distinct, ih]

/-- In any order, members with names of their own are found under them. -/
theorem lookupEntry_perm (name : String) {r r' : Record} (h : r.Perm r')
    (hr : (r.map Prod.fst).Nodup) : lookupEntry name r' = lookupEntry name r := by
  induction h with
  | nil => rfl
  | cons m _ ih => simp only [lookupEntry, ih (List.nodup_cons.1 hr).2]
  | swap m n rest =>
    have hmn : m.1 ≠ n.1 := by simp_all [eq_comm]
    by_cases hm : name = m.1 <;> by_cases hn : name = n.1 <;> simp_all [lookupEntry]
  | trans h _ ih ih' => exact (ih' ((h.map _).nodup_iff.1 hr)).trans (ih hr)

theorem rel_refl {β : Type} {R : β → β → Prop} (hR : ∀ b, R b b) : ∀ o, Option.Rel R o o
  | none => .none
  | some b => .some (hR b)

theorem rel_trans {β : Type} {R : β → β → Prop} (hR : ∀ {a b c}, R a b → R b c → R a c) :
    ∀ {o₁ o₂ o₃}, Option.Rel R o₁ o₂ → Option.Rel R o₂ o₃ → Option.Rel R o₁ o₃
  | _, _, _, .none, .none => .none
  | _, _, _, .some h, .some h' => .some (hR h h')

/-- What is made of related options is the same if what is made of related values is. -/
theorem congr_of_rel {β γ : Type} {R : β → β → Prop} {o o' : Option β} (h : Option.Rel R o o')
    (f : Option β → γ) (hf : ∀ {a b}, R a b → f (some b) = f (some a)) : f o' = f o := by
  cases h with
  | none => rfl
  | some hab => exact hf hab

/-- Where the records of a value are, and what their fields are called. -/
inductive Shape where
  /-- A value read as a whole. -/
  | leaf
  | list (item : Shape)
  | record (fields : List (String × Shape))

namespace Shape

/-- A record with nothing inside its fields. -/
def plain (names : List String) : Shape :=
  .record (names.map (·, .leaf))

/-- Whether the second value tells the same as the first. -/
inductive Retold : Shape → Json → Json → Prop
  | refl (s : Shape) (v : Json) : Retold s v v
  | trans {s : Shape} {u v w : Json} : Retold s u v → Retold s v w → Retold s u w
  | reorder (fields : List (String × Shape)) {members members' : List (String × Json)} :
    members.Perm members' → Retold (.record fields) (.object members) (.object members')
  /-- A new member stands first; it comes to any other place by reordering. -/
  | add {fields : List (String × Shape)} {name : String} (v : Json)
    (members : List (String × Json)) : name ∉ fields.map Prod.fst →
    Retold (.record fields) (.object members) (.object ((name, v) :: members))
  /-- A member that no field is named for may hold anything. -/
  | other {fields : List (String × Shape)} {name : String} (v v' : Json)
    (front back : List (String × Json)) : name ∉ fields.map Prod.fst →
    Retold (.record fields) (.object (front ++ (name, v) :: back))
      (.object (front ++ (name, v') :: back))
  | member {fields : List (String × Shape)} {name : String} {s : Shape} {v v' : Json}
    (front back : List (String × Json)) : (name, s) ∈ fields → Retold s v v' →
    Retold (.record fields) (.object (front ++ (name, v) :: back))
      (.object (front ++ (name, v') :: back))
  /-- A record may also be an array of its first fields. -/
  | position {fields : List (String × Shape)} {name : String} {s : Shape} {v v' : Json}
    (front back : List Json) : fields[front.length]? = some (name, s) → Retold s v v' →
    Retold (.record fields) (.array (front ++ v :: back)) (.array (front ++ v' :: back))
  | item {s : Shape} {v v' : Json} (front back : List Json) : Retold s v v' →
    Retold (.list s) (.array (front ++ v :: back)) (.array (front ++ v' :: back))

/-- Whether a reader gives the same, or fails alike, however a value is told. -/
def Reads {α : Type} (s : Shape) (decode? : Json → Option α) : Prop :=
  ∀ ⦃v v' : Json⦄, s.Retold v v' → decode? v' = decode? v

theorem Retold.eq_of_leaf {s : Shape} {v v' : Json} (h : s.Retold v v') (hs : s = .leaf) :
    v' = v := by
  induction h with
  | refl => rfl
  | trans _ _ ih ih' => exact (ih' hs).trans (ih hs)
  | reorder | add | other | member | position | item => cases hs

theorem Reads.list {α : Type} {s : Shape} {decode? : Json → Option α} (hd : s.Reads decode?) :
    (list s).Reads (listOf? decode?) := by
  intro v v' h
  generalize ht : Shape.list s = t at h
  induction h with
  | refl => rfl
  | trans _ _ ih ih' => exact (ih' ht).trans (ih ht)
  | item front back hv =>
    obtain rfl : s = _ := Shape.list.inj ht
    simp only [listOf?, List.mapM_append, List.mapM_cons, hd hv]
  | reorder | add | other | member | position => cases ht

section Record

variable {α : Type} {fields : List (String × Shape)}

/-- Members of one name whose values tell the same, if a field has that name. -/
def SameMember (fields : List (String × Shape)) (m m' : String × Json) : Prop :=
  m.1 = m'.1 ∧ ∀ s, (m.1, s) ∈ fields → s.Retold m.2 m'.2

/-- Whether two records hold the same fields, each value telling the same. -/
def Alike (fields : List (String × Shape)) (r r' : Record) : Prop :=
  ∀ name s, (name, s) ∈ fields → Option.Rel s.Retold (lookupEntry name r) (lookupEntry name r')

theorem sameMembers_split {name : String} {v v' : Json}
    (h : ∀ s, (name, s) ∈ fields → s.Retold v v') (front back : Record) :
    List.Forall₂ (SameMember fields) (front ++ (name, v) :: back) (front ++ (name, v') :: back) :=
  have hrefl (r : Record) : List.Forall₂ (SameMember fields) r r :=
    List.forall₂_same.2 fun m _ => ⟨rfl, fun s _ => .refl s m.2⟩
  List.rel_append (hrefl front) (.cons ⟨rfl, h⟩ (hrefl back))

theorem map_fst_of_sameMembers {r r' : Record} (h : List.Forall₂ (SameMember fields) r r') :
    r'.map Prod.fst = r.map Prod.fst := by
  induction h with
  | nil => rfl
  | cons hm _ ih => simp only [List.map_cons, hm.1, ih]

namespace Alike

variable {r r' : Record}

theorem refl (r : Record) : Alike fields r r :=
  fun _ s _ => rel_refl (.refl s) _

theorem trans {r'' : Record} (h : Alike fields r r') (h' : Alike fields r' r'') :
    Alike fields r r'' :=
  fun name s hs => rel_trans .trans (h name s hs) (h' name s hs)

theorem of_perm (h : r.Perm r') (hr : (r.map Prod.fst).Nodup) : Alike fields r r' := by
  intro name s _
  rw [lookupEntry_perm name h hr]
  exact rel_refl (.refl s) _

theorem of_sameMembers (h : List.Forall₂ (SameMember fields) r r') : Alike fields r r' := by
  intro name s hs
  induction h with
  | nil => exact .none
  | @cons m m' rest rest' hm _ ih =>
    by_cases hn : name = m.1
    · subst hn
      simpa [lookupEntry, ← hm.1] using Option.Rel.some (hm.2 s hs)
    · simpa [lookupEntry, ← hm.1, hn] using ih

end Alike

/-- Whether two values are read as records that hold the same, or neither is one. -/
abbrev TakenAlike (fields : List (String × Shape)) (v v' : Json) : Prop :=
  Option.Rel (Alike fields) (v.fields? (fields.map Prod.fst)) (v'.fields? (fields.map Prod.fst))

/-- The members of an object that fields are named for. -/
abbrev known (fields : List (String × Shape)) (members : Record) : Record :=
  members.filter fun m => (fields.map Prod.fst).contains m.1

theorem takenAlike_object {members members' : Record}
    (hnames : ((known fields members).map Prod.fst).Perm ((known fields members').map Prod.fst))
    (h : ((known fields members).map Prod.fst).Nodup →
      Alike fields (known fields members) (known fields members')) :
    TakenAlike fields (.object members) (.object members') := by
  simp only [TakenAlike, fields?, distinct_iff_nodup, ← hnames.nodup_iff]
  split
  next hd => exact .some (h hd)
  next => exact .none

theorem TakenAlike.of_sameMembers {members members' : Record}
    (h : List.Forall₂ (SameMember fields) members members') :
    TakenAlike fields (.object members) (.object members') := by
  have hknown : List.Forall₂ (SameMember fields) (known fields members) (known fields members') :=
    List.rel_filter (fun m m' (hm : SameMember fields m m') => by simp only [hm.1]) h
  exact takenAlike_object (.of_eq (map_fst_of_sameMembers hknown).symm)
    fun _ => .of_sameMembers hknown

/-- Where one value of an array tells the same as the value in its place, so do the members that
the array stands for. -/
theorem sameMembers_zip {names : List String} (name : String) {v v' : Json}
    {front back : List Json} (hname : names[front.length]? = some name)
    (h : ∀ s, (name, s) ∈ fields → s.Retold v v') :
    List.Forall₂ (SameMember fields) (names.zip (front ++ v :: back))
      (names.zip (front ++ v' :: back)) := by
  obtain ⟨hlt, rfl⟩ := List.getElem?_eq_some_iff.1 hname
  have hsplit (w : Json) : names.zip (front ++ w :: back)
      = (names.take front.length).zip front
        ++ (names[front.length], w) :: (names.drop (front.length + 1)).zip back := by
    rw [← List.zip_cons_cons, ← List.zip_append (by simp; omega),
      List.getElem_cons_drop, List.take_append_drop]
  rw [hsplit, hsplit]
  exact sameMembers_split h _ _

theorem takenAlike_array {items items' : List Json} (hlength : items'.length = items.length)
    (h : List.Forall₂ (SameMember fields) ((fields.map Prod.fst).zip items)
      ((fields.map Prod.fst).zip items')) :
    TakenAlike fields (.array items) (.array items') := by
  simp only [TakenAlike, fields?, hlength]
  split
  next => exact .some (.of_sameMembers h)
  next => exact .none

/-- However a record is told, the same fields are taken from it. -/
theorem Retold.takenAlike {s : Shape} {v v' : Json} (h : s.Retold v v')
    (hs : s = .record fields) (hd : distinct (fields.map Prod.fst)) : TakenAlike fields v v' := by
  have hown {name : String} {s s' : Shape} (h : (name, s) ∈ fields) (h' : (name, s') ∈ fields) :
      s' = s :=
    congrArg Prod.snd (List.inj_on_of_nodup_map (distinct_iff_nodup.1 hd) h' h rfl)
  induction h with
  | refl => exact rel_refl .refl _
  | trans _ _ ih ih' => exact rel_trans .trans (ih hs) (ih' hs)
  | reorder _ hm =>
    have hknown := hm.filter fun m => (fields.map Prod.fst).contains m.1
    obtain rfl := Shape.record.inj hs
    exact takenAlike_object (hknown.map _) (.of_perm hknown)
  | add v members hname =>
    obtain rfl := Shape.record.inj hs
    have hknown : known _ ((_, v) :: members) = known _ members :=
      List.filter_cons_of_neg (by simpa using hname)
    exact takenAlike_object (by rw [hknown]) fun _ => hknown ▸ .refl _
  | other v v' front back hname =>
    obtain rfl := Shape.record.inj hs
    exact .of_sameMembers
      (sameMembers_split (fun s hs => absurd (List.mem_map_of_mem hs) hname) front back)
  | member front back hf hv =>
    obtain rfl := Shape.record.inj hs
    exact .of_sameMembers (sameMembers_split (fun s hs => hown hf hs ▸ hv) front back)
  | @position _ name _ _ _ front back hf hv =>
    obtain rfl := Shape.record.inj hs
    exact takenAlike_array (by simp) (sameMembers_zip name (by simp [hf])
      fun s hs => hown (List.mem_of_getElem? hf) hs ▸ hv)
  | item => cases hs

/-- A reader that takes a record apart and builds from its fields reads alike what is told anew. -/
theorem Reads.record {decode? : Json → Option α} {build : Record → Option α}
    (hd : distinct (fields.map Prod.fst))
    (hdecode : ∀ v, decode? v = v.fields? (fields.map Prod.fst) >>= build)
    (hbuild : ∀ {r r'}, Alike fields r r' → build r' = build r) :
    (Shape.record fields).Reads decode? := by
  intro v v' h
  rw [hdecode, hdecode]
  exact congr_of_rel (h.takenAlike rfl hd) (· >>= build) hbuild

namespace Alike

variable {r r' : Record} {s : Shape} {decode? : Json → Option α} (name : String)

theorem lookup_leaf (h : Alike fields r r') (hf : (name, .leaf) ∈ fields) :
    lookupEntry name r' = lookupEntry name r :=
  congr_of_rel (h name .leaf hf) id fun hv => congrArg some (hv.eq_of_leaf rfl)

theorem required (h : Alike fields r r') (hf : (name, s) ∈ fields) (hs : s.Reads decode?) :
    r'.required name decode? = r.required name decode? :=
  congr_of_rel (h name s hf) (· >>= decode?) fun hv => hs hv

theorem defaulted (h : Alike fields r r') (hf : (name, s) ∈ fields) (hs : s.Reads decode?)
    (default : α) : r'.defaulted name default decode? = r.defaulted name default decode? := by
  have helim : ∀ r : Record, r.defaulted name default decode?
      = (lookupEntry name r).elim (some default) decode? := by
    intro r
    rw [Record.defaulted]
    cases lookupEntry name r <;> rfl
  rw [helim, helim]
  exact congr_of_rel (h name s hf) (·.elim (some default) decode?) fun hv => hs hv

end Alike

/-- A record of plain fields is read alike if it is built from what stands in the fields. -/
theorem Reads.plain {names : List String} {decode? : Json → Option α} {build : Record → Option α}
    (hd : distinct names) (hdecode : ∀ v, decode? v = v.fields? names >>= build)
    (hbuild : ∀ {r r' : Record}, (∀ name ∈ names, lookupEntry name r' = lookupEntry name r) →
      build r' = build r) : (plain names).Reads decode? := by
  have hnames : (names.map (·, Shape.leaf)).map Prod.fst = names := by
    simp [Function.comp_def]
  refine .record (by rwa [hnames]) (by rwa [hnames]) fun h => hbuild fun name hn => ?_
  exact h.lookup_leaf name (List.mem_map_of_mem hn)

end Record

end Shape

end Registrar.Json
