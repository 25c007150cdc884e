import Registrar.Proofs.Json.Retold
import Registrar.Settings.Layer

/-!
# Tables put together

Putting values into tables keeps the names of every table in order, however deep it is (`Tidy.add`):
no name stands twice in a table that layers come to, so it can be taken apart as a record.
-/

namespace Registrar.Settings.Layer

open Json

/-- The names of a table ascend, and those of the tables in it. -/
inductive Tidy : Json → Prop
  | table {members : List (String × Json)} (ascending : Ascending members)
      (inside : ∀ m ∈ members, Tidy m.2) : Tidy (.object members)
  | other {value : Json} (h : value.isObject = false) : Tidy value

/-- A table as it is, and an empty one in place of anything else. -/
def tableOf (below : Json) : Json :=
  if below.isObject then below else .object []

/-- The members of a table; anything else has none. -/
def membersOf (below : Json) : List (String × Json) :=
  below.object?.getD []

theorem tableOf_eq (below : Json) : tableOf below = .object (membersOf below) := by
  cases below <;> rfl

theorem overlayMembers_cons (below : Json) (name : String) (value : Json)
    (rest : List (String × Json)) : overlayMembers below ((name, value) :: rest)
      = overlayMembers ((tableOf below).setMember name
          (overlay ((tableOf below).member? name) value)) rest := by
  rw [overlayMembers, tableOf]

theorem put_cons (value below : Json) (name next : String) (path : List String) :
    put value (name :: next :: path) below = (tableOf below).setMember name
      (put value (next :: path) (((tableOf below).member? name).getD .null)) := by
  rw [put, tableOf]
  simp

theorem put_single {value : Json} (hvalue : value.isObject = false) (below : Json)
    (name : String) : put value [name] below = .object (insertEntry name value (membersOf below)) := by
  have hover : ∀ below, overlay below value = value := by
    cases value with
    | object => cases hvalue
    | _ => intro below; rw [overlay]; simp
  rw [put, overlayMembers_cons, overlayMembers, hover, tableOf_eq]
  rfl

theorem add_append (below : Json) (layer layer' : List (String × Json)) :
    add below (layer ++ layer') = add (add below layer) layer' :=
  List.foldl_append

namespace Tidy

variable {below value : Json} {name : String}

theorem empty : Tidy (.object []) :=
  .table .nil (List.forall_mem_nil _)

theorem null : Tidy .null :=
  .other rfl

theorem ascending {members : List (String × Json)} (h : Tidy (.object members)) :
    Ascending members := by
  cases h with
  | table ascending => exact ascending
  | other h => cases h

theorem inside {members : List (String × Json)} (h : Tidy (.object members)) :
    ∀ m ∈ members, Tidy m.2 := by
  cases h with
  | table _ inside => exact inside
  | other h => cases h

theorem setMember (h : Tidy below) (hvalue : Tidy value) : Tidy (below.setMember name value) := by
  cases below with
  | object members =>
    refine .table (h.ascending.insertEntry name value) fun m hm => ?_
    rcases mem_of_mem_insertEntry hm with rfl | hm
    · exact hvalue
    · exact h.inside m hm
  | _ => exact h

theorem member? (h : Tidy below) (hm : below.member? name = some value) : Tidy value := by
  cases below with
  | object members => exact h.inside _ (mem_of_lookupEntry hm)
  | _ => cases hm

theorem tableOf (h : Tidy below) : Tidy (tableOf below) := by
  rw [Layer.tableOf]
  split
  · exact h
  · exact empty

mutual

theorem overlay {below : Option Json} (h : ∀ b ∈ below, Tidy b) : ∀ value : Json,
    Tidy (Layer.overlay below value)
  | .object members => by
    rw [Layer.overlay]
    refine overlayMembers ?_ members
    cases below with
    | none => exact empty
    | some b => exact h b rfl
  | .null | .bool _ | .number _ | .string _ | .array _ => .other rfl

theorem overlayMembers {below : Json} (h : Tidy below) : ∀ members : List (String × Json),
    Tidy (Layer.overlayMembers below members)
  | [] => by rwa [Layer.overlayMembers]
  | (name, value) :: rest => by
    rw [overlayMembers_cons]
    have hvalue : Tidy (Layer.overlay ((Layer.tableOf below).member? name) value) :=
      overlay (fun _ hb => h.tableOf.member? hb) value
    exact overlayMembers (h.tableOf.setMember hvalue) rest

end

theorem put (value : Json) : ∀ (path : List String) {below : Json}, Tidy below →
    Tidy (Layer.put value path below)
  | [], _, h => h
  | [name], _, h => h.overlayMembers _
  | name :: next :: path, below, h => by
    rw [put_cons]
    refine h.tableOf.setMember (put value (next :: path) ?_)
    rcases hm : (Layer.tableOf below).member? name with _ | inner
    · exact null
    · exact h.tableOf.member? hm

theorem add : ∀ (layer : List (String × Json)) {below : Json}, Tidy below →
    Tidy (Layer.add below layer)
  | [], _, h => h
  | (key, value) :: rest, _, h => add rest (h.put value (path key))

/-- No name stands twice in a table in order. -/
theorem fields?_isSome (h : Tidy below) (hobject : below.isObject) (names : List String) :
    (below.fields? names).isSome := by
  cases below with
  | object members =>
    have hnames : (members.map Prod.fst).Nodup :=
      List.pairwise_map.2 (h.ascending.imp fun hlt heq => by simp [heq] at hlt)
    have hknown : distinct ((members.filter fun m => names.contains m.1).map Prod.fst) :=
      distinct_iff_nodup.2 (hnames.sublist (List.filter_sublist.map _))
    rw [fields?, if_pos hknown, Option.isSome_some]
  | _ => cases hobject

end Tidy

end Registrar.Settings.Layer
