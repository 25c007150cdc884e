import Mathlib.Logic.Function.Basic
import Registrar.Proofs.Settings.Layers
import Registrar.Proofs.Settings.Leaves
import Registrar.Settings.Load

/-!
# Settings from the environment

The variable of a setting puts a string to where the file tells the setting, and changes nothing
else (`told?_put_of_ne`), unless the file lists the settings of the table without their names: then
these are forgotten. A string is read as the setting only if it is a text. So a variable does what
the file could have done just where the setting is a text (`overridden_iff`); numbers and switches
cannot be set by variables at all.
-/

namespace Registrar.Settings

open Json Layer

namespace Leaf

/-- The names that lead to a setting. -/
def route (l : Leaf) : List String :=
  (l.table?.map Table.name).toList ++ [l.key]

/-- The variable that is to set a setting. -/
def variableName (l : Leaf) : String :=
  Variables.divider.intercalate (Variables.programName :: l.route.map String.toUpper)

theorem key?_variableName (l : Leaf) :
    Variables.key? l.variableName = some (".".intercalate l.route) := by
  cases l <;> decide +kernel

theorem path_route (l : Leaf) : Layer.path (".".intercalate l.route) = l.route := by
  cases l <;> decide +kernel

theorem route_of_table {l : Leaf} {t : Table} (h : l.table? = some t) :
    l.route = [t.name, l.key] := by
  rw [route, h]
  rfl

theorem key_mem {l : Leaf} {t : Table} (h : l.table? = some t) : l.key ∈ t.keys := by
  cases l <;> cases h <;> decide

theorem key_injective {l l' : Leaf} (h : l.key = l'.key) : l = l' := by
  revert h
  cases l <;> cases l' <;> decide

end Leaf

theorem Table.name_injective {t t' : Table} (h : t.name = t'.name) : t = t' := by
  revert h
  cases t <;> cases t' <;> decide

theorem Table.name_ne_seed (t : Table) : t.name ≠ "seed" := by
  cases t <;> decide

section Put

variable {value inner v : Json} {l l' : Leaf} {t t' : Table} {members : List (String × Json)}

/-- The settings of the table are listed without their names. -/
def Leaf.Listed (l : Leaf) (value : Json) : Prop :=
  ∃ t items, l.table? = some t ∧ value.member? t.name = some (.array items)

/-- What is in the place of a table. -/
def innerOf (t : Table) (value : Json) : Json :=
  (value.member? t.name).getD .null

theorem put_route (ht : l.table? = some t) (hv : v.isObject = false) :
    put v l.route (.object members) = .object (insertEntry t.name
      (.object (insertEntry l.key v (membersOf (innerOf t (.object members))))) members) := by
  rw [Leaf.route_of_table ht, put_cons, put_single hv]
  rfl

theorem put_seed (hv : v.isObject = false) :
    put v (Leaf.route .seed) (.object members) = .object (insertEntry "seed" v members) :=
  put_single hv _ _

theorem member?_insertEntry (name name' : String) :
    (Json.object (insertEntry name v members)).member? name'
      = if name' = name then some v else (Json.object members).member? name' := by
  rw [Json.member?, lookupEntry_insertEntry]
  simp only [Std.compare_eq_iff_eq]
  rfl

/-- A table that stays as it is tells what it told. -/
theorem Leaf.told?_congr (h : ∀ t, l.table? = some t → value.member? t.name = inner.member? t.name)
    (hseed : l.table? = none → value.member? l.key = inner.member? l.key) :
    l.told? value = l.told? inner := by
  rcases ht : l.table? with _ | t
  · simp only [told?, ht, hseed ht]
  · simp only [told?, ht, h t ht]

/-- What a table in order tells is what is found in it. -/
theorem Leaf.told?_of_tidy (ht : l.table? = some t)
    (hm : value.member? t.name = some (.object members)) (htidy : Tidy (.object members)) :
    l.told? value = (Json.object members).member? l.key := by
  obtain ⟨r, hr⟩ := Option.isSome_iff_exists.1 (htidy.fields?_isSome rfl t.keys)
  rw [told?_of_table ht hm, hr, Option.bind_some, lookupEntry_of_fields? hr (key_mem ht)]

/-- What a value in order tells, by what is in the place of the table. -/
theorem Leaf.told?_eq_lookup (ht : l.table? = some t) (htidy : Tidy value)
    (hlist : ¬l.Listed value) :
    l.told? value = lookupEntry l.key (membersOf (innerOf t value)) := by
  rcases hm : value.member? t.name with _ | inner
  · rw [told?_of_no_table ht hm, innerOf, hm]
    rfl
  · rw [innerOf, hm, Option.getD_some]
    cases inner with
    | object members => exact told?_of_tidy ht hm (htidy.member? hm)
    | array items => exact absurd ⟨t, items, ht, hm⟩ hlist
    | _ => rw [told?_of_table ht hm]; rfl

section Told

variable (hv : v.isObject = false) (htidy : Tidy (.object members))
include hv htidy

/-- What a setting of the same table is told as. -/
theorem told?_put_of_table (ht : l.table? = some t) (ht' : l'.table? = some t) :
    l'.told? (put v l.route (.object members)) = if l'.key = l.key then some v
      else lookupEntry l'.key (membersOf (innerOf t (.object members))) := by
  have htidy := htidy.put v l.route
  have hm : (put v l.route (.object members)).member? t.name
      = some (.object (insertEntry l.key v (membersOf (innerOf t (.object members))))) := by
    rw [put_route ht hv, member?_insertEntry, if_pos rfl]
  rw [Leaf.told?_of_tidy ht' hm (htidy.member? hm), member?_insertEntry]
  rfl

theorem told?_put_self (l : Leaf) : l.told? (put v l.route (.object members)) = some v := by
  rcases ht : l.table? with _ | t
  · obtain rfl := Leaf.eq_seed ht
    rw [put_seed hv]
    exact (member?_insertEntry "seed" "seed").trans (if_pos rfl)
  · rw [told?_put_of_table hv htidy ht ht, if_pos rfl]

/-- Settings listed without their names are forgotten. -/
theorem told?_put_of_listed (hne : l' ≠ l) (hlist : l.Listed (.object members))
    (hsame : l'.table? = l.table?) : l'.told? (put v l.route (.object members)) = none := by
  obtain ⟨t, items, ht, hm⟩ := hlist
  rw [told?_put_of_table hv htidy ht (hsame.trans ht),
    if_neg fun hkey => hne (Leaf.key_injective hkey), innerOf, hm]
  rfl

/-- All other settings are told as they were. -/
theorem told?_put_of_ne (hne : l' ≠ l)
    (hkept : ¬(l.Listed (.object members) ∧ l'.table? = l.table?)) :
    l'.told? (put v l.route (.object members)) = l'.told? (.object members) := by
  rcases ht : l.table? with _ | t
  · obtain rfl := Leaf.eq_seed ht
    rw [put_seed hv]
    refine Leaf.told?_congr (fun t _ => ?_) fun hnone => absurd (Leaf.eq_seed hnone) hne
    rw [member?_insertEntry, if_neg t.name_ne_seed]
  · by_cases hsame : l'.table? = some t
    · have hlist : ¬l'.Listed (.object members) := by
        rintro ⟨t', items, ht', hm⟩
        obtain rfl := Option.some.inj (hsame.symm.trans ht')
        exact hkept ⟨⟨t, items, ht, hm⟩, hsame.trans ht.symm⟩
      rw [told?_put_of_table hv htidy ht hsame, if_neg fun hkey => hne (Leaf.key_injective hkey),
        Leaf.told?_eq_lookup hsame htidy hlist]
    · rw [put_route ht hv]
      refine Leaf.told?_congr (fun t' ht' => ?_) fun hnone => ?_
      · rw [member?_insertEntry, if_neg fun hname =>
          hsame (ht'.trans (congrArg some (Table.name_injective hname)))]
      · obtain rfl := Leaf.eq_seed hnone
        rw [member?_insertEntry, if_neg fun hname => t.name_ne_seed hname.symm]

/-- A value that can be taken apart still can. -/
theorem legible_put (h : Legible (.object members)) (l : Leaf) :
    Legible (put v l.route (.object members)) := by
  have htidy := htidy.put v l.route
  have hobject : (put v l.route (.object members)).isObject := by
    rcases ht : l.table? with _ | t
    · obtain rfl := Leaf.eq_seed ht
      rw [put_seed hv]
      rfl
    · rw [put_route ht hv]
      rfl
  refine ⟨⟨hobject, htidy.fields?_isSome hobject names⟩, fun t table hm => ?_⟩
  rcases ht : l.table? with _ | t'
  · obtain rfl := Leaf.eq_seed ht
    rw [put_seed hv, member?_insertEntry, if_neg t.name_ne_seed] at hm
    exact h.tables t table hm
  · have htable := htidy.member? hm
    rw [put_route ht hv, member?_insertEntry] at hm
    split at hm
    · obtain rfl := Option.some.inj hm
      exact htable.fields?_isSome rfl t.keys
    · exact h.tables t table hm

end Told

end Put

/-- Settings with another value for one of them. -/
def set (s : Settings) (l : Leaf) (x : l.Value) : Settings :=
  ofValues (Function.update s.get l x)

/-- A string is read as what a value is read as only if the value is this string. -/
def Strict {α : Type} (read : Json → Option α) : Prop :=
  ∀ v x, read v = some x → ∀ text, read (.string text) = some x ↔ v = .string text

theorem strict_of_none {α : Type} {read : Json → Option α}
    (h : ∀ text, read (.string text) = none) : Strict read := by
  intro v x hv text
  rw [h]
  refine ⟨fun heq => (nomatch heq), ?_⟩
  rintro rfl
  rw [h] at hv
  cases hv

theorem strict_string : Strict Json.string? := by
  intro v x hv text
  cases v <;> simp_all [string?, eq_comm]

theorem strict_textOrNull : Strict textOrNull? := by
  intro v x hv text
  cases v <;> simp_all [textOrNull?, string?, eq_comm]

theorem Leaf.strict : ∀ l : Leaf, Strict l.read?
  | workers | retryDelay | capacity | maxFiles | attempts | jsonFiles => strict_of_none fun _ => rfl
  | finalizer | recordLabel | level | format => strict_string
  | filter | path | seed => strict_textOrNull

/-- The settings that are texts or paths; the others are numbers and switches. -/
def Leaf.isText : Leaf → Bool
  | finalizer | recordLabel | level | format | filter | path | seed => true
  | _ => false

theorem Leaf.read?_string_of_not_text {l : Leaf} (h : l.isText = false) (text : String) :
    l.read? (.string text) = none := by
  cases l <;> first | rfl | cases h

section Read

variable {s : Settings} {v : Json} {l : Leaf} {x : l.Value} {members : List (String × Json)}

/-- All other settings of the table are what they are by default. -/
def Leaf.Alone (l : Leaf) (s : Settings) : Prop :=
  ∀ l' : Leaf, l'.table? = l.table? → l' ≠ l → s.get l' = l'.default

theorem decode?_put_iff (htidy : Tidy (.object members))
    (hs : decode? (.object members) = some s) (text : String) :
    decode? (put (.string text) l.route (.object members)) = some (s.set l x) ↔
      l.read? (.string text) = some x ∧ (l.Listed (.object members) → l.Alone s) := by
  obtain ⟨hlegible, hmeant⟩ := decode?_eq_some_iff.1 hs
  rw [decode?_eq_some_iff, and_iff_right (legible_put rfl htidy hlegible l)]
  constructor
  · intro h
    refine ⟨?_, fun hlist l' hsame hne => ?_⟩
    · have hself := h l
      rw [told?_put_self rfl htidy, set, get_ofValues, Function.update_self] at hself
      exact hself
    · have hother := h l'
      rw [told?_put_of_listed rfl htidy hne hlist hsame, set, get_ofValues,
        Function.update_of_ne hne] at hother
      exact (Option.some.inj hother).symm
  · rintro ⟨hself, hothers⟩ l'
    rw [set, get_ofValues]
    rcases eq_or_ne l' l with rfl | hne
    · rw [told?_put_self rfl htidy, Function.update_self]
      exact hself
    · rw [Function.update_of_ne hne]
      by_cases hlist : l.Listed (.object members) ∧ l'.table? = l.table?
      · rw [told?_put_of_listed rfl htidy hne hlist.1 hlist.2, hothers hlist.1 l' hlist.2 hne]
        rfl
      · rw [told?_put_of_ne rfl htidy hne hlist, hmeant l']

end Read

/-- A value tells `v` for a setting, and for all others what another value tells. -/
structure Retells (l : Leaf) (v : Json) (value value' : Json) : Prop where
  legible : Legible value'
  told?_eq : l.told? value' = some v
  others : ∀ l' : Leaf, l' ≠ l → l'.told? value' = l'.told? value

namespace Retells

variable {l : Leaf} {v value' : Json} {s : Settings} {x : l.Value}

theorem decode? {value : Json} (h : Retells l v value value')
    (hs : Settings.decode? value = some s) (hx : l.read? v = some x) :
    Settings.decode? value' = some (s.set l x) := by
  obtain ⟨-, hmeant⟩ := decode?_eq_some_iff.1 hs
  refine decode?_eq_some_iff.2 ⟨h.legible, fun l' => ?_⟩
  rw [set, get_ofValues]
  rcases eq_or_ne l' l with rfl | hne
  · rw [h.told?_eq, Function.update_self]
    exact hx
  · rw [h.others l' hne, Function.update_of_ne hne, hmeant l']

/-- Where the table names its settings, the value can be put to where the setting is told. -/
theorem of_put {members : List (String × Json)} (htidy : Tidy (.object members))
    (hs : Settings.decode? (.object members) = some s) (hv : v.isObject = false)
    (hlist : ¬l.Listed (.object members)) :
    Retells l v (.object members) (put v l.route (.object members)) where
  legible := legible_put hv htidy (decode?_eq_some_iff.1 hs).1 l
  told?_eq := told?_put_self hv htidy l
  others _ hne := told?_put_of_ne hv htidy hne fun h => hlist h.1

end Retells

/-- Where settings are loaded from. -/
structure Sources where
  files : Files
  environment : List (String × String) := []
  path : Option String := none

namespace Sources

variable (a : Sources)

def load : Except LoadError Settings :=
  Settings.load a.files a.environment a.path

/-- The value that the layers come to. -/
def told : Except LoadError Json := do
  let layer ← fileLayer a.files a.path
  return add (add (.object []) layer) (Variables.layer a.environment)

/-- The same sources with a text in the variable of a setting. -/
def override (l : Leaf) (text : String) : Sources :=
  { a with environment := a.environment ++ [(l.variableName, text)] }

/-- The sources list the settings of a table without their names. -/
def Lists (l : Leaf) : Prop :=
  ∃ value, a.told = .ok value ∧ l.Listed value

/-- Other sources tell this value for a setting, and for all others what these tell. -/
def Replaces (l : Leaf) (v : Json) (b : Sources) : Prop :=
  ∃ value value', a.told = .ok value ∧ b.told = .ok value' ∧ Retells l v value value'

variable {a} {value : Json} {s : Settings} {l : Leaf} {text : String}

theorem load_eq :
    a.load = a.told >>= fun value => (decode? value).elim (.error .undecodable) .ok := by
  rw [load, Settings.load, told]
  cases fileLayer a.files a.path <;> rfl

theorem load_of_told (h : a.told = .ok value) :
    a.load = (decode? value).elim (.error .undecodable) .ok := by
  rw [load_eq, h]
  rfl

theorem load_eq_ok_iff (h : a.told = .ok value) : a.load = .ok s ↔ decode? value = some s := by
  rw [load_of_told h]
  cases decode? value <;> simp

theorem exists_told (h : a.load = .ok s) :
    ∃ members, a.told = .ok (.object members) ∧ decode? (.object members) = some s := by
  rcases htold : a.told with e | value
  · rw [load_eq, htold] at h
    cases h
  · have hdecode := (load_eq_ok_iff htold).1 h
    obtain ⟨members, -, rfl, -⟩ := exists_fields_of_decode? hdecode
    exact ⟨members, rfl, hdecode⟩

theorem tidy_told (h : a.told = .ok value) : Tidy value := by
  rw [told] at h
  rcases hlayer : fileLayer a.files a.path with e | layer
  · rw [hlayer] at h
    cases h
  · rw [hlayer] at h
    obtain rfl := Except.ok.inj h
    exact .add _ (.add _ .empty)

/-- The variable of a setting puts its text to where the setting is told. -/
theorem told_override (h : a.told = .ok value) :
    (a.override l text).told = .ok (put (.string text) l.route value) := by
  rw [told] at h ⊢
  rcases hlayer : fileLayer a.files a.path with e | layer
  · rw [hlayer] at h
    cases h
  · rw [hlayer] at h
    obtain rfl := Except.ok.inj h
    have hvariables : Variables.layer (a.environment ++ [(l.variableName, text)])
        = Variables.layer a.environment ++ [(".".intercalate l.route, .string text)] := by
      rw [Variables.layer, List.filterMap_append, Variables.layer]
      simp [l.key?_variableName]
    rw [override, hlayer]
    dsimp only [bind, Except.bind]
    rw [hvariables, add_append, add, List.foldl_cons, l.path_route]
    rfl

section Override

variable {b : Sources} {v : Json} {x : l.Value}

theorem load_override_iff (hload : a.load = .ok s) (hx : l.read? v = some x) (text : String) :
    (a.override l text).load = .ok (s.set l x) ↔ v = .string text ∧ (a.Lists l → l.Alone s) := by
  obtain ⟨members, htold, hs⟩ := exists_told hload
  have hlists : a.Lists l ↔ l.Listed (.object members) := by
    refine ⟨fun ⟨value, hvalue, hlist⟩ => ?_, fun hlist => ⟨_, htold, hlist⟩⟩
    obtain rfl := Except.ok.inj (htold.symm.trans hvalue)
    exact hlist
  rw [load_eq_ok_iff (told_override htold), decode?_put_iff (tidy_told htold) hs, hlists,
    l.strict v x hx]

/-- A number or a switch is not read from any text. -/
theorem load_override_of_not_text (hload : a.load = .ok s) (hl : l.isText = false) (text : String) :
    (a.override l text).load = .error .undecodable := by
  obtain ⟨members, htold, -⟩ := exists_told hload
  rw [load_of_told (told_override htold)]
  rcases hs : decode? (put (.string text) l.route (.object members)) with _ | s'
  · rfl
  · have hmeant := (decode?_eq_some_iff.1 hs).2 l
    rw [told?_put_self rfl (tidy_told htold), Leaf.meant?, Option.elim_some,
      l.read?_string_of_not_text hl] at hmeant
    cases hmeant

/-- The variable of a setting does with a text what the sources do that tell a value for it, just
when the value is this text, and no other setting is lost because its table is a list. It never does
for a number or a switch: then nothing is loaded. -/
theorem overridden_iff (hload : a.load = .ok s) (hreplaces : a.Replaces l v b)
    (hx : l.read? v = some x) : b.load = .ok (s.set l x) ∧
      (∀ text, (a.override l text).load = b.load ↔
        v = .string text ∧ (a.Lists l → l.Alone s)) ∧
      (l.isText = false → ∀ text, (a.override l text).load = .error .undecodable) := by
  obtain ⟨value, value', htold, htold', hretells⟩ := hreplaces
  have hs := (load_eq_ok_iff htold).1 hload
  have hb : b.load = .ok (s.set l x) := (load_eq_ok_iff htold').2 (hretells.decode? hs hx)
  refine ⟨hb, fun text => ?_, fun hl text => load_override_of_not_text hload hl text⟩
  rw [hb, load_override_iff hload hx]

end Override

/-- A file of settings alone. -/
def ofText (text : String) : Sources :=
  ⟨⟨[("controller.toml", text)]⟩, [], some "controller.toml"⟩

/-- A table of settings alone. -/
def controllerTable (members : List (String × Json)) : Json :=
  .object [("controller", .object members)]

/-- A text in which no number is a double is what it is the same as. -/
theorem parse?_eq_some {format : Format} {members : List (String × Json)}
    (hintegral : (Json.object members).integral)
    (hsame : (format.parse? text).any fun parsed => (Json.object members).same (.object parsed)) :
    format.parse? text = some members := by
  rcases hparse : format.parse? text with _ | parsed
  · rw [hparse] at hsame
    cases hsame
  · rw [hparse, Option.any_some] at hsame
    rw [Json.object.inj (eq_of_same hintegral hsame)]

theorem told_ofText {members : List (String × Json)}
    (h : Format.parse? .toml (withoutMark text) = some [("controller", .object members)])
    (hmembers : overlayMembers (.object []) members = .object members) :
    (ofText text).told = .ok (controllerTable members) := by
  have hformat : Files.extension? "controller.toml" >>= Format.ofExtension? = some .toml := by
    decide +kernel
  have hpath : Layer.path "controller" = ["controller"] := by decide +kernel
  have hlocate : locate? (ofText text).files "controller.toml" = some (.toml, text) := by
    simp [locate?, ofText, Files.read?, hformat]
  have hlayer : fileLayer (ofText text).files (ofText text).path
      = .ok [("controller", .object members)] := by
    have hpath : (ofText text).path.getD defaultFile = "controller.toml" := rfl
    unfold fileLayer
    rw [hpath, hlocate]
    dsimp only
    rw [h, Option.elim_some]
  have hadd : add (.object []) [("controller", .object members)] = controllerTable members := by
    rw [add, List.foldl_cons, List.foldl_nil, hpath, put, overlayMembers_cons, overlayMembers,
      overlay, tableOf_eq]
    dsimp only [member?, membersOf, object?, Option.getD_some, lookupEntry, Option.getD_none]
    rw [hmembers]
    rfl
  rw [told, hlayer]
  exact congrArg Except.ok hadd

theorem not_lists_table {members : List (String × Json)} (h : a.told = .ok (controllerTable members))
    (l : Leaf) : ¬a.Lists l := by
  rintro ⟨value, hvalue, t, items, -, hm⟩
  obtain rfl := Except.ok.inj (h.symm.trans hvalue)
  cases t <;> cases hm

theorem replaces_of_put {b : Sources} {v : Json} {members : List (String × Json)}
    (h : a.told = .ok (controllerTable members)) (hload : a.load = .ok s) (hv : v.isObject = false)
    (hb : b.told = .ok (put v l.route (controllerTable members))) : a.Replaces l v b :=
  ⟨_, _, h, hb, .of_put (tidy_told h) ((load_eq_ok_iff h).1 hload) hv
    fun hlist => not_lists_table h l ⟨_, h, hlist⟩⟩

/-- A file that sets the number of workers. -/
def workers (n : Nat) : Sources :=
  ofText s!"[controller]\nworkers = {n}\n"

/-- A file that sets a number of workers and the finalizer. -/
def marked : Sources :=
  ofText "[controller]\nworkers = 3\nfinalizer = \"f/g\"\n"

theorem told_three : (workers 3).told = .ok (controllerTable [("workers", .natural 3)]) :=
  told_ofText (parse?_eq_some rfl (by decide +kernel)) rfl

theorem told_four : (workers 4).told = .ok (controllerTable [("workers", .natural 4)]) :=
  told_ofText (parse?_eq_some rfl (by decide +kernel)) rfl

theorem told_marked : marked.told
    = .ok (controllerTable [("finalizer", .string "f/g"), ("workers", .natural 3)]) :=
  told_ofText (parse?_eq_some rfl (by decide +kernel)) rfl

theorem load_three : (workers 3).load = .ok { controller.workers := 3 } :=
  (load_eq_ok_iff told_three).2 rfl

theorem finalizer_overridden : ((workers 3).override .finalizer "f/g").load = marked.load ∧
    marked.load = .ok { controller := { workers := 3, finalizer := "f/g" } } := by
  have hreplaces : (workers 3).Replaces .finalizer (.string "f/g") marked :=
    replaces_of_put told_three load_three rfl told_marked
  obtain ⟨hmarked, hsame, -⟩ := overridden_iff load_three hreplaces rfl
  exact ⟨(hsame "f/g").2 ⟨rfl, fun hlists => absurd hlists (not_lists_table told_three _)⟩, hmarked⟩

/-- How a value is written in a variable. -/
def written? : Json → Option String
  | .string text => some text
  | .number (.int n) => some (toString n)
  | .bool b => some (toString b)
  | _ => none

/-- Three workers become four by another file, and nothing is loaded by the variable. -/
theorem workers_not_overridden : ¬∀ (a : Sources) (files : Files) (s : Settings) (l : Leaf) (v : Json)
    (text : String), a.load = .ok s → a.Replaces l v { a with files } → (l.read? v).isSome →
    written? v = some text →
    ∃ s', (a.override l text).load = .ok s' ∧ { a with files }.load = .ok s' := by
  intro h
  have hreplaces : (workers 3).Replaces .workers (.natural 4) (workers 4) :=
    replaces_of_put told_three load_three rfl told_four
  obtain ⟨s', hs', -⟩ := h _ (workers 4).files _ _ _ "4" load_three hreplaces rfl (by decide +kernel)
  rw [load_override_of_not_text load_three rfl] at hs'
  cases hs'

end Sources

end Registrar.Settings
