import Registrar.Proofs.Json.Records
import Registrar.Settings

/-!
# Single settings

Settings are what is read for each of them: a value tells something for a setting, or nothing and
then its default is meant. A value that can be taken apart into its tables is read as settings just
when each is what is read for it (`decode?_eq_some_iff`).
-/

namespace Registrar.Settings

open Json

/-- The tables that settings are in. -/
inductive Table where
  | controller
  | verification
  | logging
  deriving DecidableEq

inductive Leaf where
  | workers
  | retryDelay
  | attempts
  | finalizer
  | capacity
  | recordLabel
  | level
  | format
  | filter
  | path
  | jsonFiles
  | maxFiles
  | seed
  deriving DecidableEq

namespace Table

def name : Table → String
  | controller => "controller"
  | verification => "verification"
  | logging => "logging"

def keys : Table → List String
  | controller => ["workers", "requeue_delay_ms", "conflict_retries", "finalizer", "queue_capacity"]
  | verification => ["record_prefix"]
  | logging => ["level", "format", "filter", "path", "json_files", "max_files"]

end Table

/-- A text, or null for none. -/
def textOrNull? : Json → Option (Option String)
  | .null => some none
  | value => some <$> value.string?

namespace Leaf

/-- The table that a setting is in, unless it stands beside the tables. -/
def table? : Leaf → Option Table
  | workers | retryDelay | attempts | finalizer | capacity => some .controller
  | recordLabel => some .verification
  | level | format | filter | path | jsonFiles | maxFiles => some .logging
  | seed => none

theorem eq_seed {l : Leaf} (h : l.table? = none) : l = .seed := by
  cases l <;> first | rfl | cases h

def key : Leaf → String
  | workers => "workers"
  | retryDelay => "requeue_delay_ms"
  | attempts => "conflict_retries"
  | finalizer => "finalizer"
  | capacity => "queue_capacity"
  | recordLabel => "record_prefix"
  | level => "level"
  | format => "format"
  | filter => "filter"
  | path => "path"
  | jsonFiles => "json_files"
  | maxFiles => "max_files"
  | seed => "seed"

def Value : Leaf → Type
  | workers | retryDelay | attempts | capacity | maxFiles => Nat
  | finalizer | recordLabel | level | format => String
  | filter | path | seed => Option String
  | jsonFiles => Bool

/-- What a value is read as for a setting. -/
def read? : (l : Leaf) → Json → Option l.Value
  | workers | retryDelay | capacity | maxFiles => count?
  | attempts => Json.below? UInt32.size
  | finalizer | recordLabel | level | format => Json.string?
  | filter | path | seed => textOrNull?
  | jsonFiles => Json.bool?

end Leaf

def get (s : Settings) : (l : Leaf) → l.Value
  | .workers => s.controller.workers
  | .retryDelay => s.controller.retryDelay
  | .attempts => s.controller.attempts
  | .finalizer => s.controller.finalizer
  | .capacity => s.controller.capacity
  | .recordLabel => s.recordLabel
  | .level => s.logging.level
  | .format => s.logging.format
  | .filter => s.logging.filter
  | .path => s.logging.path
  | .jsonFiles => s.logging.jsonFiles
  | .maxFiles => s.logging.maxFiles
  | .seed => s.seed

/-- The settings of these values. -/
def ofValues (f : (l : Leaf) → l.Value) : Settings where
  controller := ⟨f .workers, f .retryDelay, f .attempts, f .finalizer, f .capacity⟩
  recordLabel := f .recordLabel
  logging := ⟨f .level, f .format, f .filter, f .path, f .jsonFiles, f .maxFiles⟩
  seed := f .seed

theorem get_ofValues (f : (l : Leaf) → l.Value) (l : Leaf) : (ofValues f).get l = f l := by
  cases l <;> rfl

namespace Leaf

def default (l : Leaf) : l.Value :=
  get {} l

/-- What is meant for a setting by what is told for it, if anything is. -/
def meant? (l : Leaf) (told : Option Json) : Option l.Value :=
  told.elim (some l.default) l.read?

/-- What a value tells for a setting. -/
def told? (l : Leaf) (value : Json) : Option Json :=
  match l.table? with
  | none => value.member? l.key
  | some t => (value.member? t.name).bind fun table =>
    (table.fields? t.keys).bind (lookupEntry l.key)

end Leaf

/-- The names that a value of settings knows. -/
def names : List String :=
  ["controller", "verification", "logging", "seed"]

/-- A value can be taken apart into tables, and these into settings. -/
structure Legible (value : Json) : Prop where
  fields : value.isObject ∧ (value.fields? names).isSome
  tables : ∀ t : Table, ∀ table, value.member? t.name = some table → (table.fields? t.keys).isSome

section Fields

variable {α : Type} {r : Record} {name : String}

theorem defaulted_eq_elim (d : α) (decode? : Json → Option α) :
    r.defaulted name d decode? = (lookupEntry name r).elim (some d) decode? := by
  rw [Record.defaulted]
  cases lookupEntry name r <;> rfl

theorem optional_eq_elim :
    r.optional name Json.string? = (lookupEntry name r).elim (some none) textOrNull? := by
  rw [Record.optional]
  rcases lookupEntry name r with _ | value
  · rfl
  · cases value <;> rfl

theorem lookupEntry_filter {names : List String} (hname : name ∈ names) :
    ∀ members : Record, lookupEntry name (members.filter fun m => names.contains m.1)
      = lookupEntry name members
  | [] => rfl
  | (m, v) :: rest => by
    have ih := lookupEntry_filter hname rest
    rw [List.filter_cons]
    split
    · rw [lookupEntry, lookupEntry, ih]
    · rename_i hm
      rw [ih, lookupEntry, if_neg]
      rw [Std.compare_eq_iff_eq]
      rintro rfl
      simp [hname] at hm

/-- What is found in a record is found in the object it is taken from. -/
theorem lookupEntry_of_fields? {names : List String} {members : List (String × Json)}
    (h : (Json.object members).fields? names = some r) (hname : name ∈ names) :
    lookupEntry name r = (Json.object members).member? name := by
  rw [Json.fields?] at h
  split at h
  · obtain rfl := Option.some.inj h
    exact lookupEntry_filter hname members
  · cases h

end Fields

section Tables

variable {P : Leaf → Prop} {table : Json} {s : Settings}

theorem forall_controller : (∀ l : Leaf, l.table? = some .controller → P l) ↔
    P .workers ∧ P .retryDelay ∧ P .attempts ∧ P .finalizer ∧ P .capacity :=
  ⟨fun h => ⟨h _ rfl, h _ rfl, h _ rfl, h _ rfl, h _ rfl⟩, fun ⟨_, _, _, _, _⟩ l hl => by
    cases l <;> first | assumption | cases hl⟩

theorem forall_verification :
    (∀ l : Leaf, l.table? = some .verification → P l) ↔ P .recordLabel :=
  ⟨fun h => h _ rfl, fun _ l hl => by cases l <;> first | assumption | cases hl⟩

theorem forall_logging : (∀ l : Leaf, l.table? = some .logging → P l) ↔
    P .level ∧ P .format ∧ P .filter ∧ P .path ∧ P .jsonFiles ∧ P .maxFiles :=
  ⟨fun h => ⟨h _ rfl, h _ rfl, h _ rfl, h _ rfl, h _ rfl, h _ rfl⟩,
    fun ⟨_, _, _, _, _, _⟩ l hl => by cases l <;> first | assumption | cases hl⟩

/-- The settings of a table are what is meant for each of them. -/
def Reads (t : Table) (table : Json) (s : Settings) : Prop :=
  ∃ r, table.fields? t.keys = some r ∧
    ∀ l : Leaf, l.table? = some t → l.meant? (lookupEntry l.key r) = some (s.get l)

theorem reads_controller :
    Controller.decode? table = some s.controller ↔ Reads .controller table s := by
  simp only [Controller.decode?, defaulted_eq_elim, Option.bind_eq_bind, Option.bind_eq_some_iff,
    Option.pure_def, Option.some.injEq]
  obtain ⟨⟨workers, retryDelay, attempts, finalizer, capacity⟩, -, -, -⟩ := s
  constructor
  · rintro ⟨r, hr, _, hworkers, _, hretryDelay, _, hattempts, _, hfinalizer, _, hcapacity, ⟨⟩⟩
    exact ⟨r, hr, forall_controller.2
      ⟨hworkers, hretryDelay, hattempts, hfinalizer, hcapacity⟩⟩
  · rintro ⟨r, hr, h⟩
    obtain ⟨hworkers, hretryDelay, hattempts, hfinalizer, hcapacity⟩ := forall_controller.1 h
    exact ⟨r, hr, _, hworkers, _, hretryDelay, _, hattempts, _, hfinalizer, _, hcapacity, rfl⟩

theorem reads_verification :
    recordLabel? table = some s.recordLabel ↔ Reads .verification table s := by
  simp only [recordLabel?, defaulted_eq_elim, Option.bind_eq_bind, Option.bind_eq_some_iff]
  exact exists_congr fun r => and_congr_right fun _ => (forall_verification
    (P := fun l => l.meant? (lookupEntry l.key r) = some (s.get l))).symm

theorem reads_logging : Logging.decode? table = some s.logging ↔ Reads .logging table s := by
  simp only [Logging.decode?, defaulted_eq_elim, optional_eq_elim, Option.bind_eq_bind,
    Option.bind_eq_some_iff, Option.pure_def, Option.some.injEq]
  obtain ⟨-, -, ⟨level, format, filter, path, jsonFiles, maxFiles⟩, -⟩ := s
  constructor
  · rintro ⟨r, hr, _, hlevel, _, hformat, _, hfilter, _, hpath, _, hjsonFiles, _, hmaxFiles, ⟨⟩⟩
    exact ⟨r, hr, forall_logging.2 ⟨hlevel, hformat, hfilter, hpath, hjsonFiles, hmaxFiles⟩⟩
  · rintro ⟨r, hr, h⟩
    obtain ⟨hlevel, hformat, hfilter, hpath, hjsonFiles, hmaxFiles⟩ := forall_logging.1 h
    exact ⟨r, hr, _, hlevel, _, hformat, _, hfilter, _, hpath, _, hjsonFiles, _, hmaxFiles, rfl⟩

end Tables

section Settings

variable {value table : Json} {s : Settings} {t : Table} {l : Leaf}

/-- The table can be taken apart if it is there, and its settings are what is meant for them. -/
def ReadsFrom (t : Table) (value : Json) (s : Settings) : Prop :=
  (∀ table, value.member? t.name = some table → (table.fields? t.keys).isSome) ∧
    ∀ l : Leaf, l.table? = some t → l.meant? (l.told? value) = some (s.get l)

theorem Leaf.told?_of_table (hl : l.table? = some t) (h : value.member? t.name = some table) :
    l.told? value = (table.fields? t.keys).bind (lookupEntry l.key) := by
  simp only [told?, hl, h, Option.bind_some]

theorem Leaf.told?_of_no_table (hl : l.table? = some t) (h : value.member? t.name = none) :
    l.told? value = none := by
  simp only [told?, hl, h, Option.bind_none]

theorem readsFrom_of_table (h : value.member? t.name = some table) :
    ReadsFrom t value s ↔ Reads t table s := by
  rw [ReadsFrom, Reads, h]
  constructor
  · rintro ⟨hfields, hmeant⟩
    obtain ⟨r, hr⟩ := Option.isSome_iff_exists.1 (hfields table rfl)
    refine ⟨r, hr, fun l hl => ?_⟩
    rw [← hmeant l hl, Leaf.told?_of_table hl h, hr, Option.bind_some]
  · rintro ⟨r, hr, hmeant⟩
    refine ⟨fun table' heq => ?_, fun l hl => ?_⟩
    · obtain rfl := Option.some.inj heq
      rw [hr, Option.isSome_some]
    · rw [← hmeant l hl, Leaf.told?_of_table hl h, hr, Option.bind_some]

theorem readsFrom_of_no_table (h : value.member? t.name = none) :
    ReadsFrom t value s ↔ ∀ l : Leaf, l.table? = some t → l.default = s.get l := by
  rw [ReadsFrom, h]
  constructor
  · rintro ⟨-, hmeant⟩ l hl
    have hdefault := hmeant l hl
    rw [Leaf.told?_of_no_table hl h] at hdefault
    exact Option.some.inj hdefault
  · intro hdefault
    refine ⟨fun _ heq => (nomatch heq), fun l hl => ?_⟩
    rw [Leaf.told?_of_no_table hl h, ← hdefault l hl]
    rfl

theorem readsFrom_controller : (value.member? "controller").elim (some {}) Controller.decode?
    = some s.controller ↔ ReadsFrom .controller value s := by
  rcases h : value.member? "controller" with _ | table
  · rw [readsFrom_of_no_table h, forall_controller]
    obtain ⟨⟨workers, retryDelay, attempts, finalizer, capacity⟩, -, -, -⟩ := s
    simp only [Option.elim_none, Option.some.injEq, Controller.mk.injEq]
    exact Iff.rfl
  · rw [readsFrom_of_table h, ← reads_controller, Option.elim_some]

theorem readsFrom_verification :
    (value.member? "verification").elim (some Hostname.defaultRecordLabel) recordLabel?
      = some s.recordLabel ↔ ReadsFrom .verification value s := by
  rcases h : value.member? "verification" with _ | table
  · rw [readsFrom_of_no_table h, forall_verification]
    simp only [Option.elim_none, Option.some.injEq]
    exact Iff.rfl
  · rw [readsFrom_of_table h, ← reads_verification, Option.elim_some]

theorem readsFrom_logging : (value.member? "logging").elim (some {}) Logging.decode?
    = some s.logging ↔ ReadsFrom .logging value s := by
  rcases h : value.member? "logging" with _ | table
  · rw [readsFrom_of_no_table h, forall_logging]
    obtain ⟨-, -, ⟨level, format, filter, path, jsonFiles, maxFiles⟩, -⟩ := s
    simp only [Option.elim_none, Option.some.injEq, Logging.mk.injEq]
    exact Iff.rfl
  · rw [readsFrom_of_table h, ← reads_logging, Option.elim_some]

theorem meant?_seed : (value.member? "seed").elim (some none) textOrNull? = some s.seed ↔
    Leaf.meant? .seed (Leaf.told? .seed value) = some (s.get .seed) :=
  Iff.rfl

theorem forall_leaf {P : Leaf → Prop} :
    (∀ l, P l) ↔ (∀ t : Table, ∀ l, l.table? = some t → P l) ∧ P .seed := by
  refine ⟨fun h => ⟨fun _ l _ => h l, h .seed⟩, fun ⟨htables, hseed⟩ l => ?_⟩
  rcases ht : l.table? with _ | t
  · obtain rfl := Leaf.eq_seed ht
    exact hseed
  · exact htables t l ht

theorem exists_fields_of_decode? (h : decode? value = some s) : ∃ members r,
    value = .object members ∧ (Json.object members).fields? names = some r := by
  simp only [decode?, Option.bind_eq_bind, Option.bind_eq_some_iff] at h
  obtain ⟨members, hobject, r, hr, -⟩ := h
  cases value with
  | object =>
    obtain rfl := Option.some.inj hobject
    exact ⟨_, r, rfl, hr⟩
  | _ => cases hobject

theorem decode?_of_fields {members : List (String × Json)} {r : Record}
    (hr : (Json.object members).fields? names = some r) :
    decode? (.object members) = some s ↔ (∀ t, ReadsFrom t (.object members) s) ∧
      Leaf.meant? .seed (Leaf.told? .seed (.object members)) = some (s.get .seed) := by
  have hlookup : ∀ name ∈ names, lookupEntry name r = (Json.object members).member? name :=
    fun name hname => lookupEntry_of_fields? hr hname
  have htables : (∀ t, ReadsFrom t (.object members) s) ↔
      ReadsFrom .controller (.object members) s ∧ ReadsFrom .verification (.object members) s ∧
        ReadsFrom .logging (.object members) s :=
    ⟨fun h => ⟨h _, h _, h _⟩, fun ⟨hcontroller, hverification, hlogging⟩ t => by
      cases t <;> assumption⟩
  rw [htables, ← readsFrom_controller, ← readsFrom_verification, ← readsFrom_logging,
    ← meant?_seed, ← hlookup "controller" (by decide), ← hlookup "verification" (by decide),
    ← hlookup "logging" (by decide), ← hlookup "seed" (by decide)]
  have hfields : (Json.object members).fields? ["controller", "verification", "logging", "seed"]
      = some r := hr
  simp only [decode?, object?, hfields, defaulted_eq_elim, optional_eq_elim, Option.bind_eq_bind,
    Option.bind_some, Option.bind_eq_some_iff, Option.pure_def, Option.some.injEq]
  obtain ⟨controller, recordLabel, logging, seed⟩ := s
  constructor
  · rintro ⟨_, hcontroller, _, hlabel, _, hlogging, _, hseed, ⟨⟩⟩
    exact ⟨⟨hcontroller, hlabel, hlogging⟩, hseed⟩
  · rintro ⟨⟨hcontroller, hlabel, hlogging⟩, hseed⟩
    exact ⟨_, hcontroller, _, hlabel, _, hlogging, _, hseed, rfl⟩

/-- A value is read as settings just when it can be taken apart and each setting is what is meant by
what the value tells for it. -/
theorem decode?_eq_some_iff : decode? value = some s ↔
    Legible value ∧ ∀ l : Leaf, l.meant? (l.told? value) = some (s.get l) := by
  constructor
  · intro h
    obtain ⟨members, r, rfl, hr⟩ := exists_fields_of_decode? h
    obtain ⟨htables, hseed⟩ := (decode?_of_fields hr).1 h
    exact ⟨⟨⟨rfl, by rw [hr, Option.isSome_some]⟩, fun t => (htables t).1⟩,
      forall_leaf.2 ⟨fun t => (htables t).2, hseed⟩⟩
  · rintro ⟨⟨⟨hobject, hfields⟩, htables⟩, hmeant⟩
    cases value with
    | object members =>
      obtain ⟨r, hr⟩ := Option.isSome_iff_exists.1 hfields
      obtain ⟨hmeant, hseed⟩ := forall_leaf.1 hmeant
      exact (decode?_of_fields hr).2 ⟨fun t => ⟨htables t, hmeant t⟩, hseed⟩
    | _ => cases hobject

end Settings

end Registrar.Settings
