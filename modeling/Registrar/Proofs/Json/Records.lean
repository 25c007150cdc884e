import Mathlib.Tactic.Common
import Registrar.Json.Record

/-!
# Records written and read

A value in which every number is an integer is the same as another only when the two are equal
(`eq_of_same`). A record is written with its present fields in the order given, so a field is found
in it just when it was given (`lookupEntry_present`), and each way to read a field gives back what
was written there.
-/

namespace Registrar.Json

section Sameness

def Number.isInteger : Number → Bool
  | .int _ => true
  | .float _ => false

mutual

/-- Whether every number in a value is an integer. -/
def integral : Json → Bool
  | .null | .bool _ | .string _ => true
  | .number n => n.isInteger
  | .array items => integralItems items
  | .object members => integralMembers members

def integralItems : List Json → Bool
  | [] => true
  | a :: as => a.integral && integralItems as

def integralMembers : List (String × Json) → Bool
  | [] => true
  | (_, a) :: as => a.integral && integralMembers as

end

theorem Number.eq_of_same {m n : Number} (hm : m.isInteger) (h : m.same n) : m = n := by
  cases m <;> cases n <;> simp_all [isInteger, same]

mutual

/-- Without doubles, the same means equal. -/
theorem eq_of_same : ∀ {a b : Json}, a.integral → a.same b → a = b
  | .null, b, _, h => by cases b <;> simp_all [same]
  | .bool _, b, _, h => by cases b <;> simp_all [same]
  | .string _, b, _, h => by cases b <;> simp_all [same]
  | .number m, b, ha, h => by
    cases b with
    | number n => exact congrArg _ (Number.eq_of_same ha h)
    | _ => simp [same] at h
  | .array as, b, ha, h => by
    cases b with
    | array bs => exact congrArg _ (eq_of_sameItems ha h)
    | _ => simp [same] at h
  | .object as, b, ha, h => by
    cases b with
    | object bs => exact congrArg _ (eq_of_sameMembers ha h)
    | _ => simp [same] at h

theorem eq_of_sameItems : ∀ {as bs : List Json}, integralItems as → sameItems as bs → as = bs
  | [], bs, _, h => by cases bs <;> simp_all [sameItems]
  | a :: as, bs, ha, h => by
    cases bs with
    | nil => simp [sameItems] at h
    | cons b bs =>
      simp only [integralItems, Bool.and_eq_true] at ha
      simp only [sameItems, Bool.and_eq_true] at h
      rw [eq_of_same ha.1 h.1, eq_of_sameItems ha.2 h.2]

theorem eq_of_sameMembers : ∀ {as bs : List (String × Json)},
    integralMembers as → sameMembers as bs → as = bs
  | [], bs, _, h => by cases bs <;> simp_all [sameMembers]
  | (m, a) :: as, bs, ha, h => by
    cases bs with
    | nil => simp [sameMembers] at h
    | cons b bs =>
      obtain ⟨n, b⟩ := b
      simp only [integralMembers, Bool.and_eq_true] at ha
      simp only [sameMembers, Bool.and_eq_true, beq_iff_eq] at h
      rw [h.1.1, eq_of_same ha.1 h.1.2, eq_of_sameMembers ha.2 h.2]

end

mutual

theorem same_self : ∀ {a : Json}, a.integral → a.same a
  | .null, _ | .bool _, _ | .string _, _ => by simp [same]
  | .number (.int _), _ => by simp [same, Number.same]
  | .array _, ha => sameItems_self ha
  | .object _, ha => sameMembers_self ha

theorem sameItems_self : ∀ {as : List Json}, integralItems as → sameItems as as
  | [], _ => rfl
  | a :: as, ha => by
    simp only [integralItems, Bool.and_eq_true] at ha
    simp [sameItems, same_self ha.1, sameItems_self ha.2]

theorem sameMembers_self : ∀ {as : List (String × Json)}, integralMembers as → sameMembers as as
  | [], _ => rfl
  | (m, a) :: as, ha => by
    simp only [integralMembers, Bool.and_eq_true] at ha
    simp [sameMembers, same_self ha.1, sameMembers_self ha.2]

end

theorem beq_iff_eq_of_integral {a b : Json} (ha : a.integral) : (a == b) = true ↔ a = b :=
  ⟨eq_of_same ha, fun h => h ▸ same_self ha⟩

theorem integralItems_eq_true {items : List Json} :
    integralItems items = true ↔ ∀ a ∈ items, a.integral := by
  induction items with
  | nil => simp [integralItems]
  | cons a as ih => simp [integralItems, ih]

theorem integralMembers_eq_true {members : List (String × Json)} :
    integralMembers members = true ↔ ∀ m ∈ members, m.2.integral := by
  induction members with
  | nil => simp [integralMembers]
  | cons m as ih => simp [integralMembers, ih]

theorem integral_array_map {α : Type} (encode : α → Json) (h : ∀ a, (encode a).integral)
    (as : List α) : (Json.array (as.map encode)).integral := by
  rw [integral, integralItems_eq_true]
  simp [h]

theorem integral_record {fields : List (String × Option Json)}
    (h : ∀ f ∈ fields, ∀ a ∈ f.2, a.integral) : (record fields).integral := by
  rw [record, integral, integralMembers_eq_true]
  intro m hm
  obtain ⟨f, hf, hm⟩ := List.mem_filterMap.1 hm
  obtain ⟨a, ha, rfl⟩ := Option.map_eq_some_iff.1 hm
  exact h f hf a ha

@[simp] theorem integral_string (s : String) : (Json.string s).integral = true := rfl

@[simp] theorem integral_natural (n : Nat) : (natural n).integral = true := rfl

end Sameness

section Fields

variable {α : Type}

/-- The members that a record writes. -/
def present (fields : List (String × Option Json)) : Record :=
  fields.filterMap fun f => f.2.map (f.1, ·)

/-- What a record gives for a name. -/
def given (name : String) : List (String × Option Json) → Option Json
  | [] => none
  | (m, a) :: rest => if name = m then a else given name rest

/-- Whether fields have names of their own, all among those given. -/
def wellNamed (names : List String) (fields : List (String × Option Json)) : Bool :=
  distinct (fields.map Prod.fst) && fields.all fun f => names.contains f.1

theorem record_eq (fields : List (String × Option Json)) :
    record fields = .object (present fields) :=
  rfl

theorem distinct_of_sublist : ∀ {names rest : List String}, rest.Sublist names → distinct names →
    distinct rest
  | _, _, .slnil, _ => rfl
  | _, _, .cons _ h, hd => by
    simp only [distinct, Bool.and_eq_true] at hd
    exact distinct_of_sublist h hd.2
  | _, _, .cons_cons a h, hd => by
    simp only [distinct, Bool.and_eq_true, Bool.not_eq_true', List.contains_eq_mem,
      decide_eq_false_iff_not] at hd ⊢
    exact ⟨fun hm => hd.1 (h.subset hm), distinct_of_sublist h hd.2⟩

theorem names_present_sublist : ∀ fields : List (String × Option Json),
    ((present fields).map Prod.fst).Sublist (fields.map Prod.fst)
  | [] => .slnil
  | (m, none) :: rest => .cons m (names_present_sublist rest)
  | (m, some _) :: rest => .cons_cons m (names_present_sublist rest)

/-- A record with proper names is taken apart into the members it writes. -/
theorem fields?_record {names : List String} (fields : List (String × Option Json))
    (h : wellNamed names fields) : fields? names (record fields) = some (present fields) := by
  simp only [wellNamed, Bool.and_eq_true, List.all_eq_true] at h
  have hknown : (present fields).filter (fun m => names.contains m.1) = present fields := by
    refine List.filter_eq_self.2 fun m hm => ?_
    obtain ⟨f, hf, hm⟩ := List.mem_filterMap.1 hm
    obtain ⟨a, -, rfl⟩ := Option.map_eq_some_iff.1 hm
    exact h.2 f hf
  simp only [record_eq, fields?, hknown]
  exact if_pos (distinct_of_sublist (names_present_sublist fields) h.1)

theorem lookupEntry_eq_none {name : String} : ∀ {members : Record},
    name ∉ members.map Prod.fst → lookupEntry name members = none
  | [], _ => rfl
  | (m, a) :: rest, h => by
    simp only [List.map_cons, List.mem_cons, not_or] at h
    rw [lookupEntry, if_neg (by rw [Std.compare_eq_iff_eq]; exact h.1), lookupEntry_eq_none h.2]

/-- A name is found among the members of a record just when it was given. -/
theorem lookupEntry_present (name : String) : ∀ {fields : List (String × Option Json)},
    distinct (fields.map Prod.fst) → lookupEntry name (present fields) = given name fields
  | [], _ => rfl
  | (m, a) :: rest, h => by
    simp only [List.map_cons, distinct, Bool.and_eq_true, Bool.not_eq_true', List.contains_eq_mem,
      decide_eq_false_iff_not] at h
    have ih := lookupEntry_present name h.2
    cases a with
    | none =>
      by_cases hm : name = m
      · subst hm
        have : name ∉ (present rest).map Prod.fst :=
          fun hn => h.1 ((names_present_sublist rest).subset hn)
        simpa [given, present] using lookupEntry_eq_none this
      · simpa [given, present, hm] using ih
    | some a =>
      by_cases hm : name = m
      · simp [given, present, lookupEntry, hm]
      · have : compare name m ≠ .eq := by rw [Ne, Std.compare_eq_iff_eq]; exact hm
        simp only [present, List.filterMap_cons, Option.map_some, lookupEntry, if_neg this, given,
          if_neg hm]
        exact ih

theorem member?_record {name : String} {fields : List (String × Option Json)}
    (h : distinct (fields.map Prod.fst)) : (record fields).member? name = given name fields :=
  lookupEntry_present name h

namespace Record

variable {r : Record} {name : String} {decode? : Json → Option α}

theorem required_eq {a : α} (value : Json) (h : lookupEntry name r = some value)
    (hd : decode? value = some a) : r.required name decode? = some a := by
  simp [required, h, hd]

/-- A field left out for its default is read as the default. -/
theorem defaulted_eq {a d : α} {value : Option Json} (h : lookupEntry name r = value)
    (hnone : value = none → a = d) (hd : ∀ v ∈ value, decode? v = some a) :
    r.defaulted name d decode? = some a := by
  rw [defaulted, h]
  cases value with
  | none => simp [hnone rfl]
  | some v => exact hd v rfl

/-- A field that may be missing is read back, unless what it holds is written as null. -/
theorem optional_eq {o : Option α} (encode : α → Json) (h : lookupEntry name r = o.map encode)
    (hnull : ∀ a, encode a ≠ .null) (hd : ∀ a ∈ o, decode? (encode a) = some a) :
    r.optional name decode? = some o := by
  cases o with
  | none => simp [optional, h]
  | some a =>
    simp only [Option.map_some] at h
    rw [optional, h]
    split
    · rename_i hn
      exact absurd hn (by simp)
    · rename_i hn
      exact absurd (Option.some.inj hn) (hnull a)
    · rename_i v _ hv
      obtain rfl := Option.some.inj hv
      simp [hd a rfl]

end Record

theorem listOf?_map (decode? : Json → Option α) (encode : α → Json)
    (h : ∀ a, decode? (encode a) = some a) (as : List α) :
    listOf? decode? (.array (as.map encode)) = some as := by
  induction as with
  | nil => rfl
  | cons a as ih =>
    simp only [listOf?] at ih ⊢
    simp [List.mapM_cons, h, ih]

theorem below?_natural {n bound : Nat} (h : n < bound) : below? bound (natural n) = some n := by
  simp [below?, natural, int?, h]

theorem uint64?_natural (n : UInt64) : uint64? (natural n.toNat) = some n := by
  rw [uint64?, below?_natural n.toNat_lt_size, Option.map_some, UInt64.ofNat_toNat]

end Fields

end Registrar.Json
