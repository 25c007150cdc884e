import Mathlib.Data.List.Forall2
import Registrar.ErrorType.Expansion
import Registrar.Proofs.First

/-!
# Which error types are accepted, and what comes with them

An error type is refused for its first variant that is wrong in itself, and only then for the first
one that has a source without a place for the context (`refusal?_eq_some_iff`). What comes with an
accepted one is told variant by variant (`Provides`); no source is without a context then, so every
variant that a source becomes is also one that a context is added to.
-/

namespace Registrar.ErrorType

namespace TypeForm

variable {form : TypeForm} {arguments : List Argument}

/-- `Option<Cow<'static, str>>`, whatever stands in front of the names and behind the arguments. -/
inductive TakesContext : TypeForm → Prop
  | intro (ofText behindText behind : List Argument) :
    TakesContext (.path "Option" (.type (.path "Cow"
      (.lifetime "static" :: .type (.path "str" ofText) :: behindText)) :: behind))

theorem name?_eq_some_iff {name : String} :
    form.name? = some name ↔ ∃ arguments, form = .path name arguments := by
  cases form <;> simp [name?]

theorem isStaticText_iff : isStaticText arguments = true ↔
    ∃ ofText behind, arguments = .lifetime "static" :: .type (.path "str" ofText) :: behind := by
  constructor
  · intro h
    unfold isStaticText at h
    split at h
    · simp only [Bool.and_eq_true, beq_iff_eq, name?_eq_some_iff] at h
      obtain ⟨rfl, ofText, rfl⟩ := h
      exact ⟨ofText, _, rfl⟩
    · cases h
  · rintro ⟨ofText, behind, rfl⟩
    simp [isStaticText, name?]

theorem holdsText_iff : holdsText arguments = true ↔
    ∃ inner behind, arguments = .type (.path "Cow" inner) :: behind ∧ isStaticText inner = true := by
  constructor
  · intro h
    unfold holdsText at h
    split at h
    · simp only [Bool.and_eq_true, beq_iff_eq, name?_eq_some_iff] at h
      obtain ⟨⟨inner, rfl⟩, h⟩ := h
      exact ⟨inner, _, rfl, h⟩
    · cases h
  · rintro ⟨inner, behind, rfl, h⟩
    simp [holdsText, name?, TypeForm.arguments, h]

theorem isContext_iff : form.isContext = true ↔ form.TakesContext := by
  constructor
  · intro h
    simp only [isContext, Bool.and_eq_true, beq_iff_eq, name?_eq_some_iff] at h
    obtain ⟨⟨arguments, rfl⟩, h⟩ := h
    obtain ⟨inner, behind, rfl, h⟩ := holdsText_iff.1 h
    obtain ⟨ofText, behindText, rfl⟩ := isStaticText_iff.1 h
    exact .intro ofText behindText behind
  · rintro ⟨ofText, behindText, behind⟩
    have htext : isStaticText (.lifetime "static" :: .type (.path "str" ofText) :: behindText) :=
      isStaticText_iff.2 ⟨ofText, behindText, rfl⟩
    have hholds := holdsText_iff.2 ⟨_, behind, rfl, htext⟩
    simp [isContext, name?, TypeForm.arguments, hholds]

end TypeForm

namespace Field

/-- The field is named for the context. -/
def ForContext (field : Field) : Prop :=
  field.name = "context"

/-- The field is named or marked for the source. -/
def ForSource (field : Field) : Prop :=
  field.name = "source" ∨ "source" ∈ field.marks ∨ "from" ∈ field.marks

instance (field : Field) : Decidable field.ForContext :=
  inferInstanceAs (Decidable (field.name = "context"))

instance (field : Field) : Decidable field.ForSource :=
  inferInstanceAs (Decidable (_ ∨ _ ∨ _))

theorem isSource_iff (field : Field) : field.isSource = true ↔ field.ForSource := by
  simp [isSource, ForSource, or_assoc]

theorem beq_context_iff (field : Field) : (field.name == "context") = true ↔ field.ForContext :=
  beq_iff_eq

end Field

namespace Variant

/-- A variant is wrong in itself. -/
inductive Misformed (v : Variant) : Refusal → Prop
  | unnamed : v.fields = none → v.Misformed .unnamedFields
  | mistyped {fields : List Field} {context : Field} : v.fields = some fields →
    First Field.ForContext fields context → ¬context.type.TakesContext → v.Misformed .contextType

/-- A variant has a source and no place for the context. -/
def Unplaced (v : Variant) : Prop :=
  (∃ field ∈ v.members, field.ForSource) ∧ ∀ field ∈ v.members, ¬field.ForContext

/-- A variant for which an error type is refused. -/
def Unfit (v : Variant) : Prop :=
  (∃ r, v.Misformed r) ∨ v.Unplaced

variable {v : Variant} {r : Refusal} {field : Field}

theorem contextField?_eq_some_iff :
    v.contextField? = some field ↔ First Field.ForContext v.members field :=
  find?_eq_some_iff_first Field.beq_context_iff

theorem source?_eq_some_iff : v.source? = some field ↔ First Field.ForSource v.members field :=
  find?_eq_some_iff_first Field.isSource_iff

theorem hasContext_iff : v.hasContext = true ↔ ∃ field ∈ v.members, field.ForContext := by
  rw [hasContext, contextField?, List.find?_isSome]
  simp only [Field.beq_context_iff]

theorem isSome_source?_iff : v.source?.isSome = true ↔ ∃ field ∈ v.members, field.ForSource := by
  rw [source?, List.find?_isSome]
  simp only [Field.isSource_iff]

theorem formFault?_eq_some_iff : v.formFault? = some r ↔ v.Misformed r := by
  rcases hfields : v.fields with _ | fields
  · rw [formFault?, hfields, if_pos Option.isNone_none]
    constructor
    · intro h
      exact Option.some.inj h ▸ .unnamed hfields
    · rintro (_ | ⟨hsome, -, -⟩)
      · rfl
      · cases hfields.symm.trans hsome
  · have hmembers : v.members = fields := by simp [members, hfields]
    rw [formFault?, hfields, if_neg (by simp)]
    constructor
    · intro h
      split at h
      · rename_i hany
        rcases hcontext : v.contextField? with _ | context
        · simp [hcontext] at hany
        · rw [hcontext, Option.any_some, Bool.not_eq_true', ← Bool.not_eq_true,
            TypeForm.isContext_iff] at hany
          exact Option.some.inj h ▸
            .mistyped hfields (hmembers ▸ contextField?_eq_some_iff.1 hcontext) hany
      · cases h
    · rintro (hnone | ⟨hsome, hfirst, htype⟩)
      · cases hfields.symm.trans hnone
      · obtain rfl := Option.some.inj (hfields.symm.trans hsome)
        have hcontext := contextField?_eq_some_iff.2 (hmembers.symm ▸ hfirst)
        rw [hcontext, if_pos]
        simpa [TypeForm.isContext_iff, ← Bool.not_eq_true] using htype

theorem sourceFault?_eq_some_iff :
    v.sourceFault? = some r ↔ v.Unplaced ∧ r = .sourceWithoutContext := by
  have hunplaced : (v.source?.isSome && !v.hasContext) = true ↔ v.Unplaced := by
    rw [Bool.and_eq_true, Bool.not_eq_true', ← Bool.not_eq_true, isSome_source?_iff,
      hasContext_iff, Unplaced]
    simp only [not_exists, not_and]
  rw [sourceFault?]
  split
  · rename_i h
    rw [Option.some.injEq, eq_comm, and_iff_right (hunplaced.1 h)]
  · rename_i h
    simp [hunplaced.not.1 h]

end Variant

variable {variants : List Variant} {r : Refusal}

/-- Why variants are refused: for the first that is wrong in itself, and if there is none, for the
first that has a source and no place for the context. -/
inductive Refused (variants : List Variant) : Refusal → Prop
  | form {v : Variant} {r : Refusal} : First (fun v => ∃ r, v.Misformed r) variants v →
    v.Misformed r → Refused variants r
  | source {v : Variant} : (∀ v ∈ variants, ¬∃ r, v.Misformed r) →
    First Variant.Unplaced variants v → Refused variants .sourceWithoutContext

theorem refusal?_eq_some_iff : refusal? variants = some r ↔ Refused variants r := by
  have hform : variants.findSome? Variant.formFault? = some r ↔
      ∃ v, First (fun v => ∃ r, v.Misformed r) variants v ∧ v.Misformed r := by
    simp only [findSome?_eq_some_iff_first, Variant.formFault?_eq_some_iff]
  have hnone : variants.findSome? Variant.formFault? = none ↔
      ∀ v ∈ variants, ¬∃ r, v.Misformed r := by
    rw [List.findSome?_eq_none_iff]
    simp only [Option.eq_none_iff_forall_ne_some, ne_eq, Variant.formFault?_eq_some_iff,
      not_exists]
  have hsource : variants.findSome? Variant.sourceFault? = some r ↔
      ∃ v, First Variant.Unplaced variants v ∧ r = .sourceWithoutContext := by
    simp only [findSome?_eq_some_iff_first, Variant.sourceFault?_eq_some_iff, exists_and_left,
      exists_eq, and_true]
    exact ⟨fun ⟨v, hv, _, hr⟩ => ⟨v, hv, hr⟩, fun ⟨v, hv, hr⟩ => ⟨v, hv, hv.holds, hr⟩⟩
  rw [refusal?, Option.orElse_eq_orElse, Option.orElse_eq_or, Option.or_eq_some_iff, hform, hnone,
    hsource]
  constructor
  · rintro (⟨v, hv, hr⟩ | ⟨hsound, v, hv, rfl⟩)
    · exact .form hv hr
    · exact .source hsound hv
  · rintro (⟨hv, hr⟩ | ⟨hsound, hv⟩)
    · exact .inl ⟨_, hv, hr⟩
    · exact .inr ⟨hsound, _, hv, rfl⟩

theorem exists_refused_iff : (∃ r, Refused variants r) ↔ ∃ v ∈ variants, v.Unfit := by
  constructor
  · rintro ⟨r, hv | ⟨-, hv⟩⟩
    · exact ⟨_, hv.mem, .inl hv.holds⟩
    · exact ⟨_, hv.mem, .inr hv.holds⟩
  · rintro ⟨v, hv, hunfit⟩
    by_cases hform : ∃ v ∈ variants, ∃ r, v.Misformed r
    · obtain ⟨w, hw⟩ := exists_first_iff.2 hform
      obtain ⟨r, hr⟩ := hw.holds
      exact ⟨r, .form hw hr⟩
    · have hsound : ∀ v ∈ variants, ¬∃ r, v.Misformed r := fun w hw h => hform ⟨w, hw, h⟩
      obtain ⟨w, hw⟩ := exists_first_iff.2 ⟨v, hv, hunfit.resolve_left (hsound v hv)⟩
      exact ⟨_, .source hsound hw⟩

theorem refusal?_eq_none_iff : refusal? variants = none ↔ ∀ v ∈ variants, ¬v.Unfit := by
  simp only [Option.eq_none_iff_forall_ne_some, ne_eq, refusal?_eq_some_iff]
  rw [← not_exists, exists_refused_iff]
  simp only [not_exists, not_and]

namespace Variant

/-- A context can be added to the variant. -/
def TakesContext (v : Variant) : Prop :=
  ∃ field ∈ v.members, field.ForContext

/-- A source becomes the variant. -/
def TakesSource (v : Variant) : Prop :=
  (∃ field ∈ v.members, field.ForSource) ∧ v.name ≠ "Internal"

instance (v : Variant) : Decidable v.TakesContext :=
  inferInstanceAs (Decidable (∃ field ∈ v.members, field.ForContext))

instance (v : Variant) : Decidable v.TakesSource :=
  inferInstanceAs (Decidable (_ ∧ _))

theorem isInternal_iff (v : Variant) : v.isInternal = true ↔ v.name = "Internal" :=
  beq_iff_eq

theorem takesContext_of_takesSource {v : Variant} (h : ¬v.Unfit) (hsource : v.TakesSource) :
    v.TakesContext := by
  by_contra hnone
  exact h (.inr ⟨hsource.1, fun field hfield hcontext => hnone ⟨field, hfield, hcontext⟩⟩)

end Variant

open Expansion

/-- The name of the trait that adds contexts: that of the error type and `Ext`. The mark of a raw
name is left out. -/
inductive Extends : String → String → Prop
  | raw (bare : String) : Extends ("r#" ++ bare) (bare ++ "Ext")
  | plain {name : String} : (∀ bare, name ≠ "r#" ++ bare) → Extends name (name ++ "Ext")

/-- The implementations by which the first source of a variant becomes the error, alone and with a
context. Both build the variant of its source field and the context. -/
inductive Converts (name ext : String) (v : Variant) : List Implementation → Prop
  | intro {source : Field} : First Field.ForSource v.members source → Converts name ext v [
      { interface := some ("From<" ++ source.typeText ++ ">")
        target := name
        cfg := v.cfg
        methods := ["from"]
        arms := []
        builds := [v.name ++ "\x7b" ++ source.name ++ ",context\x7d"] },
      { interface := some (ext ++ "<T>")
        target := "std::result::Result<T," ++ source.typeText ++ ">"
        cfg := v.cfg
        methods := ["context"]
        arms := []
        builds := [v.name ++ "\x7b" ++ source.name ++ ",context\x7d"] }]

/-- The implementations by which texts become the error, if it has a variant for them. -/
inductive ConvertsTexts (name : String) (variants : List Variant) : List Implementation → Prop
  | none : (∀ v ∈ variants, v.name ≠ "Internal") → ConvertsTexts name variants []
  | first {v : Variant} : First (·.name = "Internal") variants v → ConvertsTexts name variants
      (["&'staticstr", "String"].map fun type => {
        interface := some ("From<" ++ type ++ ">")
        target := name
        cfg := v.cfg
        methods := ["from"]
        arms := []
        builds := ["Internal\x7bmessage,context\x7d"] })

/-- What comes with the variants of an error type: an arm for each that takes a context, two
implementations for each that takes a source, two for texts, and an arm for the name of each. -/
structure Provides (name : String) (variants : List Variant) (impls : List Implementation) :
    Prop where
  parts : ∃ ext sources texts,
    Extends name ext ∧
    List.Forall₂ (Converts name ext) (variants.filter (·.TakesSource)) sources ∧
    ConvertsTexts name variants texts ∧
    impls = {
        interface := some (ext ++ "<T>")
        target := "Result<T," ++ name ++ ">"
        cfg := []
        methods := ["context"]
        arms := (variants.filter (·.TakesContext)).map fun v => ⟨v.name, none, v.cfg⟩
        builds := [] } :: sources.flatten ++ texts ++ [{
        interface := none
        target := name
        cfg := []
        methods := ["kind"]
        arms := variants.map fun v => ⟨v.name, some v.name, v.cfg⟩
        builds := [] }]
  /-- Where a source is put, a context can be added. -/
  placed : ∀ v ∈ variants, v.TakesSource → v.TakesContext

variable (name : String)

theorem extends_traitName : Extends name (traitName name) := by
  rw [traitName]
  split
  · rename_i hraw
    obtain ⟨bare, hbare⟩ := String.startsWith_string_iff.1 hraw
    have hname : name = "r#" ++ String.ofList bare := by
      rw [← String.toList_inj, ← hbare, String.toList_append]
      exact congrArg _ String.toList_ofList.symm
    have hdrop : (name.drop 2).toString = String.ofList bare := by
      rw [← String.toList_inj, String.toList_ofList]
      exact String.toList_copy_drop.trans (congrArg (List.drop 2) hbare.symm)
    rw [hdrop, hname]
    exact .raw _
  · rename_i hplain
    refine .plain fun bare hname => hplain (String.startsWith_string_iff.2 ⟨bare.toList, ?_⟩)
    rw [hname, String.toList_append]

theorem sourceImpls_eq_nil {v : Variant} (h : ¬v.TakesSource) : sourceImpls name v = [] := by
  rw [sourceImpls]
  split
  · rename_i source hsource
    have hmem := Variant.isSome_source?_iff.1 (Option.isSome_of_mem hsource)
    rw [if_pos]
    by_contra hinternal
    exact h ⟨hmem, fun hname => hinternal ((Variant.isInternal_iff v).2 hname)⟩
  · rfl

theorem converts_sourceImpls {v : Variant} (h : v.TakesSource) :
    Converts name (traitName name) v (sourceImpls name v) := by
  obtain ⟨source, hsource⟩ := Option.isSome_iff_exists.1 (Variant.isSome_source?_iff.2 h.1)
  have hinternal : ¬v.isInternal = true := fun hi => h.2 ((Variant.isInternal_iff v).1 hi)
  rw [sourceImpls, hsource]
  simp only [if_neg hinternal]
  exact .intro (Variant.source?_eq_some_iff.1 hsource)

/-- The variants that no source becomes have no implementations of this sort. -/
theorem flatMap_sourceImpls : ∀ variants : List Variant, variants.flatMap (sourceImpls name)
    = ((variants.filter (·.TakesSource)).map (sourceImpls name)).flatten
  | [] => rfl
  | v :: rest => by
    rw [List.flatMap_cons, flatMap_sourceImpls rest, List.filter_cons]
    split
    · rfl
    · rename_i h
      rw [sourceImpls_eq_nil name (by simpa using h), List.nil_append]

theorem convertsTexts_textImpls (variants : List Variant) :
    ConvertsTexts name variants (textImpls name variants) := by
  rw [textImpls]
  split
  · rename_i v hv
    have hfirst := (find?_eq_some_iff_first Variant.isInternal_iff).1 hv
    rw [hfirst.holds]
    exact .first hfirst
  · rename_i hnone
    rw [List.find?_eq_none] at hnone
    exact .none fun v hv hname => hnone v hv ((Variant.isInternal_iff v).2 hname)

theorem provides_implsOf {variants : List Variant} (h : ∀ v ∈ variants, ¬v.Unfit) :
    Provides name variants (implsOf name variants) where
  parts := by
    refine ⟨traitName name, (variants.filter (·.TakesSource)).map (sourceImpls name), _,
      extends_traitName name, List.forall₂_map_right_iff.2 (List.forall₂_same.2 fun v hv => ?_),
      convertsTexts_textImpls name variants, ?_⟩
    · exact converts_sourceImpls name (by simpa using (List.mem_filter.1 hv).2)
    · have hcontext : variants.filter Variant.hasContext = variants.filter (·.TakesContext) :=
        List.filter_congr fun v _ => by
          rw [Bool.eq_iff_iff, Variant.hasContext_iff, decide_eq_true_iff, Variant.TakesContext]
      rw [implsOf, flatMap_sourceImpls, contextImpl, hcontext, kindImpl]
  placed v hv := Variant.takesContext_of_takesSource (h v hv)

variable (derives : List Derivation) {e : Expansion}

theorem expand_eq_error_iff :
    expand ⟨name, derives, .enum variants⟩ = .error r ↔ refusal? variants = some r := by
  rcases h : refusal? variants with _ | r' <;> simp [expand, h]

theorem expand_eq_ok_iff : expand ⟨name, derives, .enum variants⟩ = .ok e ↔
    refusal? variants = none ∧ ofVariants ⟨name, derives, .enum variants⟩ variants = e := by
  rcases h : refusal? variants with _ | r <;> simp [expand, h]

/-- An error type is refused just when one of its variants is unfit, for the first of the first sort
that there is, and comes with all that it should otherwise. -/
theorem expand_enum (name : String) (derives : List Derivation) (variants : List Variant) :
    ((∃ r, expand ⟨name, derives, .enum variants⟩ = .error r) ↔ ∃ v ∈ variants, v.Unfit) ∧
    (∀ r, expand ⟨name, derives, .enum variants⟩ = .error r ↔ Refused variants r) ∧
    ((∃ e, expand ⟨name, derives, .enum variants⟩ = .ok e ∧ Provides name variants e.impls) ↔
      ∀ v ∈ variants, ¬v.Unfit) := by
  have herror : ∀ r, expand ⟨name, derives, .enum variants⟩ = .error r ↔ Refused variants r :=
    fun r => (expand_eq_error_iff name derives).trans refusal?_eq_some_iff
  refine ⟨?_, herror, ?_⟩
  · simp only [herror, exists_refused_iff]
  · simp only [expand_eq_ok_iff, refusal?_eq_none_iff]
    exact ⟨fun ⟨e, ⟨hfit, _⟩, _⟩ => hfit,
      fun hfit => ⟨_, ⟨hfit, rfl⟩, provides_implsOf name hfit⟩⟩

-- The first variant lacks a context, but the second has no names for its fields.
example : expand ⟨"AppError", [], .enum [
    ⟨"Io", [], some [⟨"source", "Error", .path "Error" [], []⟩]⟩, ⟨"Other", [], none⟩]⟩
    = .error .unnamedFields := rfl

end Registrar.ErrorType
