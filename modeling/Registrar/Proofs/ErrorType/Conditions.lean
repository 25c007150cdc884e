import Registrar.Proofs.ErrorType.Acceptance

/-!
# Conditional variants

Each implementation and each arm that is there for one variant carries the conditions of that
variant, so what is left of them where the conditions are decided is what the enabled variants come
with (`remaining_sourceImpls`, `enabled_kindImpl`). Only the conversions from texts are there for
several variants, those of one name, and carry the conditions of the first: they are lost where it is
not enabled and a later one is (`enabled_iff_not_shadowed`).
-/

namespace Registrar.ErrorType

open Expansion

variable (holds : String → Bool) (name : String)

/-- The conditions of a variant hold. -/
def Variant.Enabled (v : Variant) : Prop :=
  ∀ condition ∈ v.cfg, holds condition = true

/-- The first variant for texts is not enabled, and another one is. -/
def Shadowed (variants : List Variant) : Prop :=
  ∃ first, First (·.name = "Internal") variants first ∧ ¬first.Enabled holds ∧
    ∃ v ∈ variants, v.name = "Internal" ∧ v.Enabled holds

theorem Variant.mem_enabled {variants : List Variant} {v : Variant} :
    v ∈ Variant.enabled holds variants ↔ v ∈ variants ∧ v.Enabled holds := by
  rw [Variant.enabled, List.mem_filter, List.all_eq_true, Variant.Enabled]

/-- What is left of implementations where the conditions are decided. -/
def remaining (impls : List Implementation) : List Implementation :=
  (impls.filter (·.cfg.all holds)).map (Implementation.enabled holds)

theorem remaining_append (impls impls' : List Implementation) :
    remaining holds (impls ++ impls') = remaining holds impls ++ remaining holds impls' := by
  rw [remaining, List.filter_append, List.map_append, remaining, remaining]

/-- Implementations without arms, all under the conditions of one variant, are left together. -/
theorem remaining_of_cfg {cfg : List String} : ∀ {impls : List Implementation},
    (∀ i ∈ impls, i.cfg = cfg ∧ i.arms = []) →
      remaining holds impls = if cfg.all holds then impls else []
  | [], _ => by simp [remaining]
  | i :: rest, h => by
    obtain ⟨hcfg, harms⟩ := h i List.mem_cons_self
    have hself : Implementation.enabled holds i = i := by
      rw [Implementation.enabled, harms, List.filter_nil, ← harms]
    have ih := remaining_of_cfg fun j hj => h j (List.mem_cons_of_mem i hj)
    rw [remaining] at ih ⊢
    rw [List.filter_cons, hcfg]
    split
    · rename_i hholds
      rw [List.map_cons, ih, hself, if_pos hholds]
    · rename_i hholds
      rw [ih, if_neg hholds]

theorem cfg_of_mem_sourceImpls {v : Variant} :
    ∀ i ∈ sourceImpls name v, i.cfg = v.cfg ∧ i.arms = [] := by
  intro i hi
  rw [sourceImpls] at hi
  split at hi
  · split at hi
    · cases hi
    · simp only [List.mem_cons, List.not_mem_nil, or_false] at hi
      rcases hi with rfl | rfl <;> exact ⟨rfl, rfl⟩
  · cases hi

theorem remaining_sourceImpls : ∀ variants : List Variant,
    remaining holds (variants.flatMap (sourceImpls name))
      = (Variant.enabled holds variants).flatMap (sourceImpls name)
  | [] => rfl
  | v :: rest => by
    rw [List.flatMap_cons, remaining_append, remaining_sourceImpls rest,
      remaining_of_cfg holds (cfg_of_mem_sourceImpls name), Variant.enabled, Variant.enabled,
      List.filter_cons]
    split
    · rw [List.flatMap_cons]
    · rw [List.nil_append]

theorem enabled_contextImpl (variants : List Variant) :
    Implementation.enabled holds (contextImpl name variants)
      = contextImpl name (Variant.enabled holds variants) := by
  have harms : ((variants.filter Variant.hasContext).map fun v => (⟨v.name, none, v.cfg⟩ : Arm)).filter
      (·.cfg.all holds) = ((Variant.enabled holds variants).filter Variant.hasContext).map
        fun v => ⟨v.name, none, v.cfg⟩ := by
    rw [List.filter_map, Variant.enabled, List.filter_filter, List.filter_filter]
    simp only [Function.comp_def, Bool.and_comm]
  rw [Implementation.enabled, contextImpl, harms, contextImpl]

theorem enabled_kindImpl (variants : List Variant) :
    Implementation.enabled holds (kindImpl name variants)
      = kindImpl name (Variant.enabled holds variants) := by
  rw [Implementation.enabled, kindImpl, List.filter_map, kindImpl, Variant.enabled]
  rfl

section Texts

variable {holds name} {variants : List Variant} {first : Variant}

theorem textImpls_of_first (h : First (·.name = "Internal") variants first) :
    textImpls name variants ≠ [] ∧
      ∀ i ∈ textImpls name variants, i.cfg = first.cfg ∧ i.arms = [] := by
  rw [textImpls, (find?_eq_some_iff_first Variant.isInternal_iff).2 h]
  simp

theorem textImpls_eq_nil (h : ∀ v ∈ variants, v.name ≠ "Internal") :
    textImpls name variants = [] := by
  have hnone : variants.find? Variant.isInternal = none :=
    List.find?_eq_none.2 fun v hv hi => h v hv ((Variant.isInternal_iff v).1 hi)
  rw [textImpls, hnone]

theorem first_enabled (h : First (·.name = "Internal") variants first)
    (henabled : first.Enabled holds) :
    First (·.name = "Internal") (Variant.enabled holds variants) first := by
  obtain ⟨front, back, rfl, hname, hfront⟩ := h
  refine ⟨Variant.enabled holds front, Variant.enabled holds back, ?_, hname, fun v hv =>
    hfront v ((Variant.mem_enabled holds).1 hv).1⟩
  rw [Variant.enabled, List.filter_append, List.filter_cons, if_pos (List.all_eq_true.2 henabled),
    Variant.enabled, Variant.enabled]

/-- The conversions that are left are those of the enabled variants, unless these are shadowed. -/
theorem remaining_textImpls (h : ¬Shadowed holds variants) :
    remaining holds (textImpls name variants)
      = textImpls name (Variant.enabled holds variants) := by
  by_cases hinternal : ∃ v ∈ variants, v.name = "Internal"
  · obtain ⟨first, hfirst⟩ := exists_first_iff.2 hinternal
    rw [remaining_of_cfg holds (textImpls_of_first hfirst).2]
    split
    · rename_i henabled
      have hstill := first_enabled hfirst (List.all_eq_true.1 henabled)
      rw [textImpls, textImpls, (find?_eq_some_iff_first Variant.isInternal_iff).2 hfirst,
        (find?_eq_some_iff_first Variant.isInternal_iff).2 hstill]
    · rename_i hdisabled
      refine (textImpls_eq_nil fun v hv hname => ?_).symm
      obtain ⟨hmem, henabled⟩ := (Variant.mem_enabled holds).1 hv
      exact h ⟨first, hfirst, fun hall => hdisabled (List.all_eq_true.2 hall), v, hmem, hname,
        henabled⟩
  · have hnone : ∀ v ∈ variants, v.name ≠ "Internal" := fun v hv hname => hinternal ⟨v, hv, hname⟩
    rw [textImpls_eq_nil hnone,
      textImpls_eq_nil fun v hv => hnone v ((Variant.mem_enabled holds).1 hv).1]
    rfl

/-- Where enabled variants are shadowed, no conversion is left. -/
theorem remaining_textImpls_of_shadowed (name : String) (h : Shadowed holds variants) :
    remaining holds (textImpls name variants) = [] ∧
      textImpls name (Variant.enabled holds variants) ≠ [] := by
  obtain ⟨first, hfirst, hdisabled, v, hv, hname, henabled⟩ := h
  constructor
  · rw [remaining_of_cfg holds (textImpls_of_first hfirst).2,
      if_neg fun hall => hdisabled (List.all_eq_true.1 hall)]
  · obtain ⟨w, hw⟩ := (exists_first_iff (P := fun v => v.name = "Internal")).2
      ⟨v, (Variant.mem_enabled holds).2 ⟨hv, henabled⟩, hname⟩
    exact (textImpls_of_first hw).1

end Texts

theorem remaining_implsOf (variants : List Variant) : remaining holds (implsOf name variants)
    = contextImpl name (Variant.enabled holds variants)
      :: (Variant.enabled holds variants).flatMap (sourceImpls name)
      ++ remaining holds (textImpls name variants)
      ++ [kindImpl name (Variant.enabled holds variants)] := by
  have hcontext : remaining holds [contextImpl name variants]
      = [contextImpl name (Variant.enabled holds variants)] := by
    rw [← enabled_contextImpl]
    rfl
  have hkind : remaining holds [kindImpl name variants]
      = [kindImpl name (Variant.enabled holds variants)] := by
    rw [← enabled_kindImpl]
    rfl
  rw [implsOf, ← List.singleton_append, remaining_append, remaining_append, remaining_append,
    remaining_sourceImpls, hcontext, hkind, List.singleton_append]

/-- Where the conditions are decided, what is left of an expansion is the expansion of the enabled
variants just when none of these is shadowed. If one is, the conversions from texts are lacking and
all else is left. -/
theorem enabled_iff_not_shadowed {name : String} {derives : List Derivation}
    {variants : List Variant} {e : Expansion}
    (h : expand ⟨name, derives, .enum variants⟩ = .ok e) (holds : String → Bool) :
    ∃ e', expand ⟨name, derives, .enum (Variant.enabled holds variants)⟩ = .ok e' ∧
      Provides name (Variant.enabled holds variants) e'.impls ∧
      (e.enabled holds = e'.impls ↔ ¬Shadowed holds variants) ∧
      (Shadowed holds variants → ∃ front texts kind, texts ≠ [] ∧
        e'.impls = front ++ texts ++ [kind] ∧ e.enabled holds = front ++ [kind]) := by
  obtain ⟨haccepted, rfl⟩ := (expand_eq_ok_iff name derives).1 h
  have hfit : ∀ v ∈ Variant.enabled holds variants, ¬v.Unfit := fun v hv =>
    refusal?_eq_none_iff.1 haccepted v ((Variant.mem_enabled holds).1 hv).1
  refine ⟨_, (expand_eq_ok_iff name derives).2 ⟨refusal?_eq_none_iff.2 hfit, rfl⟩,
    provides_implsOf name hfit, ?_⟩
  change (remaining holds (implsOf name variants) = implsOf name _ ↔ _) ∧ (_ →
    ∃ front texts kind, texts ≠ [] ∧ implsOf name _ = front ++ texts ++ [kind] ∧
      remaining holds (implsOf name variants) = front ++ [kind])
  rw [remaining_implsOf, implsOf]
  refine ⟨⟨fun heq hshadowed => ?_, fun hnot => by rw [remaining_textImpls hnot]⟩,
    fun hshadowed => ?_⟩
  · obtain ⟨hnil, htexts⟩ := remaining_textImpls_of_shadowed name hshadowed
    rw [hnil] at heq
    exact htexts (by simpa using heq)
  · obtain ⟨hnil, htexts⟩ := remaining_textImpls_of_shadowed name hshadowed
    exact ⟨_, _, _, htexts, rfl, by rw [hnil, List.append_nil]⟩

namespace Gated

def context : Field :=
  ⟨"context", "Option<Cow<'static,str>>",
    .path "Option" [.type (.path "Cow" [.lifetime "static", .type (.path "str" [])])], []⟩

/-- A variant with a source of a type of this name. -/
def caused (name type condition : String) : Variant :=
  ⟨name, [condition], some [⟨"source", type, .path type [], []⟩, context]⟩

/-- A variant for texts. -/
def internal (cfg : List String) : Variant :=
  ⟨"Internal", cfg, some [⟨"message", "String", .path "String" [], []⟩, context]⟩

/-- Two variants under conditions, and one for texts under none. -/
def gated : List Variant :=
  [caused "Io" "Error" "any()", caused "Parse" "ParseIntError" "all()", internal []]

/-- Of two variants for texts the second alone is enabled. -/
def doubled : List Variant :=
  [internal ["unix"], internal ["windows"]]

theorem gated_left : ∃ e e', expand ⟨"GatedError", [], .enum gated⟩ = .ok e ∧
    expand ⟨"GatedError", [], .enum [caused "Parse" "ParseIntError" "all()", internal []]⟩ = .ok e' ∧
    e.enabled (· == "all()") = e'.impls := by
  have h : expand ⟨"GatedError", [], .enum gated⟩
      = .ok (ofVariants ⟨"GatedError", [], .enum gated⟩ gated) := rfl
  obtain ⟨e', he', -, hiff, -⟩ := enabled_iff_not_shadowed h (· == "all()")
  refine ⟨_, e', h, he', hiff.2 ?_⟩
  rintro ⟨first, hfirst, hdisabled, -⟩
  have hmem := hfirst.mem
  have hname := hfirst.holds
  simp only [gated, List.mem_cons, List.not_mem_nil, or_false] at hmem
  rcases hmem with rfl | rfl | rfl
  · simp [caused] at hname
  · simp [caused] at hname
  · exact hdisabled (by simp [Variant.Enabled, internal])

/-- Of two variants for texts the second loses its conversions with the first. -/
theorem second_texts_lost : ¬∀ (name : String) (derives : List Derivation) (variants : List Variant)
    (e : Expansion) (holds : String → Bool), expand ⟨name, derives, .enum variants⟩ = .ok e →
    ∃ e', expand ⟨name, derives, .enum (Variant.enabled holds variants)⟩ = .ok e' ∧
      e.enabled holds = e'.impls := by
  intro h
  obtain ⟨e', he', hsame⟩ := h "AppError" [] doubled _ (· == "windows") rfl
  obtain rfl := Except.ok.inj he'
  revert hsame
  decide +kernel

end Gated

end Registrar.ErrorType
