import Registrar.ErrorType

/-!
# Expansion of error types

What comes with an error type: a trait that adds a context to results, a conversion from each source,
conversions from texts for the internal variant, and a name for each variant. `expand` refuses a
declaration that is no enum or has an unfit variant. Each piece carries the conditions of the variant
it is there for.
-/

namespace Registrar.ErrorType

inductive Refusal
  | noEnum
  | unnamedFields
  | contextType
  | sourceWithoutContext
deriving DecidableEq, Repr

namespace Refusal

def message : Refusal → String
  | noEnum => "hostbind_error can only be applied to enums"
  | unnamedFields => "hostbind_error requires named fields for source/context handling"
  | contextType => "context field must be Option<Cow<'static, str>>"
  | sourceWithoutContext =>
    "hostbind_error requires `context: Option<Cow<'static, str>>` for variants with a source"

end Refusal

namespace Variant

/-- What is wrong with the fields of a variant. -/
def formFault? (v : Variant) : Option Refusal :=
  if v.fields.isNone then some .unnamedFields
  else if v.contextField?.any (!·.type.isContext) then some .contextType
  else none

/-- A variant with a source needs a place for the context. -/
def sourceFault? (v : Variant) : Option Refusal :=
  if v.source?.isSome && !v.hasContext then some .sourceWithoutContext else none

end Variant

/-- Why variants are refused. The fields of all of them are looked at before the sources. -/
def refusal? (variants : List Variant) : Option Refusal :=
  variants.findSome? Variant.formFault? <|> variants.findSome? Variant.sourceFault?

/-- An arm of a match on a variant, with the text that it yields. -/
structure Arm where
  variant : String
  label : Option String
  cfg : List String
deriving DecidableEq, Repr

/-- An implementation: of a trait or of the type itself, with the values that its methods build. -/
structure Implementation where
  interface : Option String
  target : String
  cfg : List String
  methods : List String
  arms : List Arm
  builds : List String
deriving DecidableEq, Repr

structure Expansion where
  derives : List String
  variants : List String
  traits : List String
  functions : List String
  impls : List Implementation
deriving DecidableEq, Repr

namespace Expansion

/-- The trait of results that a context can be added to. The mark of a raw name is left out. -/
def traitName (name : String) : String :=
  (if name.startsWith "r#" then (name.drop 2).toString else name) ++ "Ext"

/-- The value of a variant with two fields. -/
def built (variant field : String) : String :=
  variant ++ "\x7b" ++ field ++ ",context\x7d"

section

variable (name : String)

/-- A context can be added to results with this error. -/
def contextImpl (variants : List Variant) : Implementation where
  interface := some (traitName name ++ "<T>")
  target := "Result<T," ++ name ++ ">"
  cfg := []
  methods := ["context"]
  arms := (variants.filter Variant.hasContext).map fun v => ⟨v.name, none, v.cfg⟩
  builds := []

/-- A source becomes this error, alone or with a context. -/
def sourceImpls (v : Variant) : List Implementation :=
  match v.source? with
  | some field =>
    if v.isInternal then [] else
      let builds := [built v.name field.name]
      [⟨some ("From<" ++ field.typeText ++ ">"), name, v.cfg, ["from"], [], builds⟩,
        ⟨some (traitName name ++ "<T>"), "std::result::Result<T," ++ field.typeText ++ ">", v.cfg,
          ["context"], [], builds⟩]
  | none => []

/-- Texts become errors of the internal variant, the first if there are several. -/
def textImpls (variants : List Variant) : List Implementation :=
  match variants.find? Variant.isInternal with
  | some v => ["&'staticstr", "String"].map fun type =>
      ⟨some ("From<" ++ type ++ ">"), name, v.cfg, ["from"], [], [built v.name "message"]⟩
  | none => []

/-- Each variant is known by its name. -/
def kindImpl (variants : List Variant) : Implementation where
  interface := none
  target := name
  cfg := []
  methods := ["kind"]
  arms := variants.map fun v => ⟨v.name, some v.name, v.cfg⟩
  builds := []

def implsOf (variants : List Variant) : List Implementation :=
  contextImpl name variants :: variants.flatMap (sourceImpls name)
    ++ textImpls name variants ++ [kindImpl name variants]

end

/-- Traits that an error derives, each added unless it is derived already. -/
def addedDerives (d : Declaration) : List String :=
  (if d.derivesTrait "Debug" then [] else ["Debug"])
    ++ (if d.derivesTrait "Error" then [] else ["::thiserror::Error"])

/-- All derives of a declaration, the added ones in front. -/
def derivesOf (d : Declaration) : List String :=
  (if addedDerives d = [] then [] else [",".intercalate (addedDerives d)])
    ++ d.derives.map (·.text)

def ofVariants (d : Declaration) (variants : List Variant) : Expansion where
  derives := derivesOf d
  variants := variants.map (·.name)
  traits := [traitName d.name]
  functions := ["format_context"]
  impls := implsOf d.name variants

end Expansion

def expand (d : Declaration) : Except Refusal Expansion :=
  match d.body with
  | .fields => .error .noEnum
  | .enum variants =>
    match refusal? variants with
    | some refusal => .error refusal
    | none => .ok (.ofVariants d variants)

section

variable (holds : String → Bool)

/-- The variants whose conditions hold. -/
def Variant.enabled (variants : List Variant) : List Variant :=
  variants.filter (·.cfg.all holds)

/-- An implementation without the arms whose conditions fail. -/
def Implementation.enabled (i : Implementation) : Implementation :=
  { i with arms := i.arms.filter (·.cfg.all holds) }

/-- The implementations whose conditions hold. -/
def Expansion.enabled (e : Expansion) : List Implementation :=
  (e.impls.filter (·.cfg.all holds)).map (Implementation.enabled holds)

end

end Registrar.ErrorType
