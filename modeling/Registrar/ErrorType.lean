import Registrar.ErrorType.TypeForm

/-!
# Declarations of error types

An error type is an enum whose variants have named fields. A variant may carry the error that caused
it, in its source field, and a context, a text that says what was being done. A variant with a
condition is part of the type only where the condition holds.
-/

namespace Registrar.ErrorType

structure Field where
  name : String
  typeText : String
  type : TypeForm
  /-- The paths of the attributes on the field. -/
  marks : List String

namespace Field

/-- Whether the field holds the error that caused this one, by its name or by a mark. -/
def isSource (field : Field) : Bool :=
  field.name == "source" || field.marks.contains "source" || field.marks.contains "from"

end Field

structure Variant where
  name : String
  /-- The conditions under which the variant is there. -/
  cfg : List String
  /-- The fields, if they have names. -/
  fields : Option (List Field)

namespace Variant

def members (v : Variant) : List Field :=
  v.fields.getD []

/-- The field named for the context, the first if there are several. -/
def contextField? (v : Variant) : Option Field :=
  v.members.find? (·.name == "context")

def hasContext (v : Variant) : Bool :=
  v.contextField?.isSome

/-- The field that holds the cause, the first if there are several. -/
def source? (v : Variant) : Option Field :=
  v.members.find? (·.isSource)

/-- Whether texts become errors of this variant. -/
def isInternal (v : Variant) : Bool :=
  v.name == "Internal"

end Variant

/-- A list of derived traits as it is written, and the names of the traits that it is known by. -/
structure Derivation where
  text : String
  names : List String

inductive Body
  | enum (variants : List Variant)
  | fields

structure Declaration where
  name : String
  derives : List Derivation
  body : Body

namespace Declaration

def derivesTrait (d : Declaration) (name : String) : Bool :=
  d.derives.any (name ∈ ·.names)

end Declaration

end Registrar.ErrorType
