/-!
# The form of a type

A type, as far as its last path segment tells what it is: the name there and the arguments in angle
brackets behind it. Types that are not paths have no such form.
-/

namespace Registrar.ErrorType

mutual

inductive TypeForm
  | path (name : String) (arguments : List Argument)
  | other

inductive Argument
  | lifetime (name : String)
  | type (form : TypeForm)
  | other

end

namespace TypeForm

/-- The name of the last path segment. -/
def name? : TypeForm → Option String
  | path name _ => some name
  | other => none

def arguments : TypeForm → List Argument
  | path _ arguments => arguments
  | other => []

/-- Whether the first two arguments are the lifetime and the type of a static text. -/
def isStaticText : List Argument → Bool
  | .lifetime life :: .type form :: _ => life == "static" && form.name? == some "str"
  | _ => false

/-- Whether the first argument is a static text that may be borrowed. -/
def holdsText : List Argument → Bool
  | .type form :: _ => form.name? == some "Cow" && isStaticText form.arguments
  | _ => false

/-- Whether this is `Option<Cow<'static, str>>`, whatever the paths in front of the names and the
arguments behind those that count. -/
def isContext (form : TypeForm) : Bool :=
  form.name? == some "Option" && holdsText form.arguments

end TypeForm

end Registrar.ErrorType
