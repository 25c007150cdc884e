import Registrar.Text

/-!
# Hostnames

A hostname is a row of labels with dots between. Its normal form has small letters and no dot at the
end; the record that proves control of it stands under a further label in front.
-/

namespace Registrar

inductive Hostname.Fault where
  | empty
  | tooLong
  | emptyLabel
  | labelTooLong (label : String)
  | badCharacter (label : String)
  | hyphenAtEnd (label : String)
  | recordTooLong
  | other (reason : String)
  deriving DecidableEq

/-- A hostname for which no name can be formed. -/
structure HostnameError where
  hostname : String
  fault : Hostname.Fault
  context : Option String := none
  deriving DecidableEq

namespace Hostname

def maxLabel : Nat :=
  63

def maxName : Nat :=
  253

def Fault.reason : Fault → String
  | .empty => "hostname is empty"
  | .tooLong => s!"hostname exceeds {maxName} bytes"
  | .emptyLabel => "empty label"
  | .labelTooLong label => s!"label '{label}' exceeds {maxLabel} bytes"
  | .badCharacter label => s!"label '{label}' has characters outside [a-z0-9-]"
  | .hyphenAtEnd label => s!"label '{label}' starts or ends with '-'"
  | .recordTooLong => s!"record name exceeds {maxName} bytes"
  | .other reason => reason

def byteLength : List Char → Nat
  | [] => 0
  | c :: rest => c.utf8Size + byteLength rest

/-- The parts of a text between its dots. -/
def labels : List Char → List (List Char)
  | [] => [[]]
  | c :: rest =>
    if c = '.' then [] :: labels rest
    else match labels rest with
      | [] => [[c]]
      | label :: others => (c :: label) :: others

/-- A text without one dot at its end. -/
def withoutDot (cs : List Char) : List Char :=
  if cs.getLast? = some '.' then cs.dropLast else cs

def isLabelChar (c : Char) : Bool :=
  c.isAlphanum || c == '-'

def labelFault? (label : List Char) : Option Fault :=
  if label.isEmpty then some .emptyLabel
  else if maxLabel < byteLength label then some (.labelTooLong (String.ofList label))
  else if !label.all isLabelChar then some (.badCharacter (String.ofList label))
  else if label.head? = some '-' ∨ label.getLast? = some '-' then
    some (.hyphenAtEnd (String.ofList label))
  else none

/-- The first thing wrong with a hostname that has no dot at its end. -/
def fault? (cs : List Char) : Option Fault :=
  if cs.isEmpty then some .empty
  else if maxName < byteLength cs then some .tooLong
  else (labels cs).findSome? labelFault?

def normalize (hostname : String) : Except HostnameError String :=
  let cs := withoutDot hostname.toList
  match fault? cs with
  | some fault => .error { hostname, fault }
  | none => .ok (String.ofList (cs.map Char.toLower))

/-- The label in front of a hostname under which its owner proves control, unless set otherwise. -/
def defaultRecordLabel : String :=
  "_hostbind-verification"

/-- The name of the record under which the owner of a hostname proves control of it. -/
def recordName (label hostname : String) : Except HostnameError String := do
  let normal ← normalize hostname
  let name := label ++ "." ++ normal
  if maxName < byteLength name.toList then
    throw { hostname := normal, fault := .recordTooLong }
  return name

end Hostname

namespace HostnameError

def message (e : HostnameError) : String :=
  s!"Invalid hostname '{e.hostname}'{Context.suffix e.context}: {e.fault.reason}"

end HostnameError

end Registrar
