import Registrar.Json

/-!
# Records

A record is written as an object with a member for each of its fields, or as an array of its first
fields in order. Unknown members are passed over, a known one may not stand twice.
-/

namespace Registrar.Json

abbrev Record := List (String × Json)

/-- Whether no name stands twice. -/
def distinct : List String → Bool
  | [] => true
  | name :: rest => !rest.contains name && distinct rest

/-- Takes a record with these fields apart. -/
def fields? (names : List String) : Json → Option Record
  | .object members =>
    let known := members.filter (fun m => names.contains m.1)
    if distinct (known.map Prod.fst) then some known else none
  | .array items => if items.length ≤ names.length then some (names.zip items) else none
  | _ => none

namespace Record

variable {α : Type}

/-- A field that has to be there. -/
def required (r : Record) (name : String) (decode? : Json → Option α) : Option α :=
  lookupEntry name r >>= decode?

/-- A field that stands for a default when it is missing. -/
def defaulted (r : Record) (name : String) (default : α) (decode? : Json → Option α) : Option α :=
  match lookupEntry name r with
  | none => some default
  | some value => decode? value

/-- A field that may be missing or null. -/
def optional (r : Record) (name : String) (decode? : Json → Option α) : Option (Option α) :=
  match lookupEntry name r with
  | none | some .null => some none
  | some value => some <$> decode? value

end Record

def listOf? {α : Type} (decode? : Json → Option α) : Json → Option (List α)
  | .array items => items.mapM decode?
  | _ => none

/-- The name of an enumerated value, alone or as the only member of an object that holds null. -/
def choice? : Json → Option String
  | .string name => some name
  | .object [(name, .null)] => some name
  | _ => none

def uint64? (value : Json) : Option UInt64 :=
  (value.below? UInt64.size).map UInt64.ofNat

end Registrar.Json
