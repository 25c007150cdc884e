import Registrar.SortedMap

/-!
# JSON values

Resources are kept and exchanged as JSON. A value that has been read for keeps lists the members of
its objects in ascending order of their names, each name once; a text just read may not.
-/

namespace Registrar

/-- An integer of 64 bits, signed or not, or a double given by its bits. -/
inductive Json.Number where
  | int (n : Int)
  | float (bits : UInt64)
  deriving DecidableEq

inductive Json where
  | null
  | bool (b : Bool)
  | number (n : Json.Number)
  | string (s : String)
  | array (items : List Json)
  | object (members : List (String × Json))

instance : Inhabited Json :=
  ⟨.null⟩

instance : Coe String Json :=
  ⟨.string⟩

instance : Coe Bool Json :=
  ⟨.bool⟩

namespace Json

/-- A count or a version. -/
def natural (n : Nat) : Json :=
  .number (.int n)

/-- The two zeros of a double are the same number. -/
def Number.same : Number → Number → Bool
  | .int m, .int n => m == n
  | .float b, .float c => b == c || (b <<< 1 == 0 && c <<< 1 == 0)
  | _, _ => false

mutual

/-- Two values are the same when they differ at most in the sign of a zero. -/
def same : Json → Json → Bool
  | .null, .null => true
  | .bool a, .bool b => a == b
  | .number m, .number n => m.same n
  | .string s, .string t => s == t
  | .array as, .array bs => sameItems as bs
  | .object as, .object bs => sameMembers as bs
  | _, _ => false

def sameItems : List Json → List Json → Bool
  | [], [] => true
  | a :: as, b :: bs => a.same b && sameItems as bs
  | _, _ => false

def sameMembers : List (String × Json) → List (String × Json) → Bool
  | [], [] => true
  | (m, a) :: as, (n, b) :: bs => m == n && a.same b && sameMembers as bs
  | _, _ => false

end

instance : BEq Json :=
  ⟨same⟩

def isObject : Json → Bool
  | .object _ => true
  | _ => false

def member? (value : Json) (name : String) : Option Json :=
  match value with
  | .object members => lookupEntry name members
  | _ => none

/-- Sets a member of an object; what is not an object stays as it is. -/
def setMember (target : Json) (name : String) (value : Json) : Json :=
  match target with
  | .object members => .object (insertEntry name value members)
  | other => other

/-- Drops a member of an object; what is not an object stays as it is. -/
def dropMember (target : Json) (name : String) : Json :=
  match target with
  | .object members => .object (eraseEntry name members)
  | other => other

/-- An object of the members that are present. -/
def record (members : List (String × Option Json)) : Json :=
  .object (members.filterMap (fun m => m.2.map (m.1, ·)))

/-- An object whose members are put in order, the last of several with one name. -/
def ofMembers (members : List (String × Json)) : Json :=
  .object (members.foldl (fun filed m => insertEntry m.1 m.2 filed) [])

def string? : Json → Option String
  | .string s => some s
  | _ => none

def bool? : Json → Option Bool
  | .bool b => some b
  | _ => none

def int? : Json → Option Int
  | .number (.int n) => some n
  | _ => none

def array? : Json → Option (List Json)
  | .array items => some items
  | _ => none

def object? : Json → Option (List (String × Json))
  | .object members => some members
  | _ => none

/-- An integer below a bound. -/
def below? (bound : Nat) (value : Json) : Option Nat := do
  let n ← value.int?
  if 0 ≤ n ∧ n < bound then some n.toNat else none

end Json

end Registrar
