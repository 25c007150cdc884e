import Registrar.Metadata

/-!
# Sets of references

A domain lists the registrations bound to it in the order they came, each incarnation once.
-/

namespace Registrar.References

def contains (set : List Reference) (r : Reference) : Bool :=
  set.any (·.sameObject r)

/-- Puts a reference behind the others, unless its object is among them. -/
def append (set : List Reference) (r : Reference) : List Reference :=
  if contains set r then set else set ++ [r]

/-- Drops every reference to an object. -/
def remove (set : List Reference) (r : Reference) : List Reference :=
  set.filter (fun s => !s.sameObject r)

end Registrar.References
