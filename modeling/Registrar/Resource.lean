import Registrar.Metadata

/-!
# Resources

A kind of objects that a store can keep: how its objects are told apart, and how they are written.
-/

namespace Registrar

class Resource (R : Type) where
  kind : String
  namespaced : Bool
  /-- Whether `spec` is fixed once an object exists. -/
  immutableSpec : Bool
  metadata : R → Metadata
  withMetadata : R → Metadata → R
  encode : R → Except String Json
  decode : Json → Except String R

namespace Resource

variable {R : Type} [Resource R]

def key (object : R) : Key :=
  (metadata object).key

def isDeleting (object : R) : Bool :=
  (metadata object).isDeleting

/-- The reference to this incarnation of an object. -/
def reference (object : R) : Reference where
  apiVersion := apiVersion
  kind := kind R
  ns? := (metadata object).ns?
  name := (metadata object).name
  uid := (metadata object).uid

end Resource

end Registrar
