import Registrar.Domain
import Registrar.Json.Reader
import Registrar.Store.Call

/-!
# Seeding

A manifest lists objects that are to exist from the start. Those that exist already are left alone.
-/

namespace Registrar

structure Manifest where
  domains : List Domain := []
  registrations : List Registration := []
  deriving DecidableEq, Inhabited

structure SeedError where
  kind : String
  key : Key
  source : StoreError
  deriving DecidableEq

namespace SeedError

def headline (e : SeedError) : String :=
  s!"Failed to seed {e.kind} {e.key}"

def chain (e : SeedError) : List String :=
  e.headline :: e.source.chain

end SeedError

/-- What became of an object of a manifest. -/
inductive Seeded where
  | created (kind : String) (key : Key) (uid : String)
  /-- It was there before. -/
  | present (kind : String) (key : Key)
  deriving DecidableEq

def Seeded.isNew : Seeded → Bool
  | .created .. => true
  | .present .. => false

namespace Manifest

def decode? (value : Json) : Option Manifest := do
  let r ← value.fields? ["domains", "registrations"]
  return {
    domains := ← r.defaulted "domains" [] (Json.listOf? Domain.decode?)
    registrations := ← r.defaulted "registrations" [] (Json.listOf? Registration.decode?) }

def parse? (text : String) : Option Manifest :=
  Json.read? text >>= decode?

/-- Creates objects in order, up to the first that cannot be, and tells what became of them. -/
def sow {R : Type} [Resource R] : List R → Program (List Seeded × Option SeedError)
  | [] => .done ([], none)
  | object :: rest =>
    .call (.create object) fun answer =>
      match answer with
      | .ok stored => do
        let (told, failure) ← sow rest
        let new := Seeded.created (Resource.kind R) (Resource.key stored) (Resource.metadata stored).uid
        return (new :: told, failure)
      | .error e =>
        match e.cause with
        | .alreadyExists .. => do
          let (told, failure) ← sow rest
          return (.present (Resource.kind R) (Resource.key object) :: told, failure)
        | _ => .done ([], some ⟨Resource.kind R, Resource.key object, e⟩)

/-- Creates the domains of a manifest, then its registrations. -/
def sowAll (m : Manifest) : Program (List Seeded × Option SeedError) := do
  match ← sow m.domains with
  | (told, some e) => return (told, some e)
  | (told, none) =>
    let (more, failure) ← sow m.registrations
    return (told ++ more, failure)

/-- Creates the objects of a manifest and counts the new ones. -/
def apply (m : Manifest) : Program (Except SeedError Nat) := do
  match ← m.sowAll with
  | (_, some e) => return .error e
  | (told, none) => return .ok (told.countP Seeded.isNew)

end Manifest

end Registrar
