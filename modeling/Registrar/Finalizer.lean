import Registrar.Store.Call

/-!
# Finalizers

A marker on an object keeps the store from removing it until the marker is taken off.
-/

namespace Registrar.Finalizer

variable {R : Type} [Resource R]

/-- Puts a marker on an object, and tells whether it was missing. -/
def ensure (object : R) (marker : String) : Program (Except StoreError (R × Bool)) :=
  if (Resource.metadata object).hasFinalizer marker then .done (.ok (object, false))
  else
    let marked :=
      Resource.withMetadata object ((Resource.metadata object).addFinalizer marker)
    .call (.patch object marked) fun answer => .done (answer.map (·, true))

/-- Takes a marker off an object, and tells whether it was there. -/
def release (object : R) (marker : String) : Program (Except StoreError Bool) :=
  if !(Resource.metadata object).hasFinalizer marker then .done (.ok false)
  else
    let bare :=
      Resource.withMetadata object ((Resource.metadata object).removeFinalizer marker)
    .call (.patch object bare) fun answer => .done (answer.map (fun _ => true))

end Registrar.Finalizer
