import Registrar.Hash.Sha256

/-!
# Verification tokens

A token proves control of a hostname: only who knows the key of the domain can tell the token of a
registration.
-/

namespace Registrar

/-- A way to derive the token of a registration from the domain's key and the registration's uid. -/
abbrev TokenScheme := String → String → String

namespace Token

/-- The bytes that a derived token tells. -/
def size : Nat :=
  32

/-- A token as the hexadecimal text of a derived key. -/
def derived : TokenScheme := fun key nonce =>
  Hash.hex (Hash.derive key.toUTF8.toList nonce.toUTF8.toList)

/-- A token that hides nothing. -/
def plain : TokenScheme := fun key nonce =>
  key ++ ":" ++ nonce

end Token

end Registrar
