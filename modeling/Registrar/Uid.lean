/-!
# Uids

Every object ever created gets a uid of its own: the number of ids handed out, in digits that are not
easily mistaken for each other.
-/

namespace Registrar.Uid

/-- The digits of a uid, without those that look alike. -/
def alphabet : List Char :=
  "23456789ABCDEFGHJKLMNPQRSTUVWXYZabcdefghjkmnpqrstuvwxyz".toList

/-- The least number of characters of a uid. -/
def width : Nat :=
  12

/-- The digits of a number in the base that the alphabet gives, the lowest first. -/
def digits (fuel n : Nat) : List Char :=
  match fuel with
  | 0 => []
  | fuel + 1 =>
    if n = 0 then [] else alphabet.getD (n % 55) '2' :: digits fuel (n / 55)

def nth (n : Nat) : String :=
  let low := digits (n + 1) n
  String.ofList (List.replicate (width - low.length) '2' ++ low.reverse)

end Registrar.Uid
