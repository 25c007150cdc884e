import Mathlib.Data.List.Lex
import Registrar.Metadata

/-!
# The order of keys

Texts are compared by their characters. The bytes that UTF-8 makes of a character come before those
of any later character, whatever follows either (`encode_append_lt`), so texts are in the order of
their bytes, and keys in that of the bytes of their namespaces and names (`Key.before_of_compare`).
-/

namespace Registrar

namespace Text

/-- The bytes of a text in UTF-8. -/
def bytes (text : String) : List UInt8 :=
  text.toUTF8.data.toList

theorem bytes_eq_flatMap (text : String) :
    bytes text = text.toList.flatMap String.utf8EncodeChar := by
  rw [bytes, String.toUTF8_eq_toByteArray, ← String.utf8Encode_toList, List.utf8Encode]
  simp

theorem encode_append_lt {c d : Char} (h : c < d) (us vs : List UInt8) :
    String.utf8EncodeChar c ++ us < String.utf8EncodeChar d ++ vs := by
  have hlt : c.val.toNat < d.val.toNat := h
  have hd : d.val.toNat < 0x110000 := by
    have hvalid := d.valid
    simp only [UInt32.isValidChar, Nat.isValidChar] at hvalid
    omega
  have hbyte : ∀ n, n < 256 → n % 2 ^ 8 = n := fun n => Nat.mod_eq_of_lt
  unfold String.utf8EncodeChar
  generalize c.val.toNat = m at hlt
  generalize d.val.toNat = n at hlt hd
  -- No character reaches the bits that the first of four bytes has no room for.
  have hm8 : m / 262144 % 8 = m / 262144 := Nat.mod_eq_of_lt (by omega)
  have hn8 : n / 262144 % 8 = n / 262144 := Nat.mod_eq_of_lt (by omega)
  dsimp only
  split_ifs <;>
    simp (disch := omega) only [List.cons_append, List.nil_append, List.cons_lt_cons_iff,
      UInt8.lt_iff_toNat_lt, ← UInt8.toNat_inj, UInt8.toNat_ofNat', hbyte] <;>
    omega

theorem flatMap_encode_lt : ∀ {cs ds : List Char}, cs < ds →
    cs.flatMap String.utf8EncodeChar < ds.flatMap String.utf8EncodeChar
  | _, [], h => absurd h (List.not_lt_nil _)
  | [], d :: ds, _ => by
    rw [List.flatMap_nil, List.flatMap_cons]
    rcases hbytes : String.utf8EncodeChar d with _ | ⟨b, bs⟩
    · exact absurd hbytes (String.utf8EncodeChar_ne_nil)
    · exact List.nil_lt_cons _ _
  | c :: cs, d :: ds, h => by
    rw [List.flatMap_cons, List.flatMap_cons]
    rcases List.cons_lt_cons_iff.1 h with hlt | ⟨rfl, hlt⟩
    · exact encode_append_lt hlt _ _
    · exact List.append_left_lt (flatMap_encode_lt hlt)

theorem bytes_lt_of_compare {text text' : String} (h : compare text text' = .lt) :
    bytes text < bytes text' := by
  have hlt : text < text' := compareOfLessAndEq_eq_lt.1 h
  rw [bytes_eq_flatMap, bytes_eq_flatMap]
  exact flatMap_encode_lt hlt

end Text

namespace Key

open Text

/-- One key comes before another: without a namespace before any with one, then by the namespace and
the name, each by its bytes. -/
def Before (k k' : Key) : Prop :=
  match k.ns?, k'.ns? with
  | none, none => bytes k.name < bytes k'.name
  | none, some _ => True
  | some _, none => False
  | some ns, some ns' => bytes ns < bytes ns' ∨ ns = ns' ∧ bytes k.name < bytes k'.name

theorem before_of_compare : ∀ {k k' : Key}, compare k k' = .lt → k.Before k'
  | ⟨ns?, name⟩, ⟨ns'?, name'⟩, h => by
    have h : (compare ns? ns'?).then (compare name name') = .lt := h
    rw [Ordering.then_eq_lt] at h
    unfold Before
    cases ns? with
    | none =>
      cases ns'? with
      | none =>
        rcases h with h | ⟨-, hname⟩
        · cases h
        · exact bytes_lt_of_compare hname
      | some ns' => trivial
    | some ns =>
      cases ns'? with
      | none =>
        rcases h with h | ⟨h, -⟩ <;> cases h
      | some ns' =>
        rcases h with hns | ⟨hns, hname⟩
        · exact .inl (bytes_lt_of_compare hns)
        · obtain rfl := Option.some.inj (Std.LawfulEqCmp.eq_of_compare hns)
          exact .inr ⟨rfl, bytes_lt_of_compare hname⟩

end Key

end Registrar
