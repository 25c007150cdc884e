/-!
# Texts

Which characters are blanks and which are letters of names, how a text is split at a divider, and how
it is shown: between quotes, so that it can be told from what is around it, or in parentheses behind
the first words of an error.
-/

namespace Registrar

namespace Text

/-- The characters with the Unicode property `White_Space`. -/
def isBlank (c : Char) : Bool :=
  let n := c.toNat
  (0x9 ≤ n && n ≤ 0xd) || n == 0x20 || n == 0x85 || n == 0xa0 || n == 0x1680
    || (0x2000 ≤ n && n ≤ 0x200a) || n == 0x2028 || n == 0x2029 || n == 0x202f || n == 0x205f
    || n == 0x3000

def skipBlanks (cs : List Char) : List Char :=
  cs.dropWhile isBlank

def trim (s : String) : String :=
  String.ofList (skipBlanks (skipBlanks s.toList).reverse).reverse

/-- Blocks beyond ASCII that hold no letters. -/
def signs : List (Nat × Nat) :=
  [(0x80, 0xa9), (0xab, 0xb4), (0xb6, 0xb9), (0xbb, 0xbf), (0xd7, 0xd7), (0xf7, 0xf7),
    (0x2010, 0x203e), (0x2041, 0x2053), (0x2055, 0x2070), (0x20a0, 0x20cf), (0x2190, 0x24ff),
    (0x2500, 0x2bff), (0x3001, 0x3004), (0x3008, 0x3020), (0xe000, 0xf8ff), (0xfe00, 0xfe32),
    (0xfe50, 0xfe6f), (0xfeff, 0xff0f), (0xfff0, 0xffff), (0x1f000, 0x1faff), (0xe0000, 0x10ffff)]

/-- Whether a name may start with a character. Beyond ASCII every character is a letter unless it is a
blank or lies in one of the blocks above. -/
def isLetter (c : Char) : Bool :=
  c.isAlpha || c == '_'
    || (0x80 ≤ c.toNat && !isBlank c && signs.all (fun s => c.toNat < s.1 || s.2 < c.toNat))

/-- Whether a name may go on with a character. -/
def isNamePart (c : Char) : Bool :=
  isLetter c || c.isDigit || c == '·'

/-- The parts of characters between those where a divider stands, the first `skipped` left out. -/
def parts (divider : List Char) : Nat → List Char → List (List Char)
  | _, [] => [[]]
  | skipped + 1, _ :: rest => parts divider skipped rest
  | 0, c :: rest =>
    if divider.isPrefixOf (c :: rest) then [] :: parts divider (divider.length - 1) rest
    else match parts divider 0 rest with
      | [] => [[c]]
      | part :: others => (c :: part) :: others

/-- The text is split where a divider stands in it, from left to right, so that no divider takes a
character from another one. -/
def split (s divider : String) : List String :=
  (parts divider.toList 0 s.toList).map String.ofList

namespace Quoted

/-- The first and the last character of each range that has no shape of its own: control and format
characters, blanks other than the space, marks that combine with the character before them, and code
points for private use. -/
def hidden : List (Nat × Nat) := [
  (0x0, 0x1f), (0x7f, 0xa0), (0xad, 0xad), (0x300, 0x36f), (0x483, 0x489), (0x591, 0x5bd),
  (0x600, 0x605), (0x610, 0x61a), (0x61c, 0x61c), (0x64b, 0x65f), (0x6dd, 0x6dd), (0x70f, 0x70f),
  (0x1680, 0x1680), (0x180b, 0x180f), (0x1ab0, 0x1aff), (0x1dc0, 0x1dff), (0x2000, 0x200f),
  (0x2028, 0x202f), (0x205f, 0x206f), (0x20d0, 0x20f0), (0x3000, 0x3000), (0x302a, 0x302f),
  (0x3099, 0x309a), (0xe000, 0xf8ff), (0xfe00, 0xfe0f), (0xfe20, 0xfe2f), (0xfeff, 0xfeff),
  (0xfff0, 0xfffb), (0xfffe, 0xffff), (0xe0000, 0x10ffff)]

def isHidden (c : Char) : Bool :=
  hidden.any fun (first, last) => first ≤ c.toNat && c.toNat ≤ last

/-- A character as it stands between quotes. -/
def encodeChar (c : Char) : List Char :=
  match c with
  | '\x00' => ['\\', '0']
  | '\t' => ['\\', 't']
  | '\n' => ['\\', 'n']
  | '\r' => ['\\', 'r']
  | '"' => ['\\', '"']
  | '\\' => ['\\', '\\']
  | c => if isHidden c then '\\' :: 'u' :: '\x7b' :: (Nat.toDigits 16 c.toNat ++ ['\x7d']) else [c]

/-- A text between quotes in which every character can be seen: quotes, backslashes and characters
without a shape of their own stand as escapes. -/
def encode (s : String) : String :=
  String.ofList ('"' :: (s.toList.flatMap encodeChar ++ ['"']))

end Quoted

end Text

/-- What was being done when an error arose, behind the error's first words. -/
def Context.suffix : Option String → String
  | some context => " (" ++ context ++ ")"
  | none => ""

end Registrar
