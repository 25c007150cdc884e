import Registrar.Text

/-!
# Tokens of Rust source

The words, literals and marks that a piece of Rust source consists of. Comments and blanks between
them are dropped, and brackets pair up. A token keeps its text, so the tokens of a piece give it back
but for its blanks (`Token.textOf`).
-/

namespace Registrar.ErrorType

inductive Token
  | word (text : String)
  | lifetime (name : String)
  | literal (text : String)
  | mark (text : String)
deriving DecidableEq, Repr

namespace Token

def text : Token → String
  | .word s => s
  | .lifetime name => "'" ++ name
  | .literal s => s
  | .mark s => s

/-- The text of tokens without any blank, those inside literals left out too. -/
def textOf (tokens : List Token) : String :=
  String.ofList ((tokens.flatMap (fun t => t.text.toList)).filter (fun c => !Text.isBlank c))

/-- What comes behind a comment that `depth` others are open around. -/
def skipComment : Nat → List Char → Option (List Char)
  | depth, '*' :: '/' :: rest => if depth = 0 then some rest else skipComment (depth - 1) rest
  | depth, '/' :: '*' :: rest => skipComment (depth + 1) rest
  | depth, _ :: rest => skipComment depth rest
  | _, [] => none

/-- A text up to the quote that ends it, and what comes behind. -/
def quoted? (quote : Char) : List Char → Option (List Char × List Char)
  | '\\' :: c :: rest => (quoted? quote rest).map fun (s, rest) => ('\\' :: c :: s, rest)
  | c :: rest =>
    if c = quote then some ([c], rest)
    else (quoted? quote rest).map fun (s, rest) => (c :: s, rest)
  | [] => none

/-- A text up to the quote and the number signs that end it, and what comes behind. -/
def raw? (closing : List Char) : List Char → Option (List Char × List Char)
  | [] => none
  | c :: rest =>
    if closing.isPrefixOf (c :: rest) then some (closing, (c :: rest).drop closing.length)
    else (raw? closing rest).map fun (s, rest) => (c :: s, rest)

def character? : List Char → Option (List Char × List Char)
  | '\'' :: '\\' :: rest => (quoted? '\'' ('\\' :: rest)).map fun (s, rest) => ('\'' :: s, rest)
  | '\'' :: c :: '\'' :: rest => if c = '\'' then none else some (['\'', c, '\''], rest)
  | _ => none

/-- What may stand in front of a quote. -/
def quoteMarks : List String :=
  ["", "b", "c"]

/-- What may stand in front of a quote, with number signs between them or not, when no escapes are
read. -/
def rawQuoteMarks : List String :=
  ["r", "br", "cr"]

/-- A literal with a quote or an apostrophe in it, behind what stands in front of that. -/
def quotedLiteral? (front : String) (cs : List Char) : Option (List Char × List Char) :=
  match cs with
  | '"' :: rest =>
    if front ∈ quoteMarks then (quoted? '"' rest).map fun (s, rest) => ('"' :: s, rest)
    else if front ∈ rawQuoteMarks then (raw? ['"'] rest).map fun (s, rest) => ('"' :: s, rest)
    else none
  | '\'' :: _ => if front = "" ∨ front = "b" then character? cs else none
  | '#' :: _ =>
    let signs := cs.takeWhile (· == '#')
    match cs.dropWhile (· == '#') with
    | '"' :: rest =>
      if front ∈ rawQuoteMarks then
        (raw? ('"' :: signs) rest).map fun (s, rest) => (signs ++ '"' :: s, rest)
      else none
    | _ => none
  | _ => none

/-- A number, with the letters that stand right behind its digits. -/
def number (cs : List Char) : List Char × List Char :=
  let whole := cs.takeWhile Text.isNamePart
  match cs.dropWhile Text.isNamePart with
  | '.' :: c :: rest =>
    if c.isDigit then
      (whole ++ '.' :: (c :: rest).takeWhile Text.isNamePart, (c :: rest).dropWhile Text.isNamePart)
    else (whole, '.' :: c :: rest)
  | rest => (whole, rest)

/-- Words that may not be written with a leading `r#`. -/
def plainWords : List String :=
  ["_", "super", "self", "Self", "crate"]

def signs : List Char :=
  "~!@#$%^&*-=+|;:,<.>/?()[]\x7b\x7d".toList

/-- The token that starts here, and what comes behind. -/
def next? (cs : List Char) : Option (Token × List Char) :=
  match cs with
  | [] => none
  | ':' :: ':' :: rest => some (.mark "::", rest)
  | '-' :: '>' :: rest => some (.mark "->", rest)
  | c :: rest =>
    if Text.isLetter c then
      let text := String.ofList (cs.takeWhile Text.isNamePart)
      let behind := cs.dropWhile Text.isNamePart
      match quotedLiteral? text behind, behind with
      | some (s, rest), _ => some (.literal (text ++ String.ofList s), rest)
      | none, '#' :: d :: rest =>
        if text = "r" ∧ Text.isLetter d then
          let name := String.ofList ((d :: rest).takeWhile Text.isNamePart)
          if name ∈ plainWords then none
          else some (.word ("r#" ++ name), (d :: rest).dropWhile Text.isNamePart)
        else some (.word text, behind)
      | none, _ => some (.word text, behind)
    else if c.isDigit then
      let (s, rest) := number cs
      some (.literal (String.ofList s), rest)
    else
      match quotedLiteral? "" cs with
      | some (s, rest) => some (.literal (String.ofList s), rest)
      | none =>
        if c = '\'' then
          match rest with
          | d :: _ =>
            if Text.isLetter d then
              some (.lifetime (String.ofList (rest.takeWhile Text.isNamePart)),
                rest.dropWhile Text.isNamePart)
            else none
          | [] => none
        else if c ∈ signs then some (.mark (String.singleton c), rest)
        else none

/-- The tokens of a text, brackets not yet looked at. -/
def scan : Nat → List Char → Option (List Token)
  | 0, _ => none
  | fuel + 1, cs =>
    match Text.skipBlanks cs with
    | [] => some []
    | '/' :: '/' :: rest => scan fuel (rest.dropWhile (· != '\n'))
    | '/' :: '*' :: rest => (skipComment 0 rest).bind (scan fuel)
    | cs => do
      let (t, rest) ← next? cs
      return t :: (← scan fuel rest)

def closing? : Token → Option Token
  | .mark "(" => some (.mark ")")
  | .mark "[" => some (.mark "]")
  | .mark "\x7b" => some (.mark "\x7d")
  | _ => none

def isClosing (t : Token) : Bool :=
  t = .mark ")" || t = .mark "]" || t = .mark "\x7d"

/-- Whether the brackets pair up, with some still to be closed. -/
def balanced : List Token → List Token → Bool
  | due, [] => due.isEmpty
  | due, t :: rest =>
    match closing? t with
    | some close => balanced (close :: due) rest
    | none =>
      if isClosing t then
        match due with
        | [] => false
        | d :: due => d = t && balanced due rest
      else balanced due rest

def read? (s : String) : Option (List Token) := do
  let tokens ← scan (s.length + 1) s.toList
  guard (balanced [] tokens)
  return tokens

end Token

end Registrar.ErrorType
