import Registrar.Json.Loose
import Registrar.Text

/-!
# Reading YAML

One document of block mappings, block sequences, collections in brackets on one line, and plain or
quoted scalars on one line. Tags, anchors, and scalars over several lines are not read.
-/

namespace Registrar.Yaml

/-- A line without its comment, and how far it is indented. -/
structure Line where
  indent : Nat
  text : List Char

/-- Whether a quoted scalar may start behind a character. -/
def opensQuote (before : Char) : Bool :=
  before == ' ' || before == '[' || before == '\x7b' || before == ','

/-- A line up to its comment. A number sign between quotes or inside a word starts none. -/
def withoutComment (quote : Option Char) (before : Char) : List Char → List Char
  | [] => []
  | c :: rest =>
    match quote with
    | some q => c :: withoutComment (if c = q ∧ before ≠ '\\' then none else some q) c rest
    | none =>
      if c = '#' ∧ (before = ' ' ∨ before = '\t') then []
      else if (c = '"' ∨ c = '\'') ∧ opensQuote before then c :: withoutComment (some c) c rest
      else c :: withoutComment none c rest

def trimEnd (cs : List Char) : List Char :=
  (cs.reverse.dropWhile Text.isBlank).reverse

/-- A line of a text, if there is anything on it. Only spaces may indent it. -/
def line? (s : String) : Option (Option Line) :=
  let cs := trimEnd (withoutComment none ' ' s.toList)
  let text := cs.dropWhile (· == ' ')
  if text.isEmpty then some none
  else if text.head? = some '\t' then none
  else some (some ⟨cs.length - text.length, text⟩)

def isMark (mark : String) (l : Line) : Bool :=
  l.indent == 0 && l.text == mark.toList

/-- The lines of the only document. -/
def document? (lines : List Line) : Option (List Line) := do
  let lines := match lines with
    | l :: rest => if isMark "---" l then rest else l :: rest
    | [] => []
  let kept := lines.takeWhile (!isMark "..." ·)
  guard ((lines.drop (kept.length + 1)).isEmpty && !kept.any (isMark "---"))
  return kept

/-- The character that an escape writes, without the backslash. -/
def escape? : List Char → Option (Char × List Char)
  | 'x' :: a :: b :: rest => do return (Char.ofNat (← Json.unit? '0' '0' a b), rest)
  | 'u' :: a :: b :: c :: d :: rest => do
    let n ← Json.unit? a b c d
    guard n.isValidChar
    return (Char.ofNat n, rest)
  | c :: rest =>
    match "0abtnvfre\"/\\N_LP ".toList.zip
        "\x00\x07\x08\t\n\x0b\x0c\r\x1b\"/\\\u0085\u00a0\u2028\u2029 ".toList |>.lookup c with
    | some plain => some (plain, rest)
    | none => none
  | [] => none

def double? : Nat → List Char → Option (List Char × List Char)
  | 0, _ => none
  | fuel + 1, cs =>
    match cs with
    | '"' :: rest => some ([], rest)
    | '\\' :: rest => do
      let (c, rest) ← escape? rest
      (double? fuel rest).map fun (s, rest) => (c :: s, rest)
    | c :: rest => (double? fuel rest).map fun (s, rest) => (c :: s, rest)
    | [] => none

def single? : List Char → Option (List Char × List Char)
  | '\'' :: '\'' :: rest => (single? rest).map fun (s, rest) => ('\'' :: s, rest)
  | '\'' :: rest => some ([], rest)
  | c :: rest => (single? rest).map fun (s, rest) => (c :: s, rest)
  | [] => none

def quoted? : List Char → Option (String × List Char)
  | '"' :: rest => (double? (rest.length + 1) rest).map fun (s, rest) => (String.ofList s, rest)
  | '\'' :: rest => (single? rest).map fun (s, rest) => (String.ofList s, rest)
  | _ => none

/-- Characters that no plain scalar starts with. -/
def indicators : List Char :=
  "[]\x7b\x7d,&*!|>%@`\"'#".toList

def integer? (cs : List Char) : Option Json :=
  match cs with
  | '0' :: 'x' :: digits => (Json.Loose.signedValue false) <$> Json.Loose.ofBase? 16 digits
  | '0' :: 'o' :: digits => (Json.Loose.signedValue false) <$> Json.Loose.ofBase? 8 digits
  | cs => do
    let (negative, digits) := Json.Loose.signed cs
    let n ← Json.Loose.ofBase? 10 digits
    return Json.Loose.signedValue negative n

def plain? (cs : List Char) : Option Json :=
  if (cs.head?.any (· ∈ indicators)) then none
  else some <|
    match String.ofList cs with
    | "" | "~" | "null" => .null
    | "true" => .bool true
    | "false" => .bool false
    | ".inf" | "-.inf" | ".nan" => Json.unreadable
    | s => ((integer? cs).or (Json.Loose.number? cs)).getD (.string s)

/-- A plain scalar inside brackets. It ends in front of a comma, a bracket, or a colon and a blank. -/
def flowPlain : List Char → List Char × List Char
  | [] => ([], [])
  | ':' :: c :: rest =>
    if c = ' ' ∨ c = ',' ∨ c = ']' ∨ c = '\x7d' then ([], ':' :: c :: rest)
    else
      let (s, rest) := flowPlain (c :: rest)
      (':' :: s, rest)
  | c :: rest =>
    if c = ',' ∨ c = ']' ∨ c = '\x7d' ∨ c = '[' ∨ c = '\x7b' then ([], c :: rest)
    else
      let (s, rest) := flowPlain rest
      (c :: s, rest)

def skipSpaces (cs : List Char) : List Char :=
  cs.dropWhile (fun c => c == ' ' || c == '\t')

/-- The name of an entry of a mapping. -/
def name? : Json → Option String
  | .string s => some s
  | .bool b => some (if b then "true" else "false")
  | .number (.int n) => some (toString n)
  | _ => none

/-- A mapping, if no name stands twice. -/
def mapping? (entries : List (String × Json)) : Option Json := do
  guard (decide (entries.map Prod.fst).Nodup)
  return .ofMembers entries

mutual

def flow : Nat → List Char → Option (Json × List Char)
  | 0, _ => none
  | fuel + 1, cs =>
    match cs with
    | '[' :: rest => (flowItems fuel rest).map fun (all, rest) => (.array all, rest)
    | '\x7b' :: rest => do
      let (all, rest) ← flowEntries fuel rest
      return (← mapping? all, rest)
    | '"' :: _ | '\'' :: _ => (quoted? cs).map fun (s, rest) => (.string s, rest)
    | cs =>
      let (s, rest) := flowPlain cs
      (plain? (trimEnd s)).map (·, rest)

def flowItems : Nat → List Char → Option (List Json × List Char)
  | 0, _ => none
  | fuel + 1, cs =>
    match skipSpaces cs with
    | ']' :: rest => some ([], rest)
    | cs => do
      let (item, rest) ← flow fuel cs
      match skipSpaces rest with
      | ',' :: rest => (flowItems fuel rest).map fun (more, rest) => (item :: more, rest)
      | ']' :: rest => some ([item], rest)
      | _ => none

def flowEntries : Nat → List Char → Option (List (String × Json) × List Char)
  | 0, _ => none
  | fuel + 1, cs =>
    match skipSpaces cs with
    | '\x7d' :: rest => some ([], rest)
    | cs => do
      let (key, rest) ← flow fuel cs
      let name ← name? key
      let (told, rest) ← match skipSpaces rest with
        | ':' :: rest => flow fuel (skipSpaces rest)
        | rest => some (.null, rest)
      match skipSpaces rest with
      | ',' :: rest => (flowEntries fuel rest).map fun (more, rest) => ((name, told) :: more, rest)
      | '\x7d' :: rest => some ([(name, told)], rest)
      | _ => none

end

/-- What stands behind the dash of an item, and how far it is from the dash. -/
def item? : List Char → Option (List Char × Nat)
  | ['-'] => some ([], 1)
  | '-' :: ' ' :: rest =>
    let body := skipSpaces rest
    some (body, 2 + (rest.length - body.length))
  | _ => none

/-- The text of a plain key and what comes behind its colon. -/
def plainKey? : List Char → Option (List Char × List Char)
  | [] => none
  | [':'] => some ([], [])
  | ':' :: ' ' :: rest => some ([], skipSpaces rest)
  | c :: rest => (plainKey? rest).map fun (key, rest) => (c :: key, rest)

/-- The key of an entry and what comes behind it. -/
def key? (cs : List Char) : Option (String × List Char) :=
  match quoted? cs with
  | some (key, rest) =>
    match skipSpaces rest with
    | [':'] => some (key, [])
    | ':' :: ' ' :: rest => some (key, skipSpaces rest)
    | _ => none
  | none => do
    let (key, rest) ← plainKey? cs
    return (← plain? (trimEnd key) >>= name?, rest)

/-- A value on one line. -/
def inline? (cs : List Char) : Option Json :=
  match cs with
  | '[' :: _ | '\x7b' :: _ | '"' :: _ | '\'' :: _ => do
    let (told, rest) ← flow (cs.length + 1) cs
    guard (skipSpaces rest).isEmpty
    return told
  | cs => if (plainKey? cs).isSome then none else plain? cs

mutual

/-- The value that starts at the first of some lines. -/
def block : Nat → List Line → Option (Json × List Line)
  | 0, _ => none
  | _ + 1, [] => none
  | fuel + 1, l :: rest =>
    if (item? l.text).isSome then
      (items fuel l.indent (l :: rest)).map fun (all, rest) => (.array all, rest)
    else if (key? l.text).isSome then do
      let (all, rest) ← entries fuel l.indent (l :: rest)
      return (← mapping? all, rest)
    else (inline? l.text).map (·, rest)

/-- The value that stands below a line, if the next one is indented further. -/
def below : Nat → Nat → List Line → Option (Json × List Line)
  | 0, _, _ => none
  | _ + 1, _, [] => some (.null, [])
  | fuel + 1, indent, l :: rest =>
    if indent < l.indent then block fuel (l :: rest) else some (.null, l :: rest)

def items : Nat → Nat → List Line → Option (List Json × List Line)
  | 0, _, _ => none
  | _ + 1, _, [] => some ([], [])
  | fuel + 1, indent, l :: rest =>
    if l.indent < indent then some ([], l :: rest)
    else
      match item? l.text with
      | none => if l.indent = indent then some ([], l :: rest) else none
      | some (body, offset) => do
        guard (l.indent = indent)
        let (told, rest) ←
          if body.isEmpty then below fuel indent rest
          else block fuel (⟨indent + offset, body⟩ :: rest)
        (items fuel indent rest).map fun (more, rest) => (told :: more, rest)

def entries : Nat → Nat → List Line → Option (List (String × Json) × List Line)
  | 0, _, _ => none
  | _ + 1, _, [] => some ([], [])
  | fuel + 1, indent, l :: rest =>
    if l.indent < indent then some ([], l :: rest)
    else do
      guard (l.indent = indent && (item? l.text).isNone)
      let (name, body) ← key? l.text
      let hasItems := rest.head?.any fun next => next.indent = indent && (item? next.text).isSome
      let (told, rest) ←
        if !body.isEmpty then (inline? body).map (·, rest)
        else if hasItems then
          (items fuel indent rest).map fun (all, rest) => (.array all, rest)
        else below fuel indent rest
      (entries fuel indent rest).map fun (more, rest) => ((name, told) :: more, rest)

end

def parse? (text : String) : Option Json := do
  let lines ← (Text.split text "\n").mapM line?
  let lines ← document? (lines.filterMap id)
  if lines.isEmpty then return .null
  let (told, rest) ← block (4 * text.length + 4) lines
  guard rest.isEmpty
  return told

end Registrar.Yaml
