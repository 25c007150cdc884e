import Registrar.ErrorType.Token
import Registrar.ErrorType.TypeForm

/-!
# Reading types

A reading takes tokens from the front of a list and fails where the list does not go on as it should.
Types contain types, so the readings below take a bound on how far they may descend.
-/

namespace Registrar.ErrorType

abbrev Reading := StateT (List Token) Option

/-- Reads a whole piece of source. -/
def Reading.run? {α : Type} (reading : List Token → Reading α) (tokens : List Token) : Option α := do
  let (a, rest) ← reading tokens tokens
  guard rest.isEmpty
  return a

namespace Reading

/-- Words with a meaning of their own, which are no names. -/
def keywords : List String :=
  ["_", "abstract", "as", "async", "await", "become", "box", "break", "const", "continue", "crate",
    "do", "dyn", "else", "enum", "extern", "false", "final", "fn", "for", "if", "impl", "in", "let",
    "loop", "macro", "match", "mod", "move", "mut", "override", "priv", "pub", "ref", "return", "Self",
    "self", "static", "struct", "super", "trait", "true", "try", "type", "typeof", "unsafe", "unsized",
    "use", "virtual", "where", "while", "yield"]

/-- Words that start a path though they are no names. -/
def pathWords : List String :=
  ["super", "self", "Self", "crate"]

def isName (t : Token) : Bool :=
  match t with
  | .word s => s ∉ keywords
  | _ => false

def sees (s : String) : Reading Bool := do
  match (← get).head? with
  | some (.word t) | some (.mark t) => return s = t
  | _ => return false

/-- Whether one mark and then another come next. -/
def seesBoth (s t : String) : Reading Bool := do
  return (← get).take 2 = [.mark s, .mark t]

def skip : Reading Unit :=
  modify List.tail

def accepts (s : String) : Reading Bool := do
  if ← sees s then
    skip
    return true
  else return false

def expects (s : String) : Reading Unit := do
  guard (← accepts s)

def seesAny : List String → Reading Bool
  | [] => return false
  | s :: others => do
    if ← sees s then return true else seesAny others

def acceptsAny (all : List String) : Reading Bool := do
  if ← seesAny all then
    skip
    return true
  else return false

def name : Reading String := do
  match ← get with
  | .word s :: rest =>
    guard (isName (.word s))
    set rest
    return s
  | _ => failure

/-- The name of a lifetime, if one comes next. -/
def lifetime? : Reading (Option String) := do
  match ← get with
  | .lifetime s :: rest =>
    set rest
    return some s
  | _ => return none

/-- Takes a literal, if one comes next. The words for truth are literals, and a number may have a
sign. -/
def acceptsLiteral : Reading Bool := do
  match ← get with
  | .literal _ :: rest | .mark "-" :: .literal _ :: rest | .word "true" :: rest
  | .word "false" :: rest =>
    set rest
    return true
  | _ => return false

/-- What comes behind the bracket that closes the last of those still due. -/
def behind? : List Token → List Token → Option (List Token)
  | _, [] => none
  | due, t :: rest =>
    match Token.closing? t, due with
    | some close, _ => behind? (close :: due) rest
    | none, d :: due => if d = t then if due.isEmpty then some rest else behind? due rest
      else behind? (d :: due) rest
    | none, [] => none

/-- Takes a bracket that comes next, all that it holds, and the one that closes it. -/
def skipGroup : Reading Unit := do
  match ← get with
  | t :: rest =>
    match Token.closing? t >>= fun close => behind? [close] rest with
    | some rest => set rest
    | none => failure
  | [] => failure

/-- Takes a bracket and its group, if it comes next. -/
def acceptsGroup : Reading Bool := do
  match (← get).head? >>= Token.closing? with
  | some _ => skipGroup; return true
  | none => return false

/-- Takes a value in the place of an argument, if one comes next. -/
def acceptsValue : Reading Bool := do
  if ← sees "\x7b" then
    skipGroup
    return true
  acceptsLiteral

/-- The names of a path without arguments, its last one alone kept. -/
def plainPath (isWord : Token → Bool) : Nat → Reading String
  | 0 => failure
  | fuel + 1 => do
    match ← get with
    | .word s :: rest =>
      guard (isWord (.word s))
      set rest
      if ← accepts "::" then plainPath isWord fuel else return s
    | _ => failure

/-- Items with a mark between them, up to a closing mark, which is taken too. A last mark between may
stand in front of it. -/
def itemsUntil {α : Type} (close between : String) (item : Reading α) : Nat → Reading (List α)
  | 0 => failure
  | fuel + 1 => do
    if ← accepts close then return []
    let a ← item
    if ← accepts between then return a :: (← itemsUntil close between item fuel)
    expects close
    return [a]

/-- The lifetimes of `for<'a, 'b>`, with what each outlives. -/
def boundLifetimes (fuel : Nat) : Reading Unit := do
  if ← accepts "for" then
    expects "<"
    let _ ← itemsUntil ">" "," (do
      guard (← lifetime?).isSome
      if ← accepts ":" then outlived fuel) fuel
where
  outlived : Nat → Reading Unit
    | 0 => failure
    | fuel + 1 => do
      if (← lifetime?).isSome then
        if ← accepts "+" then outlived fuel

/-- Words that the type of a pointer to a function may start with. -/
def pointerWords : List String :=
  ["fn", "unsafe", "extern"]

/-- Whether a bound of a trait object may start with a token. -/
def startsBound (t : Token) : Bool :=
  match t with
  | .lifetime _ => true
  | .word s => isName t || s ∈ pathWords || s = "for"
  | .mark s => s ∈ ["::", "?", "(", "~", "<"]
  | .literal _ => false

mutual

/-- A type. With `sums`, bounds may be added to it. -/
def type : Nat → Bool → Reading TypeForm
  | 0, _ => failure
  | fuel + 1, sums => do
    if ← accepts "(" then
      let _ ← itemsUntil ")" "," (type fuel true) fuel
      return .other
    if ← accepts "[" then
      let _ ← type fuel true
      if ← accepts ";" then
        guard !(← sees "]")
        skipLength fuel
      expects "]"
      return .other
    if ← accepts "*" then
      guard (← acceptsAny ["const", "mut"])
      let _ ← type fuel false
      return .other
    if ← accepts "&" then
      let _ ← lifetime?
      let _ ← accepts "mut"
      let _ ← type fuel false
      return .other
    if ← acceptsAny ["!", "_"] then return .other
    if ← acceptsAny ["dyn", "impl"] then
      bounds fuel sums
      return .other
    if ← sees "for" then
      boundLifetimes fuel
      if ← seesAny pointerWords then pointer fuel
      else
        let _ ← path fuel
        if sums then
          if ← accepts "+" then moreBounds fuel
      return .other
    if ← seesAny pointerWords then
      pointer fuel
      return .other
    let qualified ← sees "<"
    let (form, plain) ← path fuel
    if qualified then return form
    if plain then
      if ← accepts "!" then
        skipGroup
        return .other
    if sums then
      if ← accepts "+" then
        moreBounds fuel
        return .other
    return form

/-- What stands between the semicolon and the end of an array. -/
def skipLength : Nat → Reading Unit
  | 0 => failure
  | fuel + 1 => do
    if (← sees "]") || (← get).isEmpty then return
    if !(← acceptsGroup) then skip
    skipLength fuel

/-- A path that names a type, and whether no part of it has arguments. -/
def path : Nat → Reading (TypeForm × Bool)
  | 0 => failure
  | fuel + 1 => do
    if ← accepts "<" then
      let _ ← type fuel true
      if ← accepts "as" then
        let _ ← path fuel
      expects ">"
      expects "::"
    else
      let _ ← accepts "::"
    segments fuel

/-- The segments of a path. What comes with the last one counts. -/
def segments : Nat → Reading (TypeForm × Bool)
  | 0 => failure
  | fuel + 1 => do
    match ← get with
    | .word s :: rest =>
      set rest
      let mut plain := true
      let mut arguments := []
      if s ∉ pathWords then
        guard (isName (.word s))
        if (← sees "<") || (← seesBoth "::" "<") then
          let _ ← accepts "::"
          skip
          arguments ← itemsUntil ">" "," (argument fuel) fuel
          plain := false
        else if (← sees "(") || (← seesBoth "::" "(") then
          let _ ← accepts "::"
          skip
          let _ ← itemsUntil ")" "," (type fuel true) fuel
          result fuel
          return (.path s [], false)
      if ← accepts "::" then
        let (form, plainRest) ← segments fuel
        return (form, plain && plainRest)
      return (.path s arguments, plain)
    | _ => failure

/-- An argument in angle brackets. A name may be followed by what it is equal to or bounded by. -/
def argument : Nat → Reading Argument
  | 0 => failure
  | fuel + 1 => do
    match ← get with
    | .lifetime _ :: .mark "+" :: _ => failure
    | .lifetime s :: rest =>
      set rest
      return .lifetime s
    | _ =>
      if ← acceptsValue then return .other
      let named := (← get).head?.any isName && (← get)[1]? ≠ some (.mark "::")
      let form ← type fuel true
      if named then
        if ← accepts "=" then
          if !(← acceptsValue) then
            let _ ← type fuel true
          return .other
        if ← accepts ":" then
          bounds fuel true
          return .other
      return .type form

/-- The type behind an arrow, if one comes next. -/
def result : Nat → Reading Unit
  | 0 => failure
  | fuel + 1 => do
    if ← accepts "->" then
      let _ ← type fuel false

def pointer : Nat → Reading Unit
  | 0 => failure
  | fuel + 1 => do
    let _ ← accepts "unsafe"
    if ← accepts "extern" then
      let _ ← acceptsLiteral
    expects "fn"
    expects "("
    let _ ← itemsUntil ")" "," (parameter fuel) fuel
    result fuel

/-- A parameter of a function, named or not. Three points stand for any number of them. -/
def parameter : Nat → Reading Unit
  | 0 => failure
  | fuel + 1 => do
    match ← get with
    | .word s :: .mark ":" :: rest =>
      guard (isName (.word s) || s = "_")
      set rest
    | _ => pure ()
    if ← accepts "." then
      expects "."
      expects "."
      guard (← sees ")")
    else
      let _ ← type fuel true

/-- One bound, and whether it is more than a lifetime. -/
def bound : Nat → Reading Bool
  | 0 => failure
  | fuel + 1 => do
    if (← lifetime?).isSome then return false
    if ← accepts "(" then
      let _ ← bound fuel
      expects ")"
      return true
    let _ ← accepts "?"
    if ← accepts "~" then expects "const"
    boundLifetimes fuel
    let _ ← path fuel
    return true

/-- Bounds, one of them more than a lifetime. With `sums` there may be several. -/
def bounds : Nat → Bool → Reading Unit
  | 0, _ => failure
  | fuel + 1, sums => do
    let whole ← bound fuel
    if sums then
      if ← accepts "+" then
        if (← get).head?.any startsBound then
          if whole then moreBounds fuel else bounds fuel true
          return
    guard whole

/-- Bounds behind a plus, up to one without a plus behind it. -/
def moreBounds : Nat → Reading Unit
  | 0 => failure
  | fuel + 1 => do
    if (← get).head?.any startsBound then
      let _ ← bound fuel
      if ← accepts "+" then moreBounds fuel

end

end Reading

def TypeForm.ofTokens? (tokens : List Token) : Option TypeForm :=
  Reading.run? (fun all => Reading.type (4 * all.length + 4) true) tokens

end Registrar.ErrorType
