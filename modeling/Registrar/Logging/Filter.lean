import Registrar.Json
import Registrar.Logging.Level
import Registrar.Text

/-!
# Filters

A filter is a list of directives. Each sets a threshold for the targets that start with a given text;
of those that concern an entry the one with the longest text decides. A directive may also name a span
or fields; entries are logged outside of all spans, so one that names a span concerns none of them.
-/

namespace Registrar.Logging

structure Entry where
  level : Level
  target : String
  message : String
  fields : List (String × Json) := []

structure Directive where
  /-- With what a target has to start; none for every target. -/
  target : Option String
  /-- The fields that an entry has to have. -/
  fields : List String
  threshold : Threshold
  deriving DecidableEq

structure Directive.Written where
  target : Option String
  span : Option String
  /-- The fields named, and whether a value is asked for. -/
  fields : List (String × Bool)
  threshold : Threshold

inductive Directive.Fault where
  | malformed
  | threshold
  deriving DecidableEq

structure Filter where
  directives : List Directive

namespace Directive

def Fault.message : Fault → String
  | .malformed => "invalid filter directive"
  | .threshold => Threshold.fault

/-- Whether a directive may start with a character. -/
def isStart (c : Char) : Bool :=
  Text.isLetter c || c.isDigit || c == '-' || c == ':'

/-- The threshold behind an equals sign; all entries are kept when there is none. -/
def thresholdOf (cs : List Char) : Except Fault Threshold :=
  if cs.isEmpty then .ok (some .trace)
  else (Threshold.parse? (String.ofList cs)).elim (.error .threshold) .ok

/-- A field that is asked for, and whether with a value. -/
def fieldOf (cs : List Char) : String × Bool :=
  (String.ofList (cs.takeWhile (· != '=')), cs.contains '=')

/-- What stands between brackets: the name of a span, and in braces a field. -/
def scope? (cs : List Char) : Option (Option String × List (String × Bool)) :=
  let name := cs.takeWhile (· != '\x7b')
  match cs.drop name.length with
  | [] => some (some (String.ofList name), [])
  | _ :: rest =>
    let named := if name.isEmpty then none else some (String.ofList name)
    let inside := rest.takeWhile (· != '\x7d')
    if rest.drop inside.length = ['\x7d'] ∧ inside ≠ [] then some (named, [fieldOf inside]) else none

/-- What stands behind an opening bracket: a scope, and perhaps a threshold. -/
def parseScope (target : Option String) (cs : List Char) : Except Fault Written := do
  let inside := cs.takeWhile (· != ']')
  let (span, fields) ← (scope? inside).elim (.error .malformed) .ok
  match cs.drop inside.length with
  | [']'] => return ⟨target, span, fields, some .trace⟩
  | ']' :: '=' :: rest => return ⟨target, span, fields, ← thresholdOf rest⟩
  | _ => throw .malformed

/-- Reads a directive: a threshold alone, or a target with a threshold, a scope, or none of both.
Where a part ends is told by the text without the blanks around it, and counted from the first blank. -/
def parse (text : String) : Except Fault Written :=
  let all := text.toList
  let inner := (Text.trim text).toList
  let first := inner.takeWhile (fun c => c != '=' && c != '[')
  match inner with
  | [] => .error .malformed
  | '[' :: rest => parseScope none rest
  | c :: _ =>
    if !isStart c then .error .malformed
    else
      let target := String.ofList (all.take first.length)
      match inner.drop first.length with
      | [] =>
        match Threshold.parse? text with
        | some t => .ok ⟨none, none, [], t⟩
        | none => .ok ⟨some text, none, [], some .trace⟩
      | '=' :: _ => do return ⟨some target, none, [], ← thresholdOf (all.drop (first.length + 1))⟩
      | _ :: rest => parseScope (some target) rest

/-- A directive that concerns entries outside of spans. -/
def ofWritten? (w : Written) : Option Directive :=
  if w.span.isSome || w.fields.any Prod.snd then none
  else some ⟨w.target, w.fields.map Prod.fst, w.threshold⟩

def concerns (d : Directive) (e : Entry) : Bool :=
  (d.target.all fun t => t.toList.isPrefixOf e.target.toList)
    && d.fields.all fun f => e.fields.any (·.1 == f)

/-- How narrow a directive is: by the length of its target, none first, then by its fields. -/
def narrowness (d : Directive) : Nat × Nat :=
  (d.target.elim 0 (fun t => t.utf8ByteSize + 1), d.fields.length)

def isNarrower (d c : Directive) : Bool :=
  let (m, n) := d.narrowness
  let (k, l) := c.narrowness
  k < m || (k == m && l ≤ n)

end Directive

namespace Filter

/-- The parts of a text between its commas that are not empty. -/
def parts (text : String) : List String :=
  (Text.split text ",").filter (· ≠ "")

/-- The filter of the directives read, of the default threshold if there are none. -/
def ofWritten (default : Threshold) (written : List Directive.Written) : Filter :=
  if written.isEmpty then ⟨[⟨none, [], default⟩]⟩
  else ⟨written.filterMap Directive.ofWritten?⟩

/-- Reads a filter of which every directive has to be well formed. -/
def parse (default : Threshold) (text : String) : Except Directive.Fault Filter := do
  return ofWritten default (← (parts text).mapM Directive.parse)

/-- Reads a filter and passes over malformed directives; also tells what was passed over. -/
def parseLenient (default : Threshold) (text : String) : Filter × List String :=
  let read := (parts text).map fun part => (part, Directive.parse part)
  (ofWritten default (read.filterMap (fun r => r.2.toOption)),
    read.filterMap fun r => match r.2 with
      | .ok _ => none
      | .error fault => some s!"ignoring `{r.1}`: {fault.message}")

/-- The narrowest directive that concerns an entry; of several, the last. -/
def decisive? (f : Filter) (e : Entry) : Option Directive :=
  (f.directives.filter (·.concerns e)).foldl
    (fun best d => if best.all (d.isNarrower ·) then some d else best) none

def admits (f : Filter) (e : Entry) : Bool :=
  (f.decisive? e).any (·.threshold.admits e.level)

end Filter

end Registrar.Logging
