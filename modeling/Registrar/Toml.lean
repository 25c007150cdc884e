import Registrar.Json

/-!
# TOML documents

A document is built line by line: a header opens a table, and a line with a key defines a value in the
table opened last. A table may be stated once, a key defined once, and what dotted keys have made only
dotted keys of the same table extend.
-/

namespace Registrar.Toml

/-- How a table came to be. -/
inductive Origin where
  /-- By a header of its own. -/
  | stated
  /-- By the header of a table inside it. -/
  | implied
  /-- By a dotted key. -/
  | dotted
  deriving DecidableEq

inductive Node where
  | value (v : Json)
  | table (origin : Origin) (entries : List (String × Node))
  /-- An array of tables, of which the last is still open. -/
  | tables (earlier : List (List (String × Node))) (last : List (String × Node))

abbrev Entries := List (String × Node)

inductive Line where
  | blank
  | header (path : List String)
  | arrayHeader (path : List String)
  | definition (path : List String) (value : Json)

/-- The part of a document that has been read, and the path of the table opened last. -/
structure Draft where
  root : Entries
  current : List String

namespace Entries

/-- Changes the table that the path of a header leads to. -/
def under (f : Entries → Option Entries) : List String → Entries → Option Entries
  | [], entries => f entries
  | name :: path, entries =>
    match lookupEntry name entries with
    | none => do return insertEntry name (.table .implied (← under f path [])) entries
    | some (.table origin inner) => do
      return insertEntry name (.table origin (← under f path inner)) entries
    | some (.tables earlier last) => do
      return insertEntry name (.tables earlier (← under f path last)) entries
    | some (.value _) => none

def openTable (name : String) (entries : Entries) : Option Entries :=
  match lookupEntry name entries with
  | none => some (insertEntry name (.table .stated []) entries)
  | some (.table .implied inner) => some (insertEntry name (.table .stated inner) entries)
  | some _ => none

/-- Opens a further table of an array. -/
def openElement (name : String) (entries : Entries) : Option Entries :=
  match lookupEntry name entries with
  | none => some (insertEntry name (.tables [] []) entries)
  | some (.tables earlier last) => some (insertEntry name (.tables (earlier ++ [last]) []) entries)
  | some _ => none

/-- Defines a value under a dotted key. -/
def define (value : Node) : List String → Entries → Option Entries
  | [], _ => none
  | [name], entries =>
    match lookupEntry name entries with
    | none => some (insertEntry name value entries)
    | some _ => none
  | name :: next :: path, entries =>
    match lookupEntry name entries with
    | none => do return insertEntry name (.table .dotted (← define value (next :: path) [])) entries
    | some (.table .dotted inner) => do
      return insertEntry name (.table .dotted (← define value (next :: path) inner)) entries
    | some (.table .implied inner) =>
      if path.isEmpty then none
      else do return insertEntry name (.table .implied (← define value (next :: path) inner)) entries
    | some _ => none

end Entries

mutual

def Node.toJson : Node → Json
  | .value v => v
  | .table _ entries => .object (membersOf entries)
  | .tables earlier last => .array (elementsOf earlier ++ [.object (membersOf last)])

def membersOf : List (String × Node) → List (String × Json)
  | [] => []
  | (name, node) :: rest => (name, node.toJson) :: membersOf rest

def elementsOf : List (List (String × Node)) → List Json
  | [] => []
  | entries :: rest => .object (membersOf entries) :: elementsOf rest

end

/-- An inline table with these definitions, in order. -/
def inlineTable? (definitions : List (List String × Json)) : Option Json := do
  let entries ← definitions.foldlM (fun entries d => Entries.define (.value d.2) d.1 entries) []
  return .object (membersOf entries)

namespace Draft

def empty : Draft :=
  ⟨[], []⟩

/-- Goes through the path of a header up to the last name. -/
def atLast (d : Draft) (path : List String) (f : String → Entries → Option Entries) : Option Draft := do
  let name ← path.getLast?
  return ⟨← Entries.under (f name) path.dropLast d.root, path⟩

def add (d : Draft) : Line → Option Draft
  | .blank => some d
  | .header path => d.atLast path Entries.openTable
  | .arrayHeader path => d.atLast path Entries.openElement
  | .definition path value => do
    return { d with root := ← Entries.under (Entries.define (.value value) path) d.current d.root }

def value (d : Draft) : Json :=
  .object (membersOf d.root)

end Draft

end Registrar.Toml
