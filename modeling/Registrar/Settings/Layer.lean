import Registrar.Json
import Registrar.Text

/-!
# Layers of settings

Settings come in layers, each put over the ones before. A table is put over a table entry by entry;
everything else takes the place of what was there. The keys of a layer are paths, their names divided
by points.
-/

namespace Registrar.Settings.Layer

mutual

/-- What is left of a value when another one is put over it. -/
def overlay (below : Option Json) : Json → Json
  | .object members => overlayMembers (below.getD (.object [])) members
  | value => value

def overlayMembers (below : Json) : List (String × Json) → Json
  | [] => below
  | (name, value) :: rest =>
    let table := if below.isObject then below else .object []
    overlayMembers (table.setMember name (overlay (table.member? name) value)) rest

end

/-- Puts a value over what a path leads to. What is no table on the way becomes one. -/
def put (value : Json) : List String → Json → Json
  | [], below => below
  | [name], below => overlayMembers below [(name, value)]
  | name :: path, below =>
    let table := if below.isObject then below else .object []
    table.setMember name (put value path ((table.member? name).getD .null))

def isNameChar (c : Char) : Bool :=
  c.isAlphanum || c == '_' || c == '-'

/-- The names that a key goes through; a key that is no path is a name of its own. -/
def path (key : String) : List String :=
  let names := Text.split key "."
  if names.all (fun name => name ≠ "" ∧ name.toList.all isNameChar) then names else [key]

/-- Puts a layer over those below. -/
def add (below : Json) (layer : List (String × Json)) : Json :=
  layer.foldl (fun below entry => put entry.2 (path entry.1) below) below

end Registrar.Settings.Layer
