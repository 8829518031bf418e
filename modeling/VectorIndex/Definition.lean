import VectorIndex.Method

/-!
# Definitions

The document in which a user names a method, its space and its settings, and
what it compiles to.

* `Definition`: the document; `ofText`, `load`, `json`.
* `Definition.compile`: the compiled form, or the first failure: the method
  has another name, it does not support the space, or the settings do not
  pass.
-/

namespace VectorIndex

open Json

/-- A method by name, its space and its settings. -/
structure Definition where
  name : String
  space : Option Space
  settings : List (String × Setting)
deriving DecidableEq

namespace Definition

/-- The space of a definition that names none. -/
def defaultSpace : Space := .l2

/-- The space a definition is for. -/
def effectiveSpace (d : Definition) : Space :=
  d.space.getD defaultSpace

/-- What a definition selects. -/
def selection (d : Definition) : Selection :=
  ⟨d.name, d.settings⟩

/-- The fields of a definition as far as they have been read. -/
structure Fields where
  name : Option String
  space : Option Space
  settings : List (String × Setting)

/-- A definition: a name, a space or null, and settings. -/
def record : Record Fields Definition where
  title := "MethodDocument"
  fields := [
    ⟨"name", fun d s => do return { s with name := some (← readString d) }⟩,
    ⟨"space_type", fun d s => do return { s with space := ← Space.readOptional d }⟩,
    ⟨"parameters", fun d s => do return { s with settings := ← readSettings d }⟩]
  start := ⟨none, none, []⟩
  finish layout s := do
    let name ← Record.required "MethodDocument" 3 "name" layout s.name
    return ⟨name, s.space, s.settings⟩

/-- Reads a definition from a text. -/
def ofText (text : String) : Except Failure Definition :=
  (readText record.read text).mapError .unreadable

/-- Reads a definition from a file. -/
def load (f : File) : Except Failure Definition :=
  f.read record.read

/-- A definition as a JSON value; the space is left out if there is none. -/
def json (d : Definition) : Json :=
  .object (("name", .string d.name) ::
    (d.space.toList.map fun s => ("space_type", s.json)) ++
    [("parameters", .object (settingsJson d.settings))])

end Definition

/-- All that an engine needs from a definition. -/
structure Compiled where
  space : Space
  description : String
  trainingRequired : Bool
  map : Json
  values : Values

/-- A compiled definition as a JSON value. -/
def Compiled.json (c : Compiled) : Json :=
  .object [
    ("space_type", c.space.json),
    ("index_description", .string c.description),
    ("training_required", .boolean c.trainingRequired),
    ("method", c.map)]

/-- Checks a definition by a method and compiles it. -/
def Definition.compile (d : Definition) (m : Method) : Except Failure Compiled :=
  if d.name ≠ m.name then .error (.unknownMethod d.name)
  else do
    let values ← m.validateWithSpace d.selection d.effectiveSpace
    return {
      space := d.effectiveSpace
      description := m.description values
      trainingRequired := m.component.trainingRequired values
      map := m.component.settingsMap values
      values }

end VectorIndex
