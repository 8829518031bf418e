import VectorIndex.Json.Shape
import VectorIndex.Setting.Basic

/-!
# Settings in JSON

A scalar is written as itself, a component as an object with its name and its
settings. In reading, a component may also be an array of these two, and the
settings may be left out.

* `Setting.json`, `Setting.ofJson?`: between settings and JSON values.
* `Setting.read`: a setting in a text. The text of the setting has to be JSON
  before it is looked at what it says.
* `Selection.read`: a selection in a text, field by field.
-/

namespace VectorIndex

open Json

/-! ## Writing -/

mutual

/-- A setting as a JSON value, settings of components in the order in which
they are held. -/
def Setting.json : Setting → Json
  | .boolean b => .boolean b
  | .integer n => .number (.integer n.toInt)
  | .text s => .string s
  | .component name settings =>
    .object [("name", .string name), ("parameters", .object (settingsJson settings))]

/-- The members for a list of named settings. -/
def settingsJson : List (String × Setting) → List (String × Json)
  | [] => []
  | (k, v) :: rest => (k, v.json) :: settingsJson rest

end

/-- A selection as a JSON value. -/
def Selection.json (s : Selection) : Json :=
  s.setting.json

/-- Values as a JSON value. -/
def Values.json (v : Values) : Json :=
  v.setting.json

/-! ## Reading -/

mutual

/-- The setting a JSON value stands for, if it is one. -/
def Setting.ofJson? : Json → Option Setting
  | .boolean b => some (.boolean b)
  | .number (.integer n) => (Decimal.int64OfInt? n).map .integer
  | .string s => some (.text s)
  | .array [.string name] => some (.component name [])
  | .array [.string name, .object members] => component? name members
  | .object [("name", .string name)] => some (.component name [])
  | .object [("name", .string name), ("parameters", .object members)] =>
    component? name members
  | .object [("parameters", .object members), ("name", .string name)] =>
    component? name members
  | _ => none

/-- The component a name and the members of an object stand for. -/
def component? (name : String) (members : List (String × Json)) : Option Setting :=
  (settingsOfJson? members).map fun settings => .component name (Keyed.ofList settings)

/-- The named settings the members of an object stand for, in their order. -/
def settingsOfJson? : List (String × Json) → Option (List (String × Setting))
  | [] => some []
  | (k, j) :: rest => do
    let v ← Setting.ofJson? j
    let vs ← settingsOfJson? rest
    return (k, v) :: vs

end

/-- Reads a setting. -/
def Setting.read (d : Draft) : Except ReadError Setting :=
  match d.json? with
  | .error f => .error (.fault f)
  | .ok j =>
    match Setting.ofJson? j with
    | some v => .ok v
    | none => .error (.noKind "ParameterValue")

/-- Reads the members of an object as named settings, each after `settings`. -/
def readMembers (settings : List (String × Setting)) :
    List (String × Draft) → Except ReadError (List (String × Setting))
  | [] => .ok settings
  | (k, d) :: rest => do
    let v ← Setting.read d
    readMembers (Keyed.insert k v settings) rest

/-- Reads the settings of a component; of several settings of one parameter
the last stands, but each has to be readable. -/
def readSettings : Draft → Except ReadError (List (String × Setting))
  | .object members fault => do
    let settings ← readMembers [] members
    ending fault
    return settings
  | d => .error (d.mismatch "a map")

/-- The fields of a selection as far as they have been read. -/
structure SelectionFields where
  name : Option String
  settings : List (String × Setting)

/-- A selection: the name of a component and its settings. -/
def Selection.record : Record SelectionFields Selection where
  title := "MethodComponentContext"
  fields := [
    ⟨"name", fun d s => do return { s with name := some (← readString d) }⟩,
    ⟨"parameters", fun d s => do return { s with settings := ← readSettings d }⟩]
  start := ⟨none, []⟩
  finish layout s := do
    let name ← Record.required "MethodComponentContext" 2 "name" layout s.name
    return ⟨name, s.settings⟩

/-- Reads a selection. -/
def Selection.read (d : Draft) : Except ReadError Selection :=
  Selection.record.read d

end VectorIndex
