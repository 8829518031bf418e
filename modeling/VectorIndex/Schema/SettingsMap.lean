import VectorIndex.Schema.Description
import VectorIndex.Setting.Json

/-!
# Settings maps

What an engine gets beside the description: an object with the name of the
component, its description, and as `parameters` the values that the
description does not show. The value of a choice is the map of the selected
alternative without its description; it is kept also if the description shows
it.

Names ascend in every object of the map.
-/

namespace VectorIndex

/-- The template of `c` shows the parameter. -/
def Component.shows (c : Component) (parameter : String) : Bool :=
  c.template.any (·.shows parameter)

/-- A component in a map, given its parameters. -/
def mapObject (name : String) (parameters : List (String × Json)) : Json :=
  .object [("name", .string name), ("parameters", .object (Keyed.ofList parameters))]

mutual

/-- A value of the parameter `name` of `c` in the map, unless the description
shows it. The alternative is missing only if the value is not one of `c`; it
is then written out in full. -/
def settingMap (c : Component) (name : String) : Setting → Option Json
  | .component selected settings =>
    match c.select? name selected with
    | some a => some (mapObject a.name (settingsMap a settings))
    | none => some (Setting.component selected settings).json.sorted
  | v => if c.shows name then none else some v.json

/-- The values of `c` in the map, in their order. -/
def settingsMap (c : Component) : List (String × Setting) → List (String × Json)
  | [] => []
  | (k, v) :: rest =>
    match settingMap c k v with
    | some j => (k, j) :: settingsMap c rest
    | none => settingsMap c rest

end

/-- The map of a component with given values. -/
def Component.settingsMap (c : Component) (v : Values) : Json :=
  let members : List (String × Json) :=
    [("name", .string c.name),
      ("parameters", .object (Keyed.ofList (VectorIndex.settingsMap c v.entries)))]
  match c.description v with
  | some text => .object (("index_description", .string text) :: members)
  | none => .object members

end VectorIndex
