import VectorIndex.Schema.Basic

/-!
# Descriptions

The text by which an index engine builds an index: the keyword of a component,
then its slots, each with the text of its parameter between the two literal
texts of the slot. The text of a scalar is its value, the text of a choice is
the description of the selected alternative. A slot whose alternative has no
description is left out with its literal texts.

Values may come from another component than the one that describes them. A
slot without a value is left out, and noted in `gaps`.

* `Component.description`: the text.
* `Component.gaps`: the slots met on the way that have no value.
-/

namespace VectorIndex

/-- The text of one slot, given the texts of the values by name. -/
def Slot.fill (slot : Slot) (texts : List (String × Option String)) : String :=
  match texts.lookup slot.name with
  | some (some text) => slot.before ++ text ++ slot.after
  | _ => ""

/-- The keyword, then the slots in their order. -/
def Template.fill (t : Template) (texts : List (String × Option String)) : String :=
  t.slots.foldl (fun text slot => text ++ slot.fill texts) t.keyword

mutual

/-- The text of a value of the parameter `name` of `c`, if it has one. -/
def settingText (c : Component) (name : String) : Setting → Option String
  | .component selected settings =>
    (c.select? name selected).bind fun a =>
      a.template.map fun t => t.fill (settingTexts a settings)
  | v => some v.display

/-- The texts of values of `c` by name. -/
def settingTexts (c : Component) : List (String × Setting) → List (String × Option String)
  | [] => []
  | (k, v) :: rest => (k, settingText c k v) :: settingTexts c rest

end

/-- The description of a component with given values, if it has a template. -/
def Component.description (c : Component) (v : Values) : Option String :=
  c.template.map fun t => t.fill (settingTexts c v.entries)

/-! ## Slots without a value -/

/-- A slot that has no value. -/
structure Gap where
  component : String
  parameter : String
deriving DecidableEq

/-- The gaps met in filling `t` for the component `name`, given the gaps met
in the text of each value. -/
def Template.gaps (t : Template) (name : String) (below : List (String × List Gap)) : List Gap :=
  t.slots.flatMap fun slot =>
    match below.lookup slot.name with
    | some gaps => gaps
    | none => [⟨name, slot.name⟩]

mutual

/-- The gaps met in the text of a value. -/
def settingGaps (c : Component) (name : String) : Setting → List Gap
  | .component selected settings =>
    match c.select? name selected with
    | none => []
    | some a =>
      match a.template with
      | none => []
      | some t => t.gaps a.name (settingsGaps a settings)
  | _ => []

/-- The gaps met in the texts of values by name. -/
def settingsGaps (c : Component) : List (String × Setting) → List (String × List Gap)
  | [] => []
  | (k, v) :: rest => (k, settingGaps c k v) :: settingsGaps c rest

end

/-- The gaps met in describing a component with given values, in order. -/
def Component.gaps (c : Component) (v : Values) : List Gap :=
  match c.template with
  | none => []
  | some t => t.gaps c.name (settingsGaps c v.entries)

end VectorIndex
