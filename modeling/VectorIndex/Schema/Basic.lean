import VectorIndex.Setting.Basic

/-!
# Schemas

A component is an ordered list of parameters. A parameter has a name, a
default, and says which settings it accepts; the setting of a choice is
another component out of a list of alternatives, so schemas are trees.

* `Slot`, `Template`: how a component is written as a description.
* `Parameter`, `Component`: the tree.
* `Component.parameter?`, `Parameter.alternative?`, `Component.select?`:
  looking down the tree by name.

Schemas are put together by the checked constructors of `Schema.Builder`. The
functions on schemas make sense for every tree, also for one that these
constructors would refuse.
-/

namespace VectorIndex

/-- A parameter shown in a description, between two literal texts. -/
structure Slot where
  name : String
  before : String
  after : String
deriving DecidableEq

/-- A description: a keyword, then slots. -/
structure Template where
  keyword : String
  slots : List Slot
deriving DecidableEq

namespace Template

/-- The description shows the parameter. -/
def shows (t : Template) (parameter : String) : Bool :=
  t.slots.any (·.name == parameter)

end Template

mutual

/-- A named parameter of a component with its default. -/
inductive Parameter where
  | integer (name : String) (default : Int64) (accepts : Int64 → Bool)
  | text (name : String) (default : String) (accepts : String → Bool)
  | boolean (name : String) (default : Bool) (accepts : Bool → Bool)
  /-- One of several components, selected by its name. -/
  | choice (name : String) (default : Selection) (alternatives : List Component)

/-- A method, or a part of one: its parameters in the order of declaration,
how it is described, and whether an index that uses it has to be trained. -/
inductive Component where
  | mk (name : String) (parameters : List Parameter) (template : Option Template)
      (training : Bool)

end

/-- The kinds of settings a parameter can take. -/
inductive Kind where
  | integer
  | text
  | boolean
  | choice
deriving DecidableEq

namespace Parameter

/-- The name of a parameter. -/
def name : Parameter → String
  | integer name .. | text name .. | boolean name .. | choice name .. => name

/-- The kind of setting a parameter takes. -/
def kind : Parameter → Kind
  | integer .. => .integer
  | text .. => .text
  | boolean .. => .boolean
  | choice .. => .choice

/-- The setting that stands for a parameter left out. -/
def default : Parameter → Setting
  | integer _ n _ => .integer n
  | text _ s _ => .text s
  | boolean _ b _ => .boolean b
  | choice _ s _ => s.setting

/-- The components a choice is made from, none for a scalar. -/
def alternatives : Parameter → List Component
  | choice _ _ alternatives => alternatives
  | _ => []

end Parameter

namespace Component

/-- The name of a component. -/
def name : Component → String
  | mk name _ _ _ => name

/-- The parameters in the order of declaration. -/
def parameters : Component → List Parameter
  | mk _ parameters _ _ => parameters

/-- How the component is described, if it is. -/
def template : Component → Option Template
  | mk _ _ template _ => template

/-- An index that uses the component has to be trained. -/
def training : Component → Bool
  | mk _ _ _ training => training

/-- The parameter of a given name. -/
def parameter? (c : Component) (name : String) : Option Parameter :=
  c.parameters.find? (·.name == name)

end Component

/-- The alternative of a given name. -/
def Parameter.alternative? (p : Parameter) (name : String) : Option Component :=
  p.alternatives.find? (·.name == name)

/-- The alternative of a given name that the parameter of a given name offers. -/
def Component.select? (c : Component) (parameter alternative : String) : Option Component :=
  (c.parameter? parameter).bind (·.alternative? alternative)

end VectorIndex
