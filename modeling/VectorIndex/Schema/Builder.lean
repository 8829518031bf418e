import VectorIndex.Schema.Validation

/-!
# Building schemas

* `Defect`: why a schema is refused.
* `Parameter.ofInteger`, `ofText`, `ofBoolean`, `ofChoice`: parameters whose
  default they themselves accept.
* `Component.Builder`: collects the parts of a component; `build` checks that
  parameter names are distinct and that the template shows declared parameters
  only.
-/

namespace VectorIndex

/-- Why a schema is refused. -/
inductive Defect where
  | noAlternatives (parameter : String)
  | duplicateAlternative (parameter : String) (name : String)
  | duplicateParameter (component : String) (parameter : String)
  | invalidDefault (parameter : String)
  | unknownDefault (parameter : String) (name : String)
  | undeclaredSlot (component : String) (parameter : String)
deriving DecidableEq

/-- The text of a defect. -/
def Defect.message : Defect → String
  | noAlternatives parameter =>
    "Parameter '" ++ parameter ++ "' has no alternatives to choose from"
  | duplicateAlternative parameter name =>
    "Parameter '" ++ parameter ++ "' registers alternative '" ++ name ++ "' more than once"
  | duplicateParameter component parameter =>
    "Component '" ++ component ++ "' declares parameter '" ++ parameter ++ "' more than once"
  | invalidDefault parameter =>
    "Default value of parameter '" ++ parameter ++ "' does not satisfy its validator"
  | unknownDefault parameter name =>
    "Default alternative '" ++ name ++ "' of parameter '" ++ parameter ++ "' is not registered"
  | undeclaredSlot component parameter =>
    "Description of component '" ++ component ++ "' references undeclared parameter '" ++
      parameter ++ "'"

/-- The first of `names` that occurs before, in `names` or in `seen`. -/
def firstRepeated? (seen : List String) : List String → Option String
  | [] => none
  | name :: rest =>
    if seen.contains name then some name else firstRepeated? (name :: seen) rest

/-! ## Parameters -/

namespace Parameter

/-- `p`, if it accepts its own default. -/
def checked (p : Parameter) : Except Defect Parameter :=
  if p.accepts p.default then .ok p else .error (.invalidDefault p.name)

/-- An integer parameter. -/
def ofInteger (name : String) (default : Int64) (accepts : Int64 → Bool) :
    Except Defect Parameter :=
  checked (.integer name default accepts)

/-- A text parameter. -/
def ofText (name : String) (default : String) (accepts : String → Bool) :
    Except Defect Parameter :=
  checked (.text name default accepts)

/-- A truth value. -/
def ofBoolean (name : String) (default : Bool) (accepts : Bool → Bool) :
    Except Defect Parameter :=
  checked (.boolean name default accepts)

/-- A choice between components of distinct names, by default the one that
`default` selects. -/
def ofChoice (name : String) (default : Selection) (alternatives : List Component) :
    Except Defect Parameter :=
  let names := alternatives.map (·.name)
  if names.isEmpty then .error (.noAlternatives name)
  else
    match firstRepeated? [] names with
    | some repeated => .error (.duplicateAlternative name repeated)
    | none =>
      if names.contains default.name then checked (.choice name default alternatives)
      else .error (.unknownDefault name default.name)

end Parameter

/-! ## Components -/

/-- The parts of a component before they are checked. -/
structure Component.Builder where
  name : String
  parameters : List Parameter
  template : Option Template
  training : Bool

namespace Component.Builder

/-- A component without parameters, description and training. -/
def empty (name : String) : Builder :=
  ⟨name, [], none, false⟩

/-- Adds a parameter behind those there are. -/
def add (b : Builder) (p : Parameter) : Builder :=
  { b with parameters := b.parameters ++ [p] }

/-- Sets the template; the last one set counts. -/
def describe (b : Builder) (t : Template) : Builder :=
  { b with template := some t }

/-- Says whether training is needed; the last word counts. -/
def train (b : Builder) (training : Bool) : Builder :=
  { b with training := training }

/-- The first slot of the template that no parameter fills. -/
def undeclaredSlot? (b : Builder) : Option Slot :=
  b.template.bind fun t => t.slots.find? fun slot =>
    !b.parameters.any (·.name == slot.name)

/-- The component, or its first defect. -/
def build (b : Builder) : Except Defect Component :=
  match firstRepeated? [] (b.parameters.map (·.name)) with
  | some repeated => .error (.duplicateParameter b.name repeated)
  | none =>
    match b.undeclaredSlot? with
    | some slot => .error (.undeclaredSlot b.name slot.name)
    | none => .ok (.mk b.name b.parameters b.template b.training)

end Component.Builder

end VectorIndex
