import VectorIndex.Failure
import VectorIndex.Schema.SettingsMap
import VectorIndex.Schema.Training

/-!
# Methods

A method is a component together with the spaces it can be built for.
-/

namespace VectorIndex

/-- A component and the spaces it supports. -/
structure Method where
  component : Component
  spaces : List Space

namespace Method

/-- The name of a method. -/
def name (m : Method) : String :=
  m.component.name

/-- Accepts the spaces that the method supports. -/
def validateSpace (m : Method) (space : Space) : Except Failure Unit :=
  if m.spaces.contains space then .ok () else .error (.unsupportedSpace m.name space)

/-- Checks a selection. -/
def validate (m : Method) (s : Selection) : Except Violation Values :=
  m.component.validate s

/-- Checks the space, then the selection. -/
def validateWithSpace (m : Method) (s : Selection) (space : Space) : Except Failure Values := do
  m.validateSpace space
  (m.validate s).mapError .violation

/-- The description of checked values, empty if the component has none. -/
def description (m : Method) (v : Values) : String :=
  (m.component.description v).getD ""

end Method

end VectorIndex
