import VectorIndex.Schema.Basic

/-!
# Training

An index has to be trained if its component or one of the selected components
below it asks for it.
-/

namespace VectorIndex

mutual

/-- The component selected for the parameter `name` of `c`, or one below it,
asks for training. -/
def settingTrains (c : Component) (name : String) : Setting → Bool
  | .component selected settings =>
    match c.select? name selected with
    | some a => a.training || settingsTrain a settings
    | none => false
  | _ => false

/-- One of the values of `c` asks for training. -/
def settingsTrain (c : Component) : List (String × Setting) → Bool
  | [] => false
  | (k, v) :: rest => settingTrains c k v || settingsTrain c rest

end

/-- An index of the component with given values has to be trained. -/
def Component.trainingRequired (c : Component) (v : Values) : Bool :=
  c.training || settingsTrain c v.entries

end VectorIndex
