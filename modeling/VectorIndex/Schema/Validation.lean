import VectorIndex.Schema.Basic

/-!
# Checking a selection

* `Violation`: how a selection breaks a schema.
* `Component.validate`: the values a selection stands for, or the first
  violation. Parameters are checked in the order of declaration, those left
  out by their defaults; settings for parameters that do not exist come last.
* `Parameter.resolve`: the same for one setting.
* `Parameter.accepts`: whether a setting is without violation.
-/

namespace VectorIndex

/-- How a selection breaks a schema. -/
inductive Violation where
  | unknownParameter (name : String)
  | invalidSetting (parameter : String) (value : Setting)
  | unknownAlternative (parameter : String) (name : String)
deriving DecidableEq

/-- The text of a violation. -/
def Violation.message : Violation → String
  | unknownParameter name => "Unknown parameter: " ++ name
  | invalidSetting parameter value =>
    "Invalid value '" ++ value.display ++ "' for parameter '" ++ parameter ++ "'"
  | unknownAlternative parameter name =>
    "Unknown alternative '" ++ name ++ "' for parameter '" ++ parameter ++ "'"

/-- The first setting of `s` that is for none of `parameters`. -/
def undeclared? (parameters : List Parameter) (s : Selection) : Option String :=
  (s.settings.map Prod.fst).find? fun name => !parameters.any (·.name == name)

/-- The setting that counts for `p`: the selected one, or the default. -/
def Selection.settingFor (s : Selection) (p : Parameter) : Setting :=
  (s.get? p.name).getD p.default

mutual

/-- Checks a selection. Its name plays no part. -/
def Component.validate : Component → Selection → Except Violation Values
  | .mk name parameters _ _, s =>
    match resolveAll parameters s with
    | .error v => .error v
    | .ok entries =>
      match undeclared? parameters s with
      | some name => .error (.unknownParameter name)
      | none => .ok ⟨name, entries⟩

/-- The values of `parameters` in their order. -/
def resolveAll : List Parameter → Selection → Except Violation (List (String × Setting))
  | [], _ => .ok []
  | p :: rest, s =>
    match p.resolve (s.settingFor p) with
    | .error v => .error v
    | .ok value =>
      match resolveAll rest s with
      | .error v => .error v
      | .ok entries => .ok ((p.name, value) :: entries)

/-- Checks a setting. A scalar is its own value; a component is checked by the
alternative of its name. -/
def Parameter.resolve : Parameter → Setting → Except Violation Setting
  | .integer name _ accepts, v =>
    match v with
    | .integer n => if accepts n then .ok v else .error (.invalidSetting name v)
    | _ => .error (.invalidSetting name v)
  | .text name _ accepts, v =>
    match v with
    | .text s => if accepts s then .ok v else .error (.invalidSetting name v)
    | _ => .error (.invalidSetting name v)
  | .boolean name _ accepts, v =>
    match v with
    | .boolean b => if accepts b then .ok v else .error (.invalidSetting name v)
    | _ => .error (.invalidSetting name v)
  | .choice name _ alternatives, v =>
    match v with
    | .component selected settings =>
      match validateIn alternatives ⟨selected, settings⟩ with
      | none => .error (.unknownAlternative name selected)
      | some (.error violation) => .error violation
      | some (.ok values) => .ok values.setting
    | _ => .error (.invalidSetting name v)

/-- Checks a selection by the first of `alternatives` that has its name. -/
def validateIn : List Component → Selection → Option (Except Violation Values)
  | [], _ => none
  | c :: rest, s => if c.name == s.name then some (c.validate s) else validateIn rest s

end

/-- The setting is without violation. -/
def Parameter.accepts (p : Parameter) (v : Setting) : Bool :=
  (p.resolve v).isOk

theorem validateIn_eq (alternatives : List Component) (s : Selection) :
    validateIn alternatives s =
      (alternatives.find? (·.name == s.name)).map (·.validate s) := by
  induction alternatives with
  | nil => rfl
  | cons c rest ih =>
    by_cases h : c.name == s.name <;> simp [validateIn, h, ih]

end VectorIndex
