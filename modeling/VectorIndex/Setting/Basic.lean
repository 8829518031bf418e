import VectorIndex.Decimal.Integer
import VectorIndex.Keyed

/-!
# Settings

* `Setting`: a scalar, or the choice of a component with settings of its own.
* `Selection`: what a user picks for a component. It may leave parameters out.
* `Values`: the settings of a component after checking, one for each of its
  parameters in the order of declaration.

A user's settings are kept in the order of their names (`Keyed`), so it does
not matter in which order they were given.
-/

namespace VectorIndex

/-- The setting of one parameter. -/
inductive Setting where
  | boolean (b : Bool)
  | integer (n : Int64)
  | text (s : String)
  | component (name : String) (settings : List (String × Setting))

namespace Setting

/-! ## Equality -/

mutual

/-- Equality of settings is decided part by part. -/
def decEq : (a b : Setting) → Decidable (a = b)
  | boolean a, boolean b =>
    if h : a = b then isTrue (h ▸ rfl) else isFalse fun e => h (Setting.boolean.inj e)
  | integer a, integer b =>
    if h : a = b then isTrue (h ▸ rfl) else isFalse fun e => h (Setting.integer.inj e)
  | text a, text b =>
    if h : a = b then isTrue (h ▸ rfl) else isFalse fun e => h (Setting.text.inj e)
  | component m xs, component n ys =>
    if h : m = n then
      match decEqList xs ys with
      | isTrue h' => isTrue (h ▸ h' ▸ rfl)
      | isFalse h' => isFalse fun e => h' (Setting.component.inj e).2
    else isFalse fun e => h (Setting.component.inj e).1
  | boolean _, integer _ | boolean _, text _ | boolean _, component _ _
  | integer _, boolean _ | integer _, text _ | integer _, component _ _
  | text _, boolean _ | text _, integer _ | text _, component _ _
  | component _ _, boolean _ | component _ _, integer _ | component _ _, text _ =>
    isFalse nofun

/-- Equality of lists of named settings. -/
def decEqList : (xs ys : List (String × Setting)) → Decidable (xs = ys)
  | [], [] => isTrue rfl
  | [], _ :: _ | _ :: _, [] => isFalse nofun
  | (k, a) :: xs, (l, b) :: ys =>
    if h : k = l then
      match a.decEq b, decEqList xs ys with
      | isTrue h', isTrue h'' => isTrue (h ▸ h' ▸ h'' ▸ rfl)
      | isFalse h', _ => isFalse fun e => h' (Prod.mk.inj (List.cons.inj e).1).2
      | _, isFalse h'' => isFalse fun e => h'' (List.cons.inj e).2
    else isFalse fun e => h (Prod.mk.inj (List.cons.inj e).1).1

end

instance : DecidableEq Setting := decEq

/-! ## Text -/

/-- The word for a truth value. -/
def wordOf (b : Bool) : String :=
  if b then "true" else "false"

mutual

/-- The full text of a setting; a component shows its settings in braces if
it has any. -/
def display : Setting → String
  | boolean b => wordOf b
  | integer n => Decimal.ofInt64 n
  | text s => s
  | component name [] => name
  | component name ((k, v) :: rest) =>
    name ++ "\x7b" ++ k ++ "=" ++ v.display ++ displayRest rest

/-- The text behind the first setting of a component. -/
def displayRest : List (String × Setting) → String
  | [] => "\x7d"
  | (k, v) :: rest => "," ++ k ++ "=" ++ v.display ++ displayRest rest

end

/-- The short text of a setting; a component shows its name alone. -/
def brief : Setting → String
  | component name _ => name
  | v => v.display

end Setting

/-! ## Selections -/

/-- What a user picks for a component: its name and settings for some of its
parameters, in the order of their names. -/
structure Selection where
  name : String
  settings : List (String × Setting)
deriving DecidableEq

namespace Selection

/-- The selection of `name` that leaves every parameter out. -/
def plain (name : String) : Selection :=
  ⟨name, []⟩

/-- Sets a parameter. The last setting of a parameter stands. -/
def set (s : Selection) (parameter : String) (v : Setting) : Selection :=
  { s with settings := Keyed.insert parameter v s.settings }

/-- The setting of a parameter. -/
def get? (s : Selection) (parameter : String) : Option Setting :=
  s.settings.lookup parameter

@[simp] theorem get?_set (s : Selection) (parameter other : String) (v : Setting) :
    (s.set parameter v).get? other = if other = parameter then some v else s.get? other :=
  Keyed.lookup_insert other parameter v s.settings

/-- The selection as the setting of a parameter. -/
def setting (s : Selection) : Setting :=
  .component s.name s.settings

/-- The text of a selection. -/
def display (s : Selection) : String :=
  s.setting.display

end Selection

/-! ## Values -/

/-- Checked settings of a component, one for each of its parameters in the
order of declaration. -/
structure Values where
  name : String
  entries : List (String × Setting)
deriving DecidableEq

namespace Values

/-- The value of a parameter. -/
def get? (v : Values) (parameter : String) : Option Setting :=
  v.entries.lookup parameter

/-- The values as the setting of a parameter. -/
def setting (v : Values) : Setting :=
  .component v.name v.entries

end Values

end VectorIndex
