import VectorIndex.Json.Shape
import VectorIndex.Space.Basic

/-!
# Spaces in JSON

A space is written as its name. It is read from its name, or from an object
whose one member has that name and the value null.

* `Space.json`: writing.
* `Space.read`, `Space.readOptional`: reading, in the second case also null.

What stands behind the brace is read as the name of a member, as in any object. So a number
there is a key that is no string, not a value of the wrong kind, and a text that ends there
is an object that is not finished.
-/

namespace VectorIndex.Space

open Json

/-- A space as a JSON value. -/
def json (s : Space) : Json :=
  .string s.name

/-- The space named in a text. -/
def readName (name : String) : Except ReadError Space :=
  match ofName? name with
  | some s => .ok s
  | none => .error (.unknownVariant name (all.map Space.name))

/-- Accepts null alone. -/
def readNull : Draft → Except ReadError Unit
  | .null => .ok ()
  | d => .error (d.mismatch "unit")

/-- Reads a space. Only a quote or a brace can start one, so whatever else
stands there is not looked into. -/
def read : Draft → Except ReadError Space
  | .string name => readName name
  | .object [] none => .error (.fault .expectedValue)
  | .object [] (some f) => .error (.fault f)
  | .object ((name, d) :: rest) fault => do
    let s ← readName name
    readNull d
    match rest, fault with
    | [], none => return s
    | [], some .endInObject => throw (.fault .endInObject)
    | _, _ => throw (.fault .expectedValue)
  | .broken f none => .error (.fault f)
  | .broken f (some '"') => .error (.fault f)
  | .broken f (some '{') => .error (.fault f)
  | _ => .error (.fault .expectedValue)

/-- Reads a space or null. -/
def readOptional : Draft → Except ReadError (Option Space)
  | .null => .ok none
  | .broken f (some 'n') => .error (.fault f)
  | d => (read d).map some

end VectorIndex.Space
