import VectorIndex.Decimal.Shortest
import VectorIndex.Json.Draft
import VectorIndex.Text.Quoted

/-!
# Why a text is not what was asked for

* `Found`: what stands where something else was asked for.
* `ReadError`: a fault of the text, or a value that does not fit.

Where in the text an error was met, its line and column, is left out.
-/

namespace VectorIndex.Json

/-- What stands where something else was asked for. -/
inductive Found where
  | null
  | boolean (b : Bool)
  | number (n : Number)
  | string (s : String)
  | array
  | object

/-- The text of what was found. -/
def Found.describe : Found → String
  | null => "null"
  | boolean true => "boolean `true`"
  | boolean false => "boolean `false`"
  | number (.integer n) => "integer `" ++ String.ofList (Decimal.ofInt n) ++ "`"
  | number (.real x) => "floating point `" ++ String.ofList (Decimal.ofFloat x) ++ "`"
  | string s => "string " ++ Text.quoted s
  | array => "sequence"
  | object => "map"

/-- Why a text cannot be read as what was asked for. -/
inductive ReadError where
  /-- The text is not JSON. -/
  | fault (f : Fault)
  /-- A value of one kind stands where another was asked for. -/
  | wrongKind (found : Found) (wanted : String)
  /-- An integer is outside the range asked for. -/
  | outOfRange (n : Int) (wanted : String)
  /-- An array ends too early to be the record `wanted` with `fields` fields. -/
  | tooShort (length : Nat) (wanted : String) (fields : Nat)
  | unknownField (name : String) (known : List String)
  | duplicateField (name : String)
  | missingField (name : String)
  | unknownVariant (name : String) (known : List String)
  /-- A value is none of the kinds of `wanted`. -/
  | noKind (wanted : String)

/-- `name` between backquotes. -/
def backquoted (name : String) : String :=
  "`" ++ name ++ "`"

/-- The names one of which was expected. -/
def oneOf : List String → String
  | [] => "nothing"
  | [a] => backquoted a
  | [a, b] => backquoted a ++ " or " ++ backquoted b
  | names => "one of " ++ ", ".intercalate (names.map backquoted)

/-- The text of a read error. -/
def ReadError.message : ReadError → String
  | fault f => f.message
  | wrongKind found wanted => "invalid type: " ++ found.describe ++ ", expected " ++ wanted
  | outOfRange n wanted =>
    "invalid value: " ++ (Found.number (.integer n)).describe ++ ", expected " ++ wanted
  | tooShort length wanted fields =>
    "invalid length " ++ String.ofList (Decimal.ofNat length) ++ ", expected " ++ wanted ++
      " with " ++ String.ofList (Decimal.ofNat fields) ++ " elements"
  | unknownField name known =>
    "unknown field " ++ backquoted name ++ ", expected " ++ oneOf known
  | duplicateField name => "duplicate field " ++ backquoted name
  | missingField name => "missing field " ++ backquoted name
  | unknownVariant name known =>
    "unknown variant " ++ backquoted name ++ ", expected " ++ oneOf known
  | noKind wanted => "data did not match any variant of untagged enum " ++ wanted

end VectorIndex.Json
