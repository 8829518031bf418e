import VectorIndex.Json.ReadError
import VectorIndex.Json.Reader

/-!
# Reading a text as a value of known shape

A reader of a shape is a function `Draft → Except ReadError α` that meets the
parts of the draft in the order of the text.

* `mismatch`: the error when a draft is of the wrong kind.
* `readString`, `readInt64`: scalars.
* `Record`: named fields, written as an object with the fields in any order or
  as an array of the fields in their order.
* `readText`: a whole text, of which only blanks may be left.
-/

namespace VectorIndex.Json

/-- The error for a draft that is not of the kind `wanted`. A draft that
cannot be read is reported for its fault. -/
def Draft.mismatch (wanted : String) : Draft → ReadError
  | null => .wrongKind .null wanted
  | boolean b => .wrongKind (.boolean b) wanted
  | number n => .wrongKind (.number n) wanted
  | string s => .wrongKind (.string s) wanted
  | array _ _ => .wrongKind .array wanted
  | object _ _ => .wrongKind .object wanted
  | broken f _ => .fault f

/-- The error behind a value, if the list or object it is in ends with one. -/
def ending (fault : Option Fault) : Except ReadError Unit :=
  match fault with
  | some f => .error (.fault f)
  | none => .ok ()

/-! ## Scalars -/

/-- Reads a string. -/
def readString : Draft → Except ReadError String
  | .string s => .ok s
  | d => .error (d.mismatch "a string")

/-- Reads a 64-bit integer. -/
def readInt64 : Draft → Except ReadError Int64
  | .number (.integer n) =>
    match Decimal.int64OfInt? n with
    | some i => .ok i
    | none => .error (.outOfRange n "i64")
  | d => .error (d.mismatch "i64")

/-! ## Records -/

/-- A field of a record under construction of type `σ`. -/
structure Field (σ : Type) where
  name : String
  store : Draft → σ → Except ReadError σ

/-- How the fields of a record are written. -/
inductive Layout where
  | byName
  | byPosition

/-- A record that is collected field by field in `σ` and ends up as an `α`. -/
structure Record (σ α : Type) where
  title : String
  fields : List (Field σ)
  start : σ
  finish : Layout → σ → Except ReadError α

/-- Stores the members of an object in turn. The name of a member is looked at
before its value: it must be the name of a field, and not of one in `seen`. -/
def storeMembers {σ : Type} (fields : List (Field σ)) :
    List String → σ → List (String × Draft) → Except ReadError σ
  | _, s, [] => .ok s
  | seen, s, (name, d) :: rest =>
    match fields.find? (·.name == name) with
    | none => .error (.unknownField name (fields.map (·.name)))
    | some field =>
      if seen.contains name then .error (.duplicateField name)
      else do
        let s ← field.store d s
        storeMembers fields (name :: seen) s rest

/-- What may follow the item for the last field: the end of the array. -/
def arrayEnd : List Draft → Option Fault → Except ReadError Unit
  | [], none => .ok ()
  | [], some .trailingComma => .error (.fault .trailingComma)
  | [], some .endInList => .error (.fault .endInList)
  | _, _ => .error (.fault .trailingCharacters)

/-- Stores the items of an array in turn, one for each field. Fields at the
end may be left out. -/
def storeItems {σ : Type} :
    List (Field σ) → σ → List Draft → Option Fault → Except ReadError σ
  | [], s, items, fault => do
    arrayEnd items fault
    return s
  | _, s, [], fault => do
    ending fault
    return s
  | field :: fields, s, d :: rest, fault => do
    let s ← field.store d s
    storeItems fields s rest fault

/-- Reads a record. -/
def Record.read {σ α : Type} (r : Record σ α) : Draft → Except ReadError α
  | .object members fault => do
    let s ← storeMembers r.fields [] r.start members
    ending fault
    r.finish .byName s
  | .array items fault => do
    let s ← storeItems r.fields r.start items fault
    r.finish .byPosition s
  | d => .error (d.mismatch ("struct " ++ r.title))

/-- The value of a field without which the record is not complete. It is the
first field, so an array without it is empty. -/
def Record.required {α : Type} (title : String) (fields : Nat) (name : String)
    (layout : Layout) (value : Option α) : Except ReadError α :=
  match value, layout with
  | some a, _ => .ok a
  | none, .byName => .error (.missingField name)
  | none, .byPosition => .error (.tooShort 0 ("struct " ++ title) fields)

/-! ## Texts -/

/-- Reads a whole text by `shape`. -/
def readText {α : Type} (shape : Draft → Except ReadError α) (text : String) :
    Except ReadError α := do
  let read := Reader.value Reader.maxDepth text.toList
  let a ← shape read.got
  match read.rest.map Reader.skipBlanks with
  | some [] => return a
  | _ => throw (.fault .trailingCharacters)

end VectorIndex.Json
