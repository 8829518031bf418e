import VectorIndex.Keyed

/-!
# JSON values

* `Json.Number`: an exact integer, or a double when the literal is not one.
* `Json`: a value; an object is the list of its members as written.
* `Json.sorted`: the same value with the members of every object in ascending
  order of their names, the last of equal names standing.
-/

namespace VectorIndex

/-- A number: an exact integer, or a double for every other literal. -/
inductive Json.Number where
  | integer (n : Int)
  | real (x : Float)

/-- A JSON value. -/
inductive Json where
  | null
  | boolean (b : Bool)
  | number (n : Json.Number)
  | string (s : String)
  | array (items : List Json)
  | object (members : List (String × Json))

namespace Json

mutual

/-- The value with the members of every object sorted by name. -/
def sorted : Json → Json
  | null => null
  | boolean b => boolean b
  | number n => number n
  | string s => string s
  | array items => array (sortedItems items)
  | object members => object (Keyed.ofList (sortedMembers members))

/-- `sorted` on every item. -/
def sortedItems : List Json → List Json
  | [] => []
  | j :: rest => j.sorted :: sortedItems rest

/-- `sorted` on the value of every member. -/
def sortedMembers : List (String × Json) → List (String × Json)
  | [] => []
  | (k, j) :: rest => (k, j.sorted) :: sortedMembers rest

end

end Json

end VectorIndex
