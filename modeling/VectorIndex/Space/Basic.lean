/-!
# Spaces

The metric an index is built for.

* `Space`: the spaces there are, in the order in which they are listed.
* `Space.name`, `Space.ofName?`: a space and its name.
-/

namespace VectorIndex

/-- A distance space. -/
inductive Space where
  | undefined
  | l2
  | cosine
  | linf
  | l1
  | innerProduct
  | hamming
deriving DecidableEq, Ord, Repr

namespace Space

/-- Every space. -/
def all : List Space :=
  [undefined, l2, cosine, linf, l1, innerProduct, hamming]

/-- The name of a space. -/
def name : Space → String
  | undefined => "undefined"
  | l2 => "l2"
  | cosine => "cosinesimil"
  | linf => "linf"
  | l1 => "l1"
  | innerProduct => "innerproduct"
  | hamming => "hamming"

/-- The space with a given name. -/
def ofName? (name : String) : Option Space :=
  all.find? (·.name == name)

theorem mem_all (s : Space) : s ∈ all := by
  cases s <;> decide

@[simp] theorem ofName?_name (s : Space) : ofName? s.name = some s := by
  cases s <;> decide

theorem name_of_ofName? {name : String} {s : Space} (h : ofName? name = some s) :
    s.name = name := by
  simpa using List.find?_some h

end Space

end VectorIndex
