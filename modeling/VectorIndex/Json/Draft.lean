import VectorIndex.Json.Basic
import VectorIndex.Json.Fault

/-!
# Drafts

A draft is a JSON text as far as it can be read: a whole value, or the part of
one up to the first fault. Whoever wants a particular shape walks the draft in
reading order and reports what comes first, a fault of the text or a value
that does not fit. In this way text is read once, and each reader of a shape
is a function on trees.

* `Draft`: the tree.
* `Draft.json?`: the value, if there is no fault.
-/

namespace VectorIndex.Json

/-- A value as far as it can be read.

The items of an array and the members of an object may be followed by the
fault that ended them, and the last of them may hold a fault itself. -/
inductive Draft where
  | null
  | boolean (b : Bool)
  | number (n : Number)
  | string (s : String)
  | array (items : List Draft) (fault : Option Fault)
  | object (members : List (String × Draft)) (fault : Option Fault)
  /-- A value that cannot be read, and the character it starts with, unless
  reading did not get that far. -/
  | broken (fault : Fault) (first : Option Char)

namespace Draft

mutual

/-- The value of a draft, or the first fault in it. -/
def json? : Draft → Except Fault Json
  | null => .ok .null
  | boolean b => .ok (.boolean b)
  | number n => .ok (.number n)
  | string s => .ok (.string s)
  | array items fault => do
    let items ← itemsJson? items
    match fault with
    | some f => .error f
    | none => .ok (.array items)
  | object members fault => do
    let members ← membersJson? members
    match fault with
    | some f => .error f
    | none => .ok (.object members)
  | broken f _ => .error f

/-- `json?` on every item. -/
def itemsJson? : List Draft → Except Fault (List Json)
  | [] => .ok []
  | d :: rest => do
    let j ← d.json?
    let js ← itemsJson? rest
    return j :: js

/-- `json?` on the value of every member. -/
def membersJson? : List (String × Draft) → Except Fault (List (String × Json))
  | [] => .ok []
  | (k, d) :: rest => do
    let j ← d.json?
    let js ← membersJson? rest
    return (k, j) :: js

end

end Draft

end VectorIndex.Json
