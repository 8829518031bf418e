import VectorIndex.Decimal.Shortest
import VectorIndex.Json.Basic
import VectorIndex.Json.StringLiteral

/-!
# Writing JSON

* `compact`: without any blanks.
* `pretty`: one item or member a line, two spaces deeper than what it is in;
  an empty array or object stays on one line.

Members are written in the order in which the value holds them.
-/

namespace VectorIndex.Json

/-- The literal of a number. -/
def Number.chars : Number → List Char
  | integer n => Decimal.ofInt n
  | real x => Decimal.ofFloat x

/-- The word for a truth value. -/
def wordOf (b : Bool) : List Char :=
  if b then ['t', 'r', 'u', 'e'] else ['f', 'a', 'l', 's', 'e']

/-! ## Compact text -/

mutual

/-- The compact text of a value. -/
def chars : Json → List Char
  | null => ['n', 'u', 'l', 'l']
  | boolean b => wordOf b
  | number n => n.chars
  | string s => StringLiteral.write s
  | array [] => ['[', ']']
  | array (j :: rest) => '[' :: j.chars ++ itemsChars rest
  | object [] => ['{', '}']
  | object ((k, j) :: rest) =>
    '{' :: StringLiteral.write k ++ ':' :: j.chars ++ membersChars rest

/-- The text behind the first item of an array. -/
def itemsChars : List Json → List Char
  | [] => [']']
  | j :: rest => ',' :: j.chars ++ itemsChars rest

/-- The text behind the first member of an object. -/
def membersChars : List (String × Json) → List Char
  | [] => ['}']
  | (k, j) :: rest => ',' :: StringLiteral.write k ++ ':' :: j.chars ++ membersChars rest

end

/-- The compact text of a value. -/
def compact (j : Json) : String :=
  String.ofList j.chars

/-! ## Indented text -/

/-- A new line, indented by `depth` levels. -/
def newLine (depth : Nat) : List Char :=
  '\n' :: List.replicate (2 * depth) ' '

mutual

/-- The indented text of a value that stands `depth` levels deep. -/
def prettyChars (depth : Nat) : Json → List Char
  | null => ['n', 'u', 'l', 'l']
  | boolean b => wordOf b
  | number n => n.chars
  | string s => StringLiteral.write s
  | array [] => ['[', ']']
  | array (j :: rest) =>
    '[' :: newLine (depth + 1) ++ j.prettyChars (depth + 1) ++ prettyItems depth rest
  | object [] => ['{', '}']
  | object ((k, j) :: rest) =>
    '{' :: newLine (depth + 1) ++ StringLiteral.write k ++ ':' :: ' ' ::
      j.prettyChars (depth + 1) ++ prettyMembers depth rest

/-- The text behind the first item of an array that stands `depth` levels
deep. -/
def prettyItems (depth : Nat) : List Json → List Char
  | [] => newLine depth ++ [']']
  | j :: rest =>
    ',' :: newLine (depth + 1) ++ j.prettyChars (depth + 1) ++ prettyItems depth rest

/-- The text behind the first member of an object that stands `depth` levels
deep. -/
def prettyMembers (depth : Nat) : List (String × Json) → List Char
  | [] => newLine depth ++ ['}']
  | (k, j) :: rest =>
    ',' :: newLine (depth + 1) ++ StringLiteral.write k ++ ':' :: ' ' ::
      j.prettyChars (depth + 1) ++ prettyMembers depth rest

end

/-- The indented text of a value. -/
def pretty (j : Json) : String :=
  String.ofList (j.prettyChars 0)

end VectorIndex.Json
