import Mathlib.Algebra.Group.Nat.Defs
import VectorIndex.Json.NumberLiteral

/-!
# The grammar of JSON

Which texts spell which value, stated without the reader. A relation between a
text, what stands at its front and the rest of the text says that the front of
the text spells it and the rest is what follows.

* `Grammar.Character`, `Grammar.Characters`, `Grammar.Str`: string literals with
  their escapes.
* `Grammar.Number`: number literals. A literal without fraction and exponent is
  an exact integer if it fits 64 bits and is not minus zero.
* `Grammar.Value`, `Grammar.Element`, `Grammar.Items`, `Grammar.Members`:
  values, values between blanks, and the insides of arrays and objects.
* `Grammar.Text`: a whole text.
* `Json.nesting`: how many arrays and objects stand inside each other.
-/

namespace VectorIndex.Json

namespace Grammar

/-! ## Blanks -/

/-- Space, line feed, tab and carriage return. -/
def blankCharacters : List Char :=
  [' ', '\n', '\t', '\r']

/-- The text is the rest with blanks in front. -/
inductive Blanks : List Char → List Char → Prop where
  | none {rest} : Blanks rest rest
  | more {c text rest} : c ∈ blankCharacters → Blanks text rest → Blanks (c :: text) rest

/-! ## Strings -/

/-- The hexadecimal digits of the numbers below sixteen, in lower case. -/
def lowerDigits : List Char :=
  ['0', '1', '2', '3', '4', '5', '6', '7', '8', '9', 'a', 'b', 'c', 'd', 'e', 'f']

/-- The hexadecimal digits of the numbers below sixteen, in upper case. -/
def upperDigits : List Char :=
  ['0', '1', '2', '3', '4', '5', '6', '7', '8', '9', 'A', 'B', 'C', 'D', 'E', 'F']

/-- The character is the hexadecimal digit of `n`. -/
def HexDigit (c : Char) (n : Nat) : Prop :=
  lowerDigits[n]? = some c ∨ upperDigits[n]? = some c

/-- An escape with four hexadecimal digits for a number. -/
inductive UnitEscape : List Char → Nat → List Char → Prop where
  | mk {a b c d i j k l u rest} :
      HexDigit a i → HexDigit b j → HexDigit c k → HexDigit d l →
      u = 4096 * i + 256 * j + 16 * k + l →
      UnitEscape ('\\' :: 'u' :: a :: b :: c :: d :: rest) u rest

/-- The one-letter escapes and what they stand for. -/
def letterEscapes : List (Char × Char) :=
  [('"', '"'), ('\\', '\\'), ('/', '/'), ('b', '\x08'), ('f', '\x0c'), ('n', '\n'),
    ('r', '\r'), ('t', '\t')]

/-- One character of a string literal: as it is, or escaped by a letter, by
its number, or by the two halves of a surrogate pair. -/
inductive Character : List Char → Char → List Char → Prop where
  | plain {c rest} :
      c ≠ '"' → c ≠ '\\' → 0x20 ≤ c.toNat → Character (c :: rest) c rest
  | letter {e c rest} :
      (e, c) ∈ letterEscapes → Character ('\\' :: e :: rest) c rest
  | number {text c rest} : UnitEscape text c.toNat rest → Character text c rest
  | pair {text c text' lead trail rest} :
      UnitEscape text lead text' → UnitEscape text' trail rest →
      0xd800 ≤ lead → lead ≤ 0xdbff → 0xdc00 ≤ trail → trail ≤ 0xdfff →
      c.toNat = 0x10000 + (lead - 0xd800) * 0x400 + (trail - 0xdc00) →
      Character text c rest

/-- The characters of a string literal from behind its opening quote, and the
text behind its closing quote. -/
inductive Characters : List Char → List Char → List Char → Prop where
  | close {rest} : Characters ('"' :: rest) [] rest
  | more {text c text' cs rest} :
      Character text c text' → Characters text' cs rest → Characters text (c :: cs) rest

/-- A string literal. -/
inductive Str : List Char → String → List Char → Prop where
  | mk {text cs rest} : Characters text cs rest → Str ('"' :: text) (String.ofList cs) rest

/-! ## Numbers -/

/-- Digits, at least one. -/
def Digits (ds : List Char) : Prop :=
  ds ≠ [] ∧ ∀ c ∈ ds, c.isDigit = true

/-- Digits of a whole number: a zero in front stands alone. -/
def Whole (ds : List Char) : Prop :=
  Digits ds ∧ ∀ rest, ds = '0' :: rest → rest = []

/-- The digits behind a point, if there is one, and how they are written. -/
inductive Fraction : Option (List Char) → List Char → Prop where
  | absent : Fraction none []
  | present {ds} : Digits ds → Fraction (some ds) ('.' :: ds)

/-- The sign and digits of an exponent, if there is one, and how they are
written. -/
inductive Exponent : Option (Bool × List Char) → List Char → Prop where
  | absent : Exponent none []
  | bare {e ds} : e ∈ ['e', 'E'] → Digits ds → Exponent (some (false, ds)) (e :: ds)
  | plus {e ds} : e ∈ ['e', 'E'] → Digits ds → Exponent (some (false, ds)) (e :: '+' :: ds)
  | minus {e ds} : e ∈ ['e', 'E'] → Digits ds → Exponent (some (true, ds)) (e :: '-' :: ds)

/-- The sign in front of a number. -/
def sign (negative : Bool) : List Char :=
  if negative then ['-'] else []

/-- How the parts of a number are written. -/
inductive Literal : NumberLiteral.Spelling → List Char → Prop where
  | mk {negative whole fraction exponent f e} :
      Whole whole → Fraction fraction f → Exponent exponent e →
      Literal ⟨negative, whole, fraction, exponent⟩ (sign negative ++ (whole ++ (f ++ e)))

/-- A number: an integer that fits 64 bits, minus zero apart, or the double
for any other literal. -/
inductive Number : List Char → Json.Number → List Char → Prop where
  | natural {ds rest} :
      Whole ds → Decimal.value ds < 2 ^ 64 →
      Number (ds ++ rest) (.integer (Decimal.value ds)) rest
  | negative {ds rest} :
      Whole ds → 0 < Decimal.value ds → Decimal.value ds ≤ 2 ^ 63 →
      Number ('-' :: (ds ++ rest)) (.integer (-(Decimal.value ds : Int))) rest
  | real {s literal x rest} :
      Literal s literal → s.integer? = none → s.real? = some x →
      Number (literal ++ rest) (.real x) rest

/-! ## Values -/

/-- The name of a member between blanks, and the colon behind it. -/
inductive Name : List Char → String → List Char → Prop where
  | mk {text text' name rest' rest} :
      Blanks text text' → Str text' name rest' → Blanks rest' (':' :: rest) →
      Name text name rest

mutual

/-- A value, without blanks around it. -/
inductive Value : List Char → Json → List Char → Prop where
  | null {rest} : Value ('n' :: 'u' :: 'l' :: 'l' :: rest) .null rest
  | true {rest} : Value ('t' :: 'r' :: 'u' :: 'e' :: rest) (.boolean true) rest
  | false {rest} : Value ('f' :: 'a' :: 'l' :: 's' :: 'e' :: rest) (.boolean false) rest
  | number {text n rest} : Number text n rest → Value text (.number n) rest
  | string {text s rest} : Str text s rest → Value text (.string s) rest
  | emptyArray {text rest} : Blanks text (']' :: rest) → Value ('[' :: text) (.array []) rest
  | array {text items rest} : Items text items rest → Value ('[' :: text) (.array items) rest
  | emptyObject {text rest} :
      Blanks text ('\x7d' :: rest) → Value ('\x7b' :: text) (.object []) rest
  | object {text members rest} :
      Members text members rest → Value ('\x7b' :: text) (.object members) rest

/-- A value between blanks. -/
inductive Element : List Char → Json → List Char → Prop where
  | mk {text text' j rest' rest} :
      Blanks text text' → Value text' j rest' → Blanks rest' rest → Element text j rest

/-- Items with commas between them, and the closing bracket. -/
inductive Items : List Char → List Json → List Char → Prop where
  | last {text j rest} : Element text j (']' :: rest) → Items text [j] rest
  | more {text j text' items rest} :
      Element text j (',' :: text') → Items text' items rest → Items text (j :: items) rest

/-- Members with commas between them, and the closing brace. -/
inductive Members : List Char → List (String × Json) → List Char → Prop where
  | last {text name text' j rest} :
      Name text name text' → Element text' j ('\x7d' :: rest) →
      Members text [(name, j)] rest
  | more {text name text' j text'' members rest} :
      Name text name text' → Element text' j (',' :: text'') → Members text'' members rest →
      Members text ((name, j) :: members) rest

end

/-- The text spells the value: a value between blanks, and nothing else. -/
def Text (text : String) (j : Json) : Prop :=
  Element text.toList j []

end Grammar

/-! ## Nesting -/

mutual

/-- How many arrays and objects stand inside each other at most. -/
def nesting : Json → Nat
  | array items => itemsNesting items + 1
  | object members => membersNesting members + 1
  | _ => 0

/-- The nesting of the items of an array. -/
def itemsNesting : List Json → Nat
  | [] => 0
  | j :: rest => max j.nesting (itemsNesting rest)

/-- The nesting of the members of an object. -/
def membersNesting : List (String × Json) → Nat
  | [] => 0
  | (_, j) :: rest => max j.nesting (membersNesting rest)

end

end VectorIndex.Json
