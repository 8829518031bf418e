import VectorIndex.Decimal.Integer
import VectorIndex.Json.Basic
import VectorIndex.Json.Fault

/-!
# Number literals

A literal without fraction and exponent is an exact integer if it fits 64
bits, signed when negative and unsigned otherwise; minus zero does not count
as an integer. Every other literal is a double.

The double of a literal is found from its digits read as one natural number,
as far as that number fits 64 bits, times a power of ten. The two roundings
this takes are part of the rule.

* `spelling`: the parts of a literal and the text after it.
* `number?`: the number the parts stand for.
* `read`: both together.
-/

namespace VectorIndex.Json.NumberLiteral

/-- The parts of a number literal. -/
structure Spelling where
  negative : Bool
  whole : List Char
  fraction : Option (List Char)
  exponent : Option (Bool × List Char)

/-- Why digits are missing in front of `text`. -/
def noDigits (text : List Char) : Fault :=
  if text = [] then .endInValue else .invalidNumber

/-- Splits off the digits in front, at least one of them. -/
def digits (text : List Char) : Except Fault (List Char × List Char) :=
  match text.takeWhile Char.isDigit with
  | [] => .error (noDigits text)
  | ds => .ok (ds, text.dropWhile Char.isDigit)

/-- The digits in front of the point: a leading zero stands alone. -/
def whole (text : List Char) : Except Fault (List Char × List Char) :=
  match digits text with
  | .ok ('0' :: _ :: _, _) => .error .invalidNumber
  | result => result

/-- The digits behind the point, if there is one. -/
def fraction (text : List Char) : Except Fault (Option (List Char) × List Char) :=
  match text with
  | '.' :: rest => (digits rest).map fun (ds, rest) => (some ds, rest)
  | _ => .ok (none, text)

/-- The exponent, if there is one; the flag says that it is negative. -/
def exponent (text : List Char) : Except Fault (Option (Bool × List Char) × List Char) :=
  match text with
  | [] => .ok (none, text)
  | c :: rest =>
    if c = 'e' ∨ c = 'E' then
      match rest with
      | '+' :: rest => (digits rest).map fun (ds, rest) => (some (false, ds), rest)
      | '-' :: rest => (digits rest).map fun (ds, rest) => (some (true, ds), rest)
      | _ => (digits rest).map fun (ds, rest) => (some (false, ds), rest)
    else .ok (none, text)

/-- The parts of the literal in front of `text`, its sign already read. -/
def unsigned (negative : Bool) (text : List Char) : Except Fault (Spelling × List Char) := do
  let (w, rest) ← whole text
  let (f, rest) ← fraction rest
  let (e, rest) ← exponent rest
  return (⟨negative, w, f, e⟩, rest)

/-- The parts of the literal in front of `text`, and the text after it. -/
def spelling (text : List Char) : Except Fault (Spelling × List Char) :=
  match text with
  | '-' :: rest => unsigned true rest
  | _ => unsigned false text

/-- Appends digits to `n` as long as it fits 64 bits, and gives back the
digits left over. -/
def accumulate (n : Nat) : List Char → Nat × List Char
  | [] => (n, [])
  | c :: rest =>
    let next := 10 * n + Decimal.digit c
    if next < UInt64.size then accumulate next rest else (n, c :: rest)

/-- The double nearest to a power of ten. -/
def powerOfTen (n : Nat) : Float :=
  Float.ofScientific 1 false n

/-- The double for `n * 10 ^ e` with `n < 2 ^ 64`, unless it is too large. -/
def scale (n : Nat) (e : Int) : Option Float :=
  let x := (UInt64.ofNat n).toFloat
  if e > 308 then
    if n = 0 then some x else none
  else if e ≥ 0 then
    let y := x * powerOfTen e.toNat
    if y.isInf then none else some y
  else if e ≥ -308 then some (x / powerOfTen (-e).toNat)
  else if e ≥ -616 then some (x / powerOfTen 308 / powerOfTen (-e - 308).toNat)
  else some 0.0

/-- The exponent as an integer, zero if there is none. -/
def Spelling.power (s : Spelling) : Int :=
  match s.exponent with
  | none => 0
  | some (true, ds) => -(Decimal.value ds : Int)
  | some (false, ds) => Decimal.value ds

/-- The double a literal stands for, unless it is too large. -/
def Spelling.real? (s : Spelling) : Option Float :=
  let (n, left) := accumulate 0 s.whole
  let places := s.fraction.getD []
  let (n, beyond) := accumulate n places
  let used := places.length - beyond.length
  (scale n (left.length - used + s.power)).map fun x => if s.negative then -x else x

/-- The integer a literal stands for, if it is one and fits 64 bits. -/
def Spelling.integer? (s : Spelling) : Option Int :=
  match s.fraction, s.exponent with
  | none, none =>
    let n := Decimal.value s.whole
    if s.negative then
      if 0 < n ∧ n ≤ 9223372036854775808 then some (-n) else none
    else if n < UInt64.size then some n
    else none
  | _, _ => none

/-- The number a literal stands for. -/
def Spelling.number (s : Spelling) : Except Fault Number :=
  match s.integer? with
  | some n => .ok (.integer n)
  | none =>
    match s.real? with
    | some x => .ok (.real x)
    | none => .error .numberOutOfRange

/-- Reads the literal in front of `text`. -/
def read (text : List Char) : Except Fault (Number × List Char) := do
  let (s, rest) ← spelling text
  let n ← s.number
  return (n, rest)

end VectorIndex.Json.NumberLiteral
