/-!
# Integers in decimal

* `ofNat`, `ofInt`: the canonical text, without leading zeros and with a
  minus sign for negative integers.
* `value`: the number a run of digits stands for.
* `int64?`: reading a 64-bit integer with an optional sign.
-/

namespace VectorIndex.Decimal

/-- The decimal digits of `n`, the first of them not zero unless `n` is. -/
def ofNat (n : Nat) : List Char :=
  Nat.toDigits 10 n

/-- The decimal text of `n`. -/
def ofInt (n : Int) : List Char :=
  if n < 0 then '-' :: ofNat n.natAbs else ofNat n.natAbs

/-- The decimal text of a 64-bit integer. -/
def ofInt64 (n : Int64) : String :=
  String.ofList (ofInt n.toInt)

/-- The number a digit stands for. -/
def digit (c : Char) : Nat :=
  c.toNat - '0'.toNat

/-- The number a run of digits stands for. -/
def value (digits : List Char) : Nat :=
  digits.foldl (fun n c => 10 * n + digit c) 0

/-- The 64-bit integer equal to `n`, if there is one. -/
def int64OfInt? (n : Int) : Option Int64 :=
  if -9223372036854775808 ≤ n ∧ n ≤ 9223372036854775807 then some (Int64.ofInt n) else none

/-- Reads digits alone, at least one of them. -/
def nat? (text : List Char) : Option Nat :=
  if text ≠ [] ∧ text.all Char.isDigit then some (value text) else none

/-- Reads a 64-bit integer: an optional sign, then digits alone. Leading
zeros are allowed, blanks are not. -/
def int64? (text : String) : Option Int64 :=
  match text.toList with
  | '-' :: digits => (nat? digits).bind fun n => int64OfInt? (-n)
  | '+' :: digits => (nat? digits).bind fun n => int64OfInt? n
  | digits => (nat? digits).bind fun n => int64OfInt? n

end VectorIndex.Decimal
