import VectorIndex.Decimal.Integer

/-!
# Shortest text of a double

A finite double is `m * 2 ^ q` with natural `m`. The reals that round to it
form an interval, which holds its ends when `m` is even. The text of the
double shows the fewest digits with which some decimal number falls into that
interval, and of two such numbers the one nearer to the double.

* `decode` splits the bits of a double into sign, `m` and `q`.
* `shortest` chooses the digits.
* `ofFloat` lays them out: positional when the exponent of the first digit is
  between -5 and 15, otherwise in scientific notation.
-/

namespace VectorIndex.Decimal

/-- A finite double: `m * 2 ^ q`, negated if `negative`. `closeBelow` says
that the double below it is half as far away as the double above it. -/
structure Binary where
  negative : Bool
  m : Nat
  q : Int
  closeBelow : Bool

/-- The parts of a finite double. -/
def decode (x : Float) : Binary :=
  let bits := x.toBits.toNat
  let fraction := bits &&& 0xfffffffffffff
  let exponent := (bits >>> 52) &&& 0x7ff
  let negative := bits >>> 63 == 1
  if exponent = 0 then ⟨negative, fraction, -1074, false⟩
  else
    ⟨negative, fraction + 0x10000000000000, (exponent : Int) - 1075,
      fraction == 0 && exponent != 1⟩

/-- The numerator of `n * 2 ^ q / 10 ^ t`, over the denominator `2 ^ -q * 10 ^ t`
with negative powers left out on either side. -/
def numerator (n : Nat) (q t : Int) : Nat :=
  n * Nat.pow 2 q.toNat * Nat.pow 10 (-t).toNat

/-- The denominator that goes with `numerator`. -/
def denominator (q t : Int) : Nat :=
  Nat.pow 2 (-q).toNat * Nat.pow 10 t.toNat

/-- The multiple of `10 ^ t` nearest to `b` among its two neighbours, as the
factor of `10 ^ t`, provided it rounds to `b`. -/
def candidate? (b : Binary) (t : Int) : Option Nat :=
  let value := numerator (4 * b.m) (b.q - 2) t
  let low := numerator (4 * b.m - if b.closeBelow then 1 else 2) (b.q - 2) t
  let high := numerator (4 * b.m + 2) (b.q - 2) t
  let unit := denominator (b.q - 2) t
  let below := value / unit
  let above := below + 1
  let closed := b.m % 2 = 0
  let fitsBelow := low < below * unit ∨ (closed ∧ low = below * unit)
  let fitsAbove := above * unit < high ∨ (closed ∧ above * unit = high)
  let nearBelow := value - below * unit
  let nearAbove := above * unit - value
  if fitsBelow ∧ fitsAbove then
    if nearBelow < nearAbove ∨ (nearBelow = nearAbove ∧ below % 2 = 0) then some below
    else some above
  else if fitsBelow then some below
  else if fitsAbove then some above
  else none

/-- The exponent of the first decimal digit of a positive double. -/
def leadingExponent (b : Binary) : Int :=
  let exponents := (List.range 640).map fun (i : Nat) => (308 : Int) - i
  (exponents.find? fun t => denominator b.q t ≤ numerator b.m b.q t).getD (-324)

/-- The shortest digits of a positive double, without zeros at the end, and
the exponent of the first of them. -/
def shortest (b : Binary) : List Char × Int :=
  let top := leadingExponent b
  let grids := (List.range 17).map fun (i : Nat) => top - i
  let (n, t) := (grids.findSome? fun t => (candidate? b t).map (·, t)).getD (0, top)
  let digits := ofNat n
  ((digits.reverse.dropWhile (· == '0')).reverse, t + digits.length - 1)

/-- Digits with the point behind the place of exponent zero. -/
def positional (digits : List Char) (exponent : Int) : List Char :=
  if exponent < 0 then
    '0' :: '.' :: List.replicate (-exponent - 1).toNat '0' ++ digits
  else
    let whole := exponent.toNat + 1
    let fraction := digits.drop whole
    digits.take whole ++ List.replicate (whole - digits.length) '0' ++
      '.' :: (if fraction = [] then ['0'] else fraction)

/-- Digits with the point behind the first, then the exponent, always with
its sign. -/
def scientific (digits : List Char) (exponent : Int) : List Char :=
  digits.take 1 ++ (if digits.length ≤ 1 then [] else '.' :: digits.drop 1) ++
    'e' :: (if exponent < 0 then '-' else '+') :: ofNat exponent.natAbs

/-- The text of a finite double. -/
def ofFloat (x : Float) : List Char :=
  let b := decode x
  let unsigned :=
    if b.m = 0 then ['0', '.', '0']
    else
      let (digits, exponent) := shortest b
      if -5 ≤ exponent ∧ exponent ≤ 15 then positional digits exponent
      else scientific digits exponent
  if b.negative then '-' :: unsigned else unsigned

end VectorIndex.Decimal
