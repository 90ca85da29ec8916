/-!
# GraphQuery.Double — finite double-precision numbers

A finite double is a sign and the 63 bits below it, read as one natural number. Larger bit
patterns are larger numbers, so the order needs no decoding.

1. **Value**: `significand` and `exponent` decode a double as `± significand · 2 ^ exponent`.
2. **Order**: `key` maps a double to an integer; the two zeros share a key.
3. **Rounding**: `ofScaled` gives the nearest double to `num / den · 2 ^ shift`, ties to even.
4. **Arithmetic**: products and quotients, rounded once.
-/

namespace GraphQuery

/-- A finite double: its sign and its biased exponent and fraction as one number. -/
structure Double where
  negative : Bool
  magnitude : Nat
deriving Repr, DecidableEq

namespace Double

/-- First magnitude that is no finite number. -/
def infinity : Nat := 0x7ff * Nat.pow 2 52

/-- The number 0. -/
def zero : Double := ⟨false, 0⟩

/-- Whether a number is 0 or -0. -/
def isZero (d : Double) : Bool := d.magnitude == 0

/-- The integer that is scaled by `2 ^ exponent`; normal numbers carry the hidden bit. -/
def significand (d : Double) : Nat :=
  if d.magnitude < Nat.pow 2 52 then d.magnitude
  else d.magnitude % Nat.pow 2 52 + Nat.pow 2 52

/-- The power of two by which the significand is scaled. -/
def exponent (d : Double) : Int :=
  if d.magnitude < Nat.pow 2 52 then -1074 else (d.magnitude / Nat.pow 2 52 : Nat) - 1075

/-! ## Order -/

/-- Position on the number line, counted in representable numbers from zero. -/
def key (d : Double) : Int :=
  if d.negative then -(d.magnitude : Int) else d.magnitude

/-- Equality of numbers: `0.0` and `-0.0` are equal. -/
def sameNumber (a b : Double) : Bool := a.key == b.key

/-! ## Rounding -/

/-- Quotient rounded to the nearest integer, a half to the even neighbour. -/
def roundQuotient (num den : Nat) : Nat :=
  let q := num / den
  let twice := 2 * (num % den)
  if twice > den || (twice == den && q % 2 == 1) then q + 1 else q

/-- Magnitude of the double nearest to `num / den · 2 ^ shift`, or one not below `infinity`. -/
def nearestMagnitude (num den : Nat) (shift : Int) : Nat :=
  if num == 0 then 0
  else
    let guess : Int := (Nat.log2 num : Int) - (Nat.log2 den : Int) + shift - 53
    let scaled (q : Int) : Nat × Nat :=
      if q ≤ shift then (num * Nat.pow 2 (shift - q).toNat, den)
      else (num, den * Nat.pow 2 (q - shift).toNat)
    let (n, d) := scaled guess
    let q := max (-1074) (if n / d ≥ Nat.pow 2 53 then guess + 1 else guess)
    let (n, d) := scaled q
    (q + 1074).toNat * Nat.pow 2 52 + roundQuotient n d

/-- Nearest double to `± num / den · 2 ^ shift`; none when it would be infinite. -/
def ofScaled (negative : Bool) (num den : Nat) (shift : Int) : Option Double :=
  let m := nearestMagnitude num den shift
  if m < infinity then some ⟨negative, m⟩ else none

/-- Nearest double to an integer. Integers beyond the doubles' range become the largest double. -/
def ofInt (i : Int) : Double :=
  (ofScaled (i < 0) i.natAbs 1 0).getD ⟨i < 0, infinity - 1⟩

/-! ## Arithmetic -/

/-- The product, unless it is too large. -/
def mul? (a b : Double) : Option Double :=
  ofScaled (a.negative != b.negative) (a.significand * b.significand) 1 (a.exponent + b.exponent)

/-- The quotient, unless it is too large or there is none. -/
def div? (a b : Double) : Option Double :=
  if b.isZero then none
  else ofScaled (a.negative != b.negative) a.significand b.significand (a.exponent - b.exponent)

/-- Double nearest to a power of ten up to `10 ^ 308`. -/
def powerOfTen (n : Nat) : Double := ofInt (Nat.pow 10 n)

/-- Divides by `10 ^ n` in steps of at most `10 ^ 308`, rounding after each. -/
def divPowerOfTen (d : Double) (n : Nat) : Double :=
  if n ≤ 308 then (d.div? (powerOfTen n)).getD zero
  else if d.isZero then d
  else divPowerOfTen ((d.div? (powerOfTen 308)).getD zero) (n - 308)
termination_by n

/-- Reads `digits · 10 ^ exponent`: the digits are rounded to a double first and scaled after,
so the last place can differ from the nearest double. None when the number is too large. -/
def ofDecimal? (negative : Bool) (digits : Nat) (exponent : Int) : Option Double :=
  let d := ofInt digits
  let signed (d : Double) : Double := { d with negative := negative }
  if exponent < 0 then some (signed (d.divPowerOfTen exponent.natAbs))
  else if exponent ≤ 308 then (d.mul? (powerOfTen exponent.toNat)).map signed
  else if d.isZero then some (signed d)
  else none

end Double

end GraphQuery
