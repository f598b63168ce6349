/-!
# LambdaTally.Number.Binary64

Binary floating-point numbers of 64 bits, by their bits. Order and rounding are exact arithmetic on
natural numbers: a finite number is `significand · 2 ^ (scale - 1074)`, and `nearest` is the
number closest to a quotient, a tie going to the even significand.
-/

namespace LambdaTally

/-- A binary64 number: one bit of sign, eleven of exponent, fifty-two of fraction. -/
structure Binary64 where
  bits : UInt64
  deriving DecidableEq, Repr

namespace Binary64

/-- The weight of the bit of sign. -/
def signBit : Nat := 0x8000000000000000

/-- How many numbers there are from a power of two up to the next. -/
def binade : Nat := 0x10000000000000

/-- Everything but the sign. Between numbers of one sign its order is the order of their sizes. -/
def magnitude (x : Binary64) : Nat := x.bits.toNat % signBit

/-- The sign bit, set also on negative zero. -/
def isNegative (x : Binary64) : Bool := signBit ≤ x.bits.toNat

/-- The magnitude of the infinities; everything above it is not a number. -/
def infinityMagnitude : Nat := 0x7FF * binade

def isNaN (x : Binary64) : Bool := infinityMagnitude < x.magnitude

def isFinite (x : Binary64) : Bool := x.magnitude < infinityMagnitude

/-- The number of a sign and a magnitude. -/
def ofMagnitude (negative : Bool) (magnitude : Nat) : Binary64 :=
  ⟨UInt64.ofNat (if negative then signBit + magnitude else magnitude)⟩

def zero (negative : Bool) : Binary64 := ofMagnitude negative 0

def infinity (negative : Bool) : Binary64 := ofMagnitude negative infinityMagnitude

def nan (negative : Bool) : Binary64 := ofMagnitude negative (infinityMagnitude + binade / 2)

/-- The place of a number in the order of numbers; both zeros have the same. -/
def rank (x : Binary64) : Int := if x.isNegative then -(x.magnitude : Int) else x.magnitude

/-- Less than; false as soon as one side is not a number. -/
def lt (x y : Binary64) : Bool := !x.isNaN && !y.isNaN && x.rank < y.rank

/-- The whole number of a finite number, as a multiple of `2 ^ -1074`: significand and scale. -/
def significand (x : Binary64) : Nat :=
  if x.magnitude / binade = 0 then x.magnitude % binade else binade + x.magnitude % binade

def scale (x : Binary64) : Nat := x.magnitude / binade - 1

/-- The quotient rounded to the nearest whole number, a tie to the even one. -/
def roundQuotient (num den : Nat) : Nat :=
  let q := num / den
  let r := num % den
  if 2 * r < den ∨ (2 * r = den ∧ q % 2 = 0) then q else q + 1

/-- The exponent of the last bit that the significand of `num / den` keeps. -/
def lastBit (num den : Nat) : Int :=
  let guess : Int := (num.log2 : Int) - den.log2
  let above : Bool :=
    if 0 ≤ guess then den * Nat.pow 2 guess.toNat ≤ num else den ≤ num * Nat.pow 2 (-guess).toNat
  max (-1074) ((if above then guess else guess - 1) - 52)

/-- The binary64 number nearest to `num / den`, with the given sign; too large a quotient gives
the infinity. Rounding up to the next power of two carries into the exponent by itself. -/
def nearest (negative : Bool) (num den : Nat) : Binary64 :=
  if num = 0 ∨ den = 0 then zero negative
  else
    let e := lastBit num den
    let m :=
      if 0 ≤ e then roundQuotient num (den * Nat.pow 2 e.toNat)
      else roundQuotient (num * Nat.pow 2 (-e).toNat) den
    ofMagnitude negative (min infinityMagnitude ((e + 1074).toNat * binade + m))

/-- The product of two finite numbers, rounded to nearest. -/
def mul (x y : Binary64) : Binary64 :=
  nearest (x.isNegative != y.isNegative)
    (x.significand * y.significand * Nat.pow 2 (x.scale + y.scale)) (Nat.pow 2 2148)

/-- The quotient of two finite numbers, the divisor not zero, rounded to nearest. -/
def div (x y : Binary64) : Binary64 :=
  nearest (x.isNegative != y.isNegative)
    (x.significand * Nat.pow 2 x.scale) (y.significand * Nat.pow 2 y.scale)

/-- A natural number, rounded to nearest. -/
def ofNat (n : Nat) : Binary64 := nearest false n 1

/-- The number `10 ^ n`, rounded to nearest. -/
def tenPower (n : Nat) : Binary64 := ofNat (Nat.pow 10 n)

def negate (x : Binary64) : Binary64 := ofMagnitude (!x.isNegative) x.magnitude

/-- The bits as sixteen hexadecimal digits. -/
def hexDigits (x : Binary64) : List Char :=
  let digits := Nat.toDigits 16 x.bits.toNat
  List.replicate (16 - digits.length) '0' ++ digits

end Binary64
end LambdaTally
