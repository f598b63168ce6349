import LambdaTally.Number.Binary64

/-!
# LambdaTally.Number.Decimal

Reading a decimal number as the nearest binary64 number: an optional sign, digits with at most one
point and at least one digit, and an optional power of ten; or `inf`, `infinity` or `nan` in any
case.
-/

namespace LambdaTally

/-- Why a text is no decimal number. -/
inductive DecimalError where
  | empty
  | invalid
  deriving DecidableEq, Repr

def DecimalError.message : DecimalError → String
  | .empty => "cannot parse float from empty string"
  | .invalid => "invalid float literal"

namespace Decimal

/-- The number that decimal digits spell, after the digits read so far. -/
def ofDigits (read : Nat) (digits : List Char) : Nat :=
  digits.foldl (fun n c => n * 10 + (c.toNat - '0'.toNat)) read

/-- The binary64 number nearest to `coefficient · 10 ^ exponent`. Exponents far outside the range
of binary64 are settled by their size alone. -/
def toBinary64 (negative : Bool) (coefficient : Nat) (exponent : Int) : Binary64 :=
  let places : Int := (Nat.toDigits 10 coefficient).length + exponent
  if coefficient = 0 ∨ places < -400 then .zero negative
  else if 400 < places then .infinity negative
  else if 0 ≤ exponent then .nearest negative (coefficient * Nat.pow 10 exponent.toNat) 1
  else .nearest negative coefficient (Nat.pow 10 (-exponent).toNat)

/-- The power of ten after an `e` or `E`: a sign and at least one digit. -/
def readExponent : List Char → Option Int
  | '-' :: digits => if digits ≠ [] ∧ digits.all Char.isDigit then some (-(ofDigits 0 digits : Int)) else none
  | '+' :: digits => if digits ≠ [] ∧ digits.all Char.isDigit then some (ofDigits 0 digits) else none
  | digits => if digits ≠ [] ∧ digits.all Char.isDigit then some (ofDigits 0 digits) else none

/-- The digits after the point, none if there is no point, and what follows them. -/
def readFraction : List Char → List Char × List Char
  | '.' :: rest => (rest.takeWhile Char.isDigit, rest.dropWhile Char.isDigit)
  | rest => ([], rest)

/-- An unsigned number in digits, with the sign it is to have. -/
def readDigits (negative : Bool) (text : List Char) : Option Binary64 :=
  let whole := text.takeWhile Char.isDigit
  let (fraction, tail) := readFraction (text.dropWhile Char.isDigit)
  if whole = [] ∧ fraction = [] then none
  else
    let coefficient := ofDigits (ofDigits 0 whole) fraction
    match tail with
    | [] => some (toBinary64 negative coefficient (-(fraction.length : Int)))
    | e :: exponent =>
      if e = 'e' ∨ e = 'E' then
        (readExponent exponent).map fun n =>
          toBinary64 negative coefficient (n - fraction.length)
      else none

/-- An unsigned number by name, with the sign it is to have. -/
def readName (negative : Bool) (text : List Char) : Option Binary64 :=
  let name := String.ofList (text.map Char.toLower)
  if name = "inf" ∨ name = "infinity" then some (.infinity negative)
  else if name = "nan" then some (.nan negative)
  else none

/-- Reads a decimal number. -/
def read (text : List Char) : Except DecimalError Binary64 :=
  let (negative, unsigned) :=
    match text with
    | '-' :: rest => (true, rest)
    | '+' :: rest => (false, rest)
    | rest => (false, rest)
  if text = [] then .error .empty
  else
    match readDigits negative unsigned with
    | some x => .ok x
    | none =>
      match readName negative unsigned with
      | some x => .ok x
      | none => .error .invalid

end Decimal
end LambdaTally
