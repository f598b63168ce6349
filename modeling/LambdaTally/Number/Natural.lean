/-!
# LambdaTally.Number.Natural

Reading a natural number that has to fit a bound: an optional plus sign and decimal digits. The
first character at which the reading goes wrong decides which of the causes is reported.
-/

namespace LambdaTally

/-- Why a text is no natural number within its bound. -/
inductive NaturalError where
  | empty
  | invalidDigit
  | tooLarge
  deriving DecidableEq, Repr

def NaturalError.message : NaturalError → String
  | .empty => "cannot parse integer from empty string"
  | .invalidDigit => "invalid digit found in string"
  | .tooLarge => "number too large to fit in target type"

namespace Natural

/-- The greatest number of 64 bits. -/
def max64 : Nat := 0xFFFFFFFFFFFFFFFF

/-- The value of the digits after a number read so far, which must not pass the bound. -/
def readDigits (bound : Nat) : (read : Nat) → List Char → Except NaturalError Nat
  | read, [] => .ok read
  | read, c :: rest =>
    if c.isDigit then
      let value := read * 10 + (c.toNat - '0'.toNat)
      if value ≤ bound then readDigits bound value rest else .error .tooLarge
    else .error .invalidDigit

/-- Reads a natural number up to `bound`. One plus sign may come first, but not alone. -/
def read (bound : Nat) : List Char → Except NaturalError Nat
  | [] => .error .empty
  | ['+'] => .error .invalidDigit
  | '+' :: digits => readDigits bound 0 digits
  | digits => readDigits bound 0 digits

end Natural
end LambdaTally
