import LambdaTally.Number.Decimal
import LambdaTally.Number.Natural
import LambdaTally.Text.CharClass

/-!
# LambdaTally.CommandLine.Value

The numbers that options take: plain and positive numbers, sizes with a unit, and probabilities;
and the reasons why a text is none of them.
-/

namespace LambdaTally
namespace CommandLine

/-- Why a text is no value of an option. -/
inductive ValueError where
  | number (cause : NaturalError)
  | naturalNumber (text : List Char) (cause : NaturalError)
  | decimalNumber (text : List Char) (cause : DecimalError)
  | below (least : Nat)
  | above (greatest : Nat)
  | probability (text : List Char)
  | sizeNumber (text : List Char)
  | sizeTooLarge (text : List Char)
  deriving DecidableEq, Repr

/-- The text of an error. -/
def ValueError.message : ValueError → String
  | number cause => cause.message
  | naturalNumber text cause => s!"invalid number '{String.ofList text}': {cause.message}"
  | decimalNumber text cause => s!"invalid number '{String.ofList text}': {cause.message}"
  | below least => s!"value must be at least {least}"
  | above greatest => s!"value must be at most {greatest}"
  | probability text => s!"invalid probability '{String.ofList text}'"
  | sizeNumber text => s!"Invalid size number: {String.ofList text}"
  | sizeTooLarge text => s!"Size too large: {String.ofList text}"

/-- A number of 64 bits. -/
def readNumber (text : List Char) : Except ValueError Nat :=
  (Natural.read Natural.max64 text).mapError .number

/-- A number of 64 bits that is not zero. -/
def readPositive (text : List Char) : Except ValueError Nat :=
  match Natural.read Natural.max64 text with
  | .error cause => .error (.naturalNumber text cause)
  | .ok n => if n = 0 then .error (.below 1) else .ok n

/-- A number from 0 to 1. -/
def readProbability (text : List Char) : Except ValueError Binary64 :=
  match Decimal.read text with
  | .error cause => .error (.decimalNumber text cause)
  | .ok x =>
    if x.lt (.zero false) then .error (.below 0)
    else if (Binary64.ofNat 1).lt x then .error (.above 1)
    else if x.isNaN then .error (.probability text)
    else .ok x

/-- The units of a size and their values, the longer spellings of a unit before the shorter ones. -/
def sizeUnits : List (List Char × Nat) :=
  [("gib".toList, 1024 * 1024 * 1024), ("gb".toList, 1024 * 1024 * 1024), ("g".toList, 1024 * 1024 * 1024),
   ("mib".toList, 1024 * 1024), ("mb".toList, 1024 * 1024), ("m".toList, 1024 * 1024),
   ("kib".toList, 1024), ("kb".toList, 1024), ("k".toList, 1024)]

/-- A size in small letters, split into its number and the value of its unit. Blanks may stand
before a unit. -/
def splitUnit (text : List Char) : List Char × Nat :=
  match sizeUnits.find? fun unit => unit.1.isSuffixOf text with
  | some (unit, value) => (CharClass.trim (text.take (text.length - unit.length)), value)
  | none => (text, 1)

/-- A size in octets, of 64 bits: a number, and a unit if wanted. Blanks around it, underscores in it
and the case of its letters do not matter. -/
def readSize (text : List Char) : Except ValueError Nat :=
  let text := (CharClass.trim text).filter (· != '_')
  let (number, unit) := splitUnit (CharClass.asciiLower text)
  match Natural.read Natural.max64 number with
  | .error _ => .error (.sizeNumber number)
  | .ok n => if n * unit ≤ Natural.max64 then .ok (n * unit) else .error (.sizeTooLarge text)

end CommandLine
end LambdaTally
