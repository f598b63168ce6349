import LambdaTally.Json

/-!
# LambdaTally.Json.Field

Reading values out of a JSON document. A record is an object that has each of its fields exactly
once, among any others, or an array of exactly its fields in their order. A choice is the name of
one of its cases. A record that says which of several it is does so in a field of its own or, as an
array, in front of its fields.

A number is read in two ways. As a natural number it must be written as one. As a binary64 number it
may be written in any way, but what is written is rounded in steps: as many digits as fit a word of
64 bits make the significand, and that is scaled by one power of ten.
-/

namespace LambdaTally

namespace Numeral

/-- The greatest significand. -/
def maxSignificand : Nat := 0xFFFFFFFFFFFFFFFF

/-- Takes up digits behind a significand for as long as it stays within a word; gives the
significand and the digits that are left. -/
def takeDigits (significand : Nat) : List Char → Nat × List Char
  | [] => (significand, [])
  | c :: rest =>
    let next := significand * 10 + (c.toNat - '0'.toNat)
    if next ≤ maxSignificand then takeDigits next rest else (significand, c :: rest)

/-- The greatest power of ten that a number is scaled by at once. -/
def maxPower : Nat := 308

/-- Divides a number by a power of ten, in as many steps as it takes or until nothing is left of
it. Three steps are enough for any significand. -/
def scaleDown : (steps : Nat) → Binary64 → (power : Nat) → Binary64
  | 0, x, _ => x
  | steps + 1, x, power =>
    if power ≤ maxPower then x.div (.tenPower power)
    else if x.magnitude = 0 then x
    else scaleDown steps (x.div (.tenPower maxPower)) (power - maxPower)

/-- A significand scaled by a power of ten, unless that is too large for a number. -/
def scale? (significand : Nat) (power : Int) : Option Binary64 :=
  let x := Binary64.ofNat significand
  if power < 0 then some (scaleDown 4 x power.natAbs)
  else if power.natAbs ≤ maxPower then
    let scaled := x.mul (.tenPower power.natAbs)
    if scaled.isFinite then some scaled else none
  else if significand = 0 then some x
  else none

/-- The greatest size of an exponent that is taken for what it says. -/
def maxExponent : Nat := 0x7FFFFFFF

/-- The number without its sign, unless it is too large. -/
def size? (n : Numeral) : Option Binary64 :=
  let (whole, wholeLeft) := takeDigits 0 (Nat.toDigits 10 n.whole)
  let (significand, left) := takeDigits whole n.fraction
  let power : Int := wholeLeft.length - (n.fraction.length - left.length : Nat)
  match n.exponent with
  | none => scale? significand power
  | some e =>
    if e.natAbs ≤ maxExponent then scale? significand (power + e)
    else if significand ≠ 0 ∧ 0 < e then none
    else some (.zero false)

/-- The number, unless it is too large. -/
def toBinary64? (n : Numeral) : Option Binary64 :=
  n.size?.map fun x => if n.negative then x.negate else x

/-- The natural number that is written, at most `max`. -/
def toNat? (max : Nat) (n : Numeral) : Option Nat :=
  if n.negative = false ∧ n.fraction = [] ∧ n.exponent = none ∧ n.whole ≤ max then some n.whole
  else none

end Numeral

namespace Json

def nat? (max : Nat) : Json → Option Nat
  | number n => n.toNat? max
  | _ => none

def binary64? : Json → Option Binary64
  | number n => n.toBinary64?
  | _ => none

def text? : Json → Option (List Char)
  | string text => some text
  | _ => none

def items? : Json → Option (List Json)
  | array items => some items
  | _ => none

/-- The value of the only field with a name. -/
def only? (name : String) (fields : List (List Char × Json)) : Option Json :=
  match fields.filter fun field => field.1 == name.toList with
  | [(_, value)] => some value
  | _ => none

/-- The fields of a record, in the order of their names. -/
def record? (names : List String) : Json → Option (List Json)
  | object fields => names.mapM fun name => only? name fields
  | array items => if items.length = names.length then some items else none
  | _ => none

/-- What a record says that it is, and the record without that. -/
def tagged? (tag : String) : Json → Option (List Char × Json)
  | object fields => do
    let name ← (← only? tag fields).text?
    return (name, object (fields.filter fun field => field.1 != tag.toList))
  | array (item :: items) => do return (← item.text?, array items)
  | _ => none

/-- The case that a name stands for. -/
def caseOf? {α : Type} (cases : List (String × α)) (name : List Char) : Option α :=
  cases.lookup (String.ofList name)

/-- A case of a choice: its name, or an object with the name for a field that holds null. -/
def choice? {α : Type} (cases : List (String × α)) : Json → Option α
  | string name => caseOf? cases name
  | object [(name, null)] => caseOf? cases name
  | _ => none

mutual

/-- Arrays and objects go no deeper than a number of levels, and no number is too large. -/
def isWithin (levels : Nat) : Json → Bool
  | number n => n.toBinary64?.isSome
  | array items => levels ≠ 0 && areWithin (levels - 1) items
  | object fields => levels ≠ 0 && fieldsAreWithin (levels - 1) fields
  | _ => true

def areWithin (levels : Nat) : List Json → Bool
  | [] => true
  | item :: rest => isWithin levels item && areWithin levels rest

def fieldsAreWithin (levels : Nat) : List (List Char × Json) → Bool
  | [] => true
  | (_, value) :: rest => isWithin levels value && fieldsAreWithin levels rest

end

end Json
end LambdaTally
