import LambdaTally.Json

/-!
# LambdaTally.Json.Reader

Reading a JSON document from a text. The whole text must be one document, with blanks around it and
between its tokens; a string may hold no bare control character and no half of a surrogate pair.

Readers take the text that is left and give back what is left after them. Documents nest, so they
are read under a bound on the number of steps, which the length of the text always provides.
-/

namespace LambdaTally
namespace Json

def isBlank (c : Char) : Bool := c == ' ' || c == '\n' || c == '\t' || c == '\r'

def skipBlanks (text : List Char) : List Char := text.dropWhile isBlank

/-- The value of a hexadecimal digit. -/
def hexValue? (c : Char) : Option Nat :=
  if c.isDigit then some (c.toNat - '0'.toNat)
  else if 'a' ≤ c ∧ c ≤ 'f' then some (c.toNat - 'a'.toNat + 10)
  else if 'A' ≤ c ∧ c ≤ 'F' then some (c.toNat - 'A'.toNat + 10)
  else none

/-- Four hexadecimal digits. -/
def readUnit? : List Char → Option (Nat × List Char)
  | a :: b :: c :: d :: rest => do
    return (((← hexValue? a) * 16 + (← hexValue? b)) * 256 + (← hexValue? c) * 16 + (← hexValue? d),
      rest)
  | _ => none

/-- A character by its code, after the `\u`. A high surrogate needs its low one right behind it. -/
def readCode? (text : List Char) : Option (Char × List Char) :=
  match readUnit? text with
  | none => none
  | some (unit, rest) =>
    if 0xDC00 ≤ unit ∧ unit ≤ 0xDFFF then none
    else if 0xD800 ≤ unit ∧ unit ≤ 0xDBFF then
      match rest with
      | '\\' :: 'u' :: rest =>
        match readUnit? rest with
        | some (low, rest) =>
          if 0xDC00 ≤ low ∧ low ≤ 0xDFFF then
            some (Char.ofNat (0x10000 + (unit - 0xD800) * 0x400 + (low - 0xDC00)), rest)
          else none
        | none => none
      | _ => none
    else some (Char.ofNat unit, rest)

/-- A character of a string, after a backslash. -/
def readEscape? : List Char → Option (Char × List Char)
  | '"' :: rest => some ('"', rest)
  | '\\' :: rest => some ('\\', rest)
  | '/' :: rest => some ('/', rest)
  | 'b' :: rest => some ('\x08', rest)
  | 'f' :: rest => some ('\x0c', rest)
  | 'n' :: rest => some ('\n', rest)
  | 'r' :: rest => some ('\r', rest)
  | 't' :: rest => some ('\t', rest)
  | 'u' :: rest => readCode? rest
  | _ => none

theorem readUnit?_length_lt {text rest : List Char} {n : Nat} (h : readUnit? text = some (n, rest)) :
    rest.length < text.length := by
  unfold readUnit? at h
  split at h
  · simp only [Option.bind_eq_bind, Option.bind_eq_some_iff, Option.pure_def,
      Option.some.injEq, Prod.mk.injEq] at h
    obtain ⟨_, _, _, _, _, _, _, _, _, rfl⟩ := h
    simp only [List.length_cons]
    omega
  · cases h

theorem readCode?_length_lt {text rest : List Char} {c : Char} (h : readCode? text = some (c, rest)) :
    rest.length < text.length := by
  unfold readCode? at h
  split at h
  · cases h
  · rename_i unit tail hu
    have first := readUnit?_length_lt hu
    split at h
    · cases h
    · split at h
      · split at h
        · split at h
          · rename_i hl
            have second := readUnit?_length_lt hl
            split at h
            · obtain ⟨_, rfl⟩ := Prod.mk.inj (Option.some.inj h)
              exact Nat.lt_trans second (Nat.lt_of_succ_lt (Nat.lt_of_succ_lt first))
            · cases h
          · cases h
        · cases h
      · obtain ⟨_, rfl⟩ := Prod.mk.inj (Option.some.inj h)
        exact first

theorem readEscape?_length_lt {text rest : List Char} {c : Char}
    (h : readEscape? text = some (c, rest)) : rest.length < text.length := by
  unfold readEscape? at h
  split at h
  case h_9 =>
    have := readCode?_length_lt h
    simp only [List.length_cons]
    omega
  all_goals cases h
  all_goals simp

/-- A string after its opening quote, on top of what has been read of it, latest first. -/
def readString? (read : List Char) (text : List Char) : Option (List Char × List Char) :=
  match text with
  | [] => none
  | c :: rest =>
    if c = '"' then some (read.reverse, rest)
    else if c = '\\' then
      match _h : readEscape? rest with
      | some (d, tail) => readString? (d :: read) tail
      | none => none
    else if c.toNat < 0x20 then none
    else readString? (c :: read) rest
termination_by text.length
decreasing_by
  · have := readEscape?_length_lt _h
    simp only [List.length_cons]
    omega
  · simp

/-- The number that digits spell. -/
def digitsValue (digits : List Char) : Nat :=
  digits.foldl (fun n c => n * 10 + (c.toNat - '0'.toNat)) 0

/-- The digits before the point: a single zero, or digits that do not start with one. -/
def readWhole? : List Char → Option (Nat × List Char)
  | '0' :: rest => if rest.head?.any Char.isDigit then none else some (0, rest)
  | text =>
    let digits := text.takeWhile Char.isDigit
    if digits = [] then none else some (digitsValue digits, text.dropWhile Char.isDigit)

/-- A point and at least one digit, or nothing. -/
def readFraction? : List Char → Option (List Char × List Char)
  | '.' :: rest =>
    let digits := rest.takeWhile Char.isDigit
    if digits = [] then none else some (digits, rest.dropWhile Char.isDigit)
  | text => some ([], text)

/-- The sign of an exponent. -/
def readSign : List Char → Bool × List Char
  | '-' :: rest => (true, rest)
  | '+' :: rest => (false, rest)
  | rest => (false, rest)

/-- An `e`, a sign if wanted and at least one digit, or nothing. -/
def readExponent? : List Char → Option (Option Int × List Char)
  | [] => some (none, [])
  | c :: rest =>
    if c = 'e' ∨ c = 'E' then
      let (negative, rest) := readSign rest
      let digits := rest.takeWhile Char.isDigit
      if digits = [] then none
      else
        let size : Int := digitsValue digits
        some (some (if negative then -size else size), rest.dropWhile Char.isDigit)
    else some (none, c :: rest)

/-- A number after its sign. -/
def readUnsigned? (negative : Bool) (text : List Char) : Option (Numeral × List Char) :=
  match readWhole? text with
  | none => none
  | some (whole, rest) =>
    match readFraction? rest with
    | none => none
    | some (fraction, rest) =>
      match readExponent? rest with
      | none => none
      | some (exponent, rest) => some (⟨negative, whole, fraction, exponent⟩, rest)

def readNumeral? : List Char → Option (Numeral × List Char)
  | '-' :: rest => readUnsigned? true rest
  | text => readUnsigned? false text

/-- What follows a word at the front of a text. -/
def afterWord? (word : String) (text : List Char) : Option (List Char) :=
  if word.toList.isPrefixOf text then some (text.drop word.length) else none

mutual

/-- A document at the front of a text. -/
def readValue? : (fuel : Nat) → List Char → Option (Json × List Char)
  | 0, _ => none
  | fuel + 1, text =>
    match skipBlanks text with
    | 'n' :: rest => (afterWord? "ull" rest).map fun rest => (null, rest)
    | 't' :: rest => (afterWord? "rue" rest).map fun rest => (bool true, rest)
    | 'f' :: rest => (afterWord? "alse" rest).map fun rest => (bool false, rest)
    | '"' :: rest => (readString? [] rest).map fun (text, rest) => (string text, rest)
    | '[' :: rest =>
      match skipBlanks rest with
      | ']' :: rest => some (array [], rest)
      | rest => (readItems? fuel [] rest).map fun (items, rest) => (array items, rest)
    | '\x7b' :: rest =>
      match skipBlanks rest with
      | '\x7d' :: rest => some (object [], rest)
      | rest => (readFields? fuel [] rest).map fun (fields, rest) => (object fields, rest)
    | rest => (readNumeral? rest).map fun (n, rest) => (number n, rest)

/-- The items of an array that has at least one more, on top of those read, latest first. -/
def readItems? : (fuel : Nat) → (read : List Json) → List Char → Option (List Json × List Char)
  | 0, _, _ => none
  | fuel + 1, read, text =>
    match readValue? fuel text with
    | none => none
    | some (item, rest) =>
      match skipBlanks rest with
      | ',' :: rest => readItems? fuel (item :: read) rest
      | ']' :: rest => some ((item :: read).reverse, rest)
      | _ => none

/-- The fields of an object that has at least one more, on top of those read, latest first. -/
def readFields? : (fuel : Nat) → (read : List (List Char × Json)) → List Char →
    Option (List (List Char × Json) × List Char)
  | 0, _, _ => none
  | fuel + 1, read, text =>
    match skipBlanks text with
    | '"' :: rest =>
      match readString? [] rest with
      | none => none
      | some (name, rest) =>
        match skipBlanks rest with
        | ':' :: rest =>
          match readValue? fuel rest with
          | none => none
          | some (value, rest) =>
            match skipBlanks rest with
            | ',' :: rest => readFields? fuel ((name, value) :: read) rest
            | '\x7d' :: rest => some (((name, value) :: read).reverse, rest)
            | _ => none
        | _ => none
    | _ => none

end

/-- Reads a document. -/
def read? (text : List Char) : Option Json :=
  match readValue? (2 * text.length + 2) text with
  | some (value, rest) => if skipBlanks rest = [] then some value else none
  | none => none

end Json
end LambdaTally
