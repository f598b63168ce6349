import LambdaTally.Source.Cursor

/-!
# LambdaTally.Source.Literal

How far a literal or a comment of C++ reaches. Strings, characters and comments are read by
logical characters; a raw string is read by the octets of the text as written, because nothing is
joined or escaped inside it.

Each scanner ends no further back than it started (`skipLine_length_le` and its companions).
-/

namespace LambdaTally
namespace Literal

/-- The spellings that open a raw string, with and without an encoding. -/
def rawPrefixes : List (List Char) :=
  ["R\"".toList, "u8R\"".toList, "uR\"".toList, "UR\"".toList, "LR\"".toList]

/-- The most octets a raw string's delimiter may have. -/
def maxDelimiter : Nat := 16

/-- Octets that may not stand in a delimiter: blank, closing parenthesis, backslash, quote, and the
control characters. -/
def isForbidden (b : UInt8) : Bool :=
  b < 0x20 || b == 0x20 || b == 0x29 || b == 0x5C || b == 0x22 || b == 0x7F

/-- The delimiter at the front and what follows its opening parenthesis, if at most `room` allowed
octets stand before one. -/
def splitDelimiter? : (room : Nat) → List UInt8 → Option (List UInt8 × List UInt8)
  | _, [] => none
  | room, b :: rest =>
    if b = 0x28 then some ([], rest)
    else
      match room with
      | 0 => none
      | room + 1 =>
        if isForbidden b then none
        else (splitDelimiter? room rest).map fun (d, body) => (b :: d, body)

/-- Length up to the end of the first `close`, or of everything if there is none, on top of the
octets already passed. -/
def lengthThrough (close : List UInt8) : (passed : Nat) → List UInt8 → Nat
  | passed, [] => passed
  | passed, b :: rest =>
    if close.isPrefixOf (b :: rest) then passed + close.length
    else lengthThrough close (passed + 1) rest

/-- Length in octets of the raw string at the front, from its `R` on. -/
def rawLength? : List UInt8 → Option Nat
  | 0x52 :: 0x22 :: rest =>
    (splitDelimiter? maxDelimiter rest).map fun (d, body) =>
      lengthThrough (0x29 :: d ++ [0x22]) (2 + d.length + 1) body
  | _ => none

/-- Length in octets of the raw string at the front, its encoding included. -/
def prefixedRawLength? (text : List Char) : Option Nat :=
  match rawPrefixes.find? (·.isPrefixOf text) with
  | none => none
  | some opening =>
    let encoding := opening.length - 2
    (rawLength? (Utf8.encode (text.drop encoding))).map (encoding + ·)

/-- The place of the line break that ends the line, or the end. -/
def skipLine (c : Cursor) : Cursor :=
  match _h : c.next? with
  | none => c
  | some (ch, d) => if ch = '\n' then c else skipLine d
termination_by c.rest.length
decreasing_by exact Cursor.next?_length_lt _h

/-- The place after the `*/` that closes a comment; the end if none does. -/
def skipBlockComment (c : Cursor) : Cursor :=
  match _h : c.next? with
  | none => c
  | some (ch, d) =>
    if ch = '*' then
      match d.next? with
      | some ('/', e) => e
      | _ => skipBlockComment d
    else skipBlockComment d
termination_by c.rest.length
decreasing_by all_goals exact Cursor.next?_length_lt _h

theorem skipLine_length_le (c : Cursor) : (skipLine c).rest.length ≤ c.rest.length := by
  fun_induction skipLine c with
  | case1 => exact Nat.le_refl _
  | case2 => exact Nat.le_refl _
  | case3 c ch d h _ ih => exact Nat.le_trans ih (Nat.le_of_lt (Cursor.next?_length_lt h))

theorem skipBlockComment_length_le (c : Cursor) :
    (skipBlockComment c).rest.length ≤ c.rest.length := by
  fun_induction skipBlockComment c with
  | case1 => exact Nat.le_refl _
  | case2 c d e he h =>
    exact Nat.le_of_lt (Nat.lt_trans (Cursor.next?_length_lt he) (Cursor.next?_length_lt h))
  | case3 c d _ h ih => exact Nat.le_trans ih (Nat.le_of_lt (Cursor.next?_length_lt h))
  | case4 c ch d h _ ih => exact Nat.le_trans ih (Nat.le_of_lt (Cursor.next?_length_lt h))

/-- The place where a directive ends: its line break, or the end. A block comment that opens in the
directive carries it on to the line where the comment closes. -/
def skipDirective (c : Cursor) : Cursor :=
  match _h : c.next? with
  | none => c
  | some (ch, d) =>
    if ch = '\n' then c
    else if ch = '/' then
      match _hd : d.next? with
      | some ('*', e) => skipDirective (skipBlockComment e)
      | some ('/', e) => skipLine e
      | _ => skipDirective d
    else skipDirective d
termination_by c.rest.length
decreasing_by
  · have := skipBlockComment_length_le e
    have := Cursor.next?_length_lt _h
    have := Cursor.next?_length_lt _hd
    omega
  · exact Cursor.next?_length_lt _h
  · exact Cursor.next?_length_lt _h

/-- The place after the quote that closes a string; a string left open ends with its line. A
backslash takes the next character with it. -/
def skipString (c : Cursor) : Cursor :=
  match _h : c.next? with
  | none => c
  | some (ch, d) =>
    if ch = '\n' then c
    else if ch = '"' then d
    else if ch = '\\' then
      match _hd : d.next? with
      | none => d
      | some (_, e) => skipString e
    else skipString d
termination_by c.rest.length
decreasing_by
  · exact Nat.lt_trans (Cursor.next?_length_lt _hd) (Cursor.next?_length_lt _h)
  · exact Cursor.next?_length_lt _h

/-- The place after the quote that closes an escape, if one comes within `room` characters and
before the end of the line. -/
def closeEscape? : (room : Nat) → Cursor → Option Cursor
  | 0, _ => none
  | room + 1, c =>
    match c.next? with
    | none => none
    | some (ch, d) =>
      if ch = '\'' then some d
      else if ch = '\n' then none
      else closeEscape? room d

/-- The most characters that may follow the escaped one, the closing quote included. -/
def maxEscape : Nat := 9

/-- The place after the quote that closes a character literal, seen from behind its opening quote.
`none` means that the opening quote opens no literal. -/
def closeCharacter? (c : Cursor) : Option Cursor :=
  match c.next? with
  | none => none
  | some (ch, d) =>
    if ch = '\n' then none
    else if ch = '\\' then
      match d.next? with
      | none => none
      | some (escaped, e) => if escaped = '\n' then none else closeEscape? maxEscape e
    else
      match d.next? with
      | some ('\'', e) => some e
      | _ => none

theorem skipDirective_length_le (c : Cursor) : (skipDirective c).rest.length ≤ c.rest.length := by
  fun_induction skipDirective c with
  | case1 => exact Nat.le_refl _
  | case2 => exact Nat.le_refl _
  | case3 c d e he h _ ih =>
    have := skipBlockComment_length_le e
    have := Cursor.next?_length_lt h
    have := Cursor.next?_length_lt he
    omega
  | case4 c d e he h =>
    have := skipLine_length_le e
    have := Cursor.next?_length_lt h
    have := Cursor.next?_length_lt he
    omega
  | case5 c d _ _ h _ ih =>
    have := Cursor.next?_length_lt h
    omega
  | case6 c ch d h _ _ ih =>
    have := Cursor.next?_length_lt h
    omega

theorem skipString_length_le (c : Cursor) : (skipString c).rest.length ≤ c.rest.length := by
  fun_induction skipString c with
  | case1 => exact Nat.le_refl _
  | case2 => exact Nat.le_refl _
  | case3 c d h => exact Nat.le_of_lt (Cursor.next?_length_lt h)
  | case4 c d _ h => exact Nat.le_of_lt (Cursor.next?_length_lt h)
  | case5 c d _ e he h _ _ ih =>
    have := Cursor.next?_length_lt h
    have := Cursor.next?_length_lt he
    omega
  | case6 c ch d h _ _ _ ih =>
    have := Cursor.next?_length_lt h
    omega

theorem closeEscape?_length_lt {room : Nat} {c d : Cursor} (h : closeEscape? room c = some d) :
    d.rest.length < c.rest.length := by
  induction room generalizing c with
  | zero => simp [closeEscape?] at h
  | succ room ih =>
    simp only [closeEscape?] at h
    split at h
    · cases h
    · rename_i hn
      have := Cursor.next?_length_lt hn
      split at h
      · cases h; exact this
      · split at h
        · cases h
        · exact Nat.lt_trans (ih h) this

theorem closeCharacter?_length_lt {c d : Cursor} (h : closeCharacter? c = some d) :
    d.rest.length < c.rest.length := by
  unfold closeCharacter? at h
  split at h
  · cases h
  · rename_i hn
    have := Cursor.next?_length_lt hn
    split at h
    · cases h
    · split at h
      · split at h
        · cases h
        · rename_i hd
          have := Cursor.next?_length_lt hd
          split at h
          · cases h
          · have := closeEscape?_length_lt h
            omega
      · split at h
        · rename_i hd
          have := Cursor.next?_length_lt hd
          cases h
          omega
        · cases h

end Literal
end LambdaTally
