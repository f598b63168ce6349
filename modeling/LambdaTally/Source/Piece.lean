import LambdaTally.Source.Literal
import LambdaTally.Text.CharClass

/-!
# LambdaTally.Source.Piece

The pieces that a C++ source falls into as far as its brackets are concerned. Which piece stands at
a place depends on two facts about what came before it: whether anything but blanks has stood on
the line (a `#` opens a directive only there), and whether the last piece was part of a name or a
number (a quote in a number separates digits, and `R"` after a letter opens no raw string).

`readPiece?_length_lt`: every piece uses up source.
-/

namespace LambdaTally

/-- What the last character written belongs to. -/
inductive Word where
  | none
  | name
  | number
  deriving DecidableEq, Repr

/-- The word that a character continues, opens or ends. -/
def Word.after (word : Word) (ch : Char) : Word :=
  if CharClass.isNameChar ch then
    match word with
    | .none => if ch.isDigit then .number else .name
    | word => word
  else .none

/-- A piece of source. A square bracket is known by the offset where it was written. -/
inductive Piece where
  | newline
  | blank
  | directive
  | lineComment
  | blockComment
  | string
  | rawString
  | character
  | digitSeparator
  | square (offset : Nat)
  | plain (ch : Char)
  deriving DecidableEq, Repr

namespace Piece

/-- The place after the raw string that starts at the cursor. -/
def skipRawString? (c : Cursor) : Option Cursor :=
  (Literal.prefixedRawLength? c.rest).map c.jump

/-- The raw string whose first letter is `ch`, right before the place `d`, or just that letter. -/
def rawOrPlain (c d : Cursor) (word : Word) (ch : Char) : Piece × Cursor :=
  if word = .none then
    match skipRawString? c with
    | some e => (.rawString, e)
    | none => (.plain ch, d)
  else (.plain ch, d)

/-- What a quote before the place `d` stands for. -/
def readQuote (d : Cursor) (word : Word) : Piece × Cursor :=
  if word = .number then (.digitSeparator, d)
  else
    match Literal.closeCharacter? d with
    | some e => (.character, e)
    | none => (.plain '\'', d)

/-- What a slash before the place `d` stands for. -/
def readSlash (d : Cursor) : Piece × Cursor :=
  match d.next? with
  | some ('/', e) => (.lineComment, Literal.skipLine e)
  | some ('*', e) => (.blockComment, Literal.skipBlockComment e)
  | _ => (.plain '/', d)

/-- The piece at the cursor and the place after it. -/
def read? (c : Cursor) (lineStart : Bool) (word : Word) : Option (Piece × Cursor) :=
  match c.next? with
  | none => none
  | some (ch, d) =>
    some <|
      if ch = '\n' then (.newline, d)
      else if CharClass.isBlank ch then (.blank, d)
      else if ch = '#' ∧ lineStart = true then (.directive, Literal.skipDirective d)
      else if ch = '/' then readSlash d
      else if ch = '"' then (.string, Literal.skipString d)
      else if ch = '\'' then readQuote d word
      else if ch = '[' then (.square c.offset, d)
      else if ch = 'R' ∨ ch = 'u' ∨ ch = 'U' ∨ ch = 'L' then rawOrPlain c d word ch
      else (.plain ch, d)

theorem rawLength?_pos {octets : List UInt8} {n : Nat} (h : Literal.rawLength? octets = some n) :
    0 < n := by
  have through : ∀ close passed body, passed ≤ Literal.lengthThrough close passed body := by
    intro close passed body
    induction body generalizing passed with
    | nil => exact Nat.le_refl _
    | cons b body ih =>
      simp only [Literal.lengthThrough]
      split
      · omega
      · have := ih (passed + 1)
        omega
  unfold Literal.rawLength? at h
  split at h
  · obtain ⟨⟨d, body⟩, _, rfl⟩ := Option.map_eq_some_iff.1 h
    exact Nat.lt_of_lt_of_le (by omega) (through (0x29 :: d ++ [0x22]) (2 + d.length + 1) body)
  · cases h

theorem skipRawString?_length_lt {c d : Cursor} (h : skipRawString? c = some d) :
    d.rest.length < c.rest.length := by
  obtain ⟨n, hn, rfl⟩ := Option.map_eq_some_iff.1 h
  unfold Literal.prefixedRawLength? at hn
  split at hn
  · cases hn
  · rename_i opening found
    obtain ⟨m, hm, rfl⟩ := Option.map_eq_some_iff.1 hn
    have pos := rawLength?_pos hm
    have opens := List.find?_some found
    have member := List.mem_of_find?_eq_some found
    have nonempty : c.rest ≠ [] := by
      intro empty
      rw [empty] at opens
      simp only [Literal.rawPrefixes, List.mem_cons, List.not_mem_nil, or_false] at member
      rcases member with rfl | rfl | rfl | rfl | rfl <;> simp at opens
    obtain ⟨ch, rest, hr⟩ := List.exists_cons_of_ne_nil nonempty
    unfold Cursor.jump
    rw [hr]
    exact Nat.lt_of_le_of_lt (Cursor.skipSplices_length_le _ _)
      (Cursor.dropOctets_length_lt (by omega) rest)

theorem readSlash_length_le (d : Cursor) : (readSlash d).2.rest.length ≤ d.rest.length := by
  unfold readSlash
  split
  · rename_i e he
    exact Nat.le_trans (Literal.skipLine_length_le e) (Nat.le_of_lt (Cursor.next?_length_lt he))
  · rename_i e he
    exact Nat.le_trans (Literal.skipBlockComment_length_le e)
      (Nat.le_of_lt (Cursor.next?_length_lt he))
  · exact Nat.le_refl _

theorem readQuote_length_le (d : Cursor) (word : Word) :
    (readQuote d word).2.rest.length ≤ d.rest.length := by
  unfold readQuote
  split
  · exact Nat.le_refl _
  · split
    · rename_i he
      exact Nat.le_of_lt (Literal.closeCharacter?_length_lt he)
    · exact Nat.le_refl _

theorem rawOrPlain_length_lt {c d : Cursor} (word : Word) (ch : Char)
    (h : d.rest.length < c.rest.length) :
    (rawOrPlain c d word ch).2.rest.length < c.rest.length := by
  unfold rawOrPlain
  split
  · split
    · rename_i he
      exact skipRawString?_length_lt he
    · exact h
  · exact h

theorem read?_length_lt {c d : Cursor} {lineStart : Bool} {word : Word} {piece : Piece}
    (h : read? c lineStart word = some (piece, d)) : d.rest.length < c.rest.length := by
  unfold read? at h
  split at h
  · cases h
  · rename_i ch e hn
    have lt := Cursor.next?_length_lt hn
    have same : d = (piece, d).2 := rfl
    rw [same, ← Option.some.inj h]
    split
    · exact lt
    split
    · exact lt
    split
    · exact Nat.lt_of_le_of_lt (Literal.skipDirective_length_le e) lt
    split
    · exact Nat.lt_of_le_of_lt (readSlash_length_le e) lt
    split
    · exact Nat.lt_of_le_of_lt (Literal.skipString_length_le e) lt
    split
    · exact Nat.lt_of_le_of_lt (readQuote_length_le e word) lt
    split
    · exact lt
    split
    · exact rawOrPlain_length_lt word ch lt
    · exact lt

end Piece
end LambdaTally
