import LambdaTally.Source.Piece

/-!
# LambdaTally.Proofs.Source.Pieces

The piece at a place, by the character that stands there: one equation for each kind of piece, so that
later modules never unfold `read?`.
-/

namespace LambdaTally
namespace Piece

open Cursor

variable {c d e : Cursor} {ch : Char} {lineStart : Bool} {word : Word}

/-! ## Behind a slash and behind a quote -/

theorem readSlash_line (h : d.next? = some ('/', e)) :
    readSlash d = (.lineComment, Literal.skipLine e) := by
  rw [readSlash, h]
  rfl

theorem readSlash_block (h : d.next? = some ('*', e)) :
    readSlash d = (.blockComment, Literal.skipBlockComment e) := by
  rw [readSlash, h]
  rfl

theorem readSlash_plain (no_line : ∀ e, d.next? ≠ some ('/', e))
    (no_block : ∀ e, d.next? ≠ some ('*', e)) : readSlash d = (.plain '/', d) := by
  unfold readSlash
  split
  · rename_i h
    exact absurd h (no_line _)
  · rename_i h
    exact absurd h (no_block _)
  · rfl

theorem readQuote_character (no_number : word ≠ .number) (h : Literal.closeCharacter? d = some e) :
    readQuote d word = (.character, e) := by
  rw [readQuote, if_neg no_number, h]

theorem readQuote_plain (no_number : word ≠ .number) (h : Literal.closeCharacter? d = none) :
    readQuote d word = (.plain '\'', d) := by
  rw [readQuote, if_neg no_number, h]

theorem rawOrPlain_raw (no_word : word = .none) (h : skipRawString? c = some e) :
    rawOrPlain c d word ch = (.rawString, e) := by
  rw [rawOrPlain, if_pos no_word, h]

/-! ## A piece -/

theorem read?_end (h : c.next? = none) : read? c lineStart word = none := by
  rw [read?, h]

theorem read?_newline (h : c.next? = some ('\n', d)) :
    read? c lineStart word = some (.newline, d) := by
  rw [read?, h]
  rfl

theorem read?_directive (h : c.next? = some ('#', d)) :
    read? c true word = some (.directive, Literal.skipDirective d) := by
  rw [read?, h]
  rfl

theorem read?_slash (h : c.next? = some ('/', d)) :
    read? c lineStart word = some (readSlash d) := by
  rw [read?, h]
  rfl

theorem read?_string (h : c.next? = some ('"', d)) :
    read? c lineStart word = some (.string, Literal.skipString d) := by
  rw [read?, h]
  rfl

theorem read?_quote (h : c.next? = some ('\'', d)) :
    read? c lineStart word = some (readQuote d word) := by
  rw [read?, h]
  rfl

theorem read?_square (h : c.next? = some ('[', d)) :
    read? c lineStart word = some (.square c.offset, d) := by
  rw [read?, h]
  rfl

/-- The letters that a raw string can start with. -/
def opensRaw (ch : Char) : Bool := ch == 'R' || ch == 'u' || ch == 'U' || ch == 'L'

theorem read?_raw (h : c.next? = some (ch, d)) (letter : opensRaw ch = true) :
    read? c lineStart word = some (rawOrPlain c d word ch) := by
  simp only [opensRaw, Bool.or_eq_true, beq_iff_eq] at letter
  rw [read?, h]
  rcases letter with ((rfl | rfl) | rfl) | rfl <;> rfl

theorem read?_blank (h : c.next? = some (ch, d)) (no_break : ch ≠ '\n')
    (blank : CharClass.isBlank ch = true) : read? c lineStart word = some (.blank, d) := by
  rw [read?, h]
  dsimp only
  rw [if_neg no_break, if_pos blank]

/-- The character begins none of the pieces that are known by their first character. -/
structure Ordinary (ch : Char) (lineStart : Bool) : Prop where
  no_break : ch ≠ '\n'
  no_blank : CharClass.isBlank ch = false
  no_directive : ¬ (ch = '#' ∧ lineStart = true)
  no_slash : ch ≠ '/'
  no_quote : ch ≠ '"'
  no_apostrophe : ch ≠ '\''
  no_square : ch ≠ '['
  no_letter : opensRaw ch = false

theorem read?_plain (h : c.next? = some (ch, d)) (ordinary : Ordinary ch lineStart) :
    read? c lineStart word = some (.plain ch, d) := by
  have no_letter : ¬ (ch = 'R' ∨ ch = 'u' ∨ ch = 'U' ∨ ch = 'L') := by
    simpa [opensRaw, and_assoc] using ordinary.no_letter
  rw [read?, h]
  dsimp only
  rw [if_neg ordinary.no_break, ordinary.no_blank, if_neg Bool.false_ne_true,
    if_neg ordinary.no_directive, if_neg ordinary.no_slash, if_neg ordinary.no_quote,
    if_neg ordinary.no_apostrophe, if_neg ordinary.no_square, if_neg no_letter]

/-- What can stand at a place, by its character and by what came before it on the line. -/
inductive Kind (lineStart : Bool) : Char → Prop where
  | newline : Kind lineStart '\n'
  | blank {ch : Char} : ch ≠ '\n' → CharClass.isBlank ch = true → Kind lineStart ch
  | directive : lineStart = true → Kind lineStart '#'
  | slash : Kind lineStart '/'
  | string : Kind lineStart '"'
  | quote : Kind lineStart '\''
  | square : Kind lineStart '['
  | letter {ch : Char} : opensRaw ch = true → Kind lineStart ch
  | plain {ch : Char} : Ordinary ch lineStart → Kind lineStart ch

theorem kind (lineStart : Bool) (ch : Char) : Kind lineStart ch := by
  by_cases newline : ch = '\n'
  · exact newline ▸ .newline
  by_cases blank : CharClass.isBlank ch = true
  · exact .blank newline blank
  by_cases directive : ch = '#' ∧ lineStart = true
  · exact directive.1 ▸ .directive directive.2
  by_cases slash : ch = '/'
  · exact slash ▸ .slash
  by_cases quote : ch = '"'
  · exact quote ▸ .string
  by_cases apostrophe : ch = '\''
  · exact apostrophe ▸ .quote
  by_cases square : ch = '['
  · exact square ▸ .square
  by_cases letter : opensRaw ch = true
  · exact .letter letter
  · exact .plain ⟨newline, by simpa using blank, directive, slash, quote, apostrophe, square,
      by simpa using letter⟩

/-- A string is read only at a quote, and up to where it is skipped. -/
theorem exists_of_read?_string (h : read? c lineStart word = some (.string, e)) :
    ∃ d, c.next? = some ('"', d) ∧ e = Literal.skipString d := by
  cases next : c.next? with
  | none =>
    rw [read?_end next] at h
    cases h
  | some r =>
    obtain ⟨ch, d⟩ := r
    cases kind lineStart ch with
    | newline =>
      rw [read?_newline next] at h
      cases h
    | blank no_break blank =>
      rw [read?_blank next no_break blank] at h
      cases h
    | directive start =>
      subst start
      rw [read?_directive next] at h
      cases h
    | slash =>
      rw [read?_slash next, readSlash] at h
      split at h <;> cases h
    | string =>
      rw [read?_string next] at h
      cases h
      exact ⟨d, rfl, rfl⟩
    | quote =>
      rw [read?_quote next, readQuote] at h
      split at h
      · cases h
      · split at h <;> cases h
    | square =>
      rw [read?_square next] at h
      cases h
    | letter letter =>
      rw [read?_raw next letter, rawOrPlain] at h
      split at h
      · split at h <;> cases h
      · cases h
    | plain ordinary =>
      rw [read?_plain next ordinary] at h
      cases h

end Piece
end LambdaTally
