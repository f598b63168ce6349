import LambdaTally.Proofs.Structural.Settled

/-!
# LambdaTally.Proofs.Stability

Settled text is structural: reducing it changes nothing, and each of its brackets has its own position
for an offset (`Settled.ofSource_eq`). What a source without apostrophes leaves is settled, so reducing it
again changes nothing (`ofSource_text_stable`).

The loop reads settled text one character at a time, but for the two quotes of an empty string, and writes
what it has read. No raw string is among it, since the quote that would open one is followed by another.
-/

namespace LambdaTally

open Structural CharClass Utf8 Cursor

namespace QuotesPaired

variable {ch : Char} {front rest : List Char}

theorem tail (h : QuotesPaired (ch :: rest)) (other : ch ≠ '"') : QuotesPaired rest := by
  cases h with
  | pair => exact absurd rfl other
  | plain _ later => exact later

theorem exists_second (h : QuotesPaired ('"' :: rest)) :
    ∃ more, rest = '"' :: more ∧ QuotesPaired more := by
  cases h with
  | pair later => exact ⟨_, rfl, later⟩
  | plain other => exact absurd rfl other

/-- The first quote of a text is followed by another. -/
theorem exists_behind (h : QuotesPaired (front ++ '"' :: rest)) (no_quote : '"' ∉ front) :
    ∃ more, rest = '"' :: more := by
  induction front with
  | nil => exact h.exists_second.imp fun _ => And.left
  | cons ch front ih =>
    rw [List.mem_cons, not_or] at no_quote
    exact ih (tail h (Ne.symm no_quote.1)) no_quote.2

end QuotesPaired

/-- An empty string is not what a delimiter starts with. -/
theorem Literal.rawLength?_empty_string (text : List Char) :
    Literal.rawLength? (encode ('R' :: '"' :: '"' :: text)) = none := rfl

theorem Piece.skipRawString?_of_paired {c : Cursor} (h : QuotesPaired c.rest) :
    Piece.skipRawString? c = none := by
  refine Option.map_eq_none_iff.2 ?_
  by_contra opened
  obtain ⟨n, length⟩ := Option.ne_none_iff_exists'.1 opened
  obtain ⟨e, encoding, raw, m, whole, opens, -⟩ := Literal.prefixedRawLength?_eq_some_iff.1 length
  obtain ⟨tail, rfl⟩ := Literal.exists_of_rawLength? opens
  have no_quote : ∀ e ∈ Literal.encodings, '"' ∉ e ++ ['R'] := by decide
  rw [whole, List.append_cons] at h
  obtain ⟨more, rfl⟩ := h.exists_behind (no_quote e encoding)
  rw [Literal.rawLength?_empty_string] at opens
  cases opens

/-- A text without line breaks has no splices. -/
theorem OnlySpaces.skipSplices_eq {text : List Char} (h : OnlySpaces text) (offset : Nat) :
    skipSplices offset text = ⟨offset, text⟩ := by
  have no_break : '\n' ∉ text := fun member => absurd (h _ member (by decide)) (by decide)
  refine skipSplices_of_not_starts ?_ offset
  rw [Bool.eq_false_iff, Ne, startsSplice_iff]
  rintro (⟨_, rfl⟩ | ⟨_, rfl⟩) <;> simp at no_break

namespace Structural

variable {d e : Draft} {ch : Char} {rest : List Char}

/-- The rest of a settled text, as it is met behind the draft of what stands before it. -/
structure Draft.Meets (d : Draft) (rest : List Char) : Prop where
  onlySpaces : OnlySpaces rest
  spaced : LambdaTally.Spaced rest
  uncommented : Uncommented rest
  no_apostrophe : '\'' ∉ rest
  apart : d.written.head? = some ' ' → rest.head? ≠ some ' '
  line : d.lineStart = true → firstSolid? rest ≠ some '#'

namespace Draft.Meets

theorem tail (h : d.Meets (ch :: rest)) (written : e.written = ch :: d.written)
    (line : e.lineStart = true → isBlank ch = true ∧ d.lineStart = true) : e.Meets rest where
  onlySpaces := fun c member => h.onlySpaces c (List.mem_cons_of_mem _ member)
  spaced := h.spaced.tail
  uncommented := List.IsChain.tail h.uncommented
  no_apostrophe := fun member => h.no_apostrophe (List.mem_cons_of_mem _ member)
  apart := by
    rw [written]
    intro last next
    obtain rfl : ch = ' ' := Option.some.inj last
    exact absurd (h.spaced.head?_tail (by decide) next) (by decide)
  line := by
    intro start
    obtain ⟨blank, before⟩ := line start
    have directive := h.line before
    rwa [firstSolid?, List.find?_cons_of_neg (by simp [blank])] at directive

theorem next?_eq (h : d.Meets (ch :: rest)) (offset : Nat) :
    (⟨offset, ch :: rest⟩ : Cursor).next? = some (ch, ⟨offset + ch.utf8Size, rest⟩) := by
  have later : OnlySpaces rest := fun c member => h.onlySpaces c (List.mem_cons_of_mem _ member)
  rw [← later.skipSplices_eq]
  rfl

end Draft.Meets

/-- What is left of a settled rest: the rest itself, each bracket with its own position. -/
def Draft.Kept (d : Draft) (rest : List Char) : Prop :=
  (reduceFrom ⟨d.length, rest⟩ d).finish =
    ⟨d.written.reverse ++ rest, d.squares.reverse ++ (squarePositions d.length rest).map fun p => (p, p)⟩

/-- The piece leaves just the characters that it takes. -/
structure Draft.Copies (d : Draft) (taken rest : List Char) (piece : Piece) : Prop where
  read : Piece.read? ⟨d.length, taken ++ rest⟩ d.lineStart d.word =
    some (piece, ⟨d.length + byteLength taken, rest⟩)
  written : (d.add piece).written = taken.reverse ++ d.written
  length : (d.add piece).length = d.length + byteLength taken
  squares : (d.add piece).squares.reverse =
    d.squares.reverse ++ (squarePositions d.length taken).map fun p => (p, p)

theorem Draft.Copies.kept {taken : List Char} {piece : Piece} (copies : d.Copies taken rest piece)
    (later : (d.add piece).Kept rest) : d.Kept (taken ++ rest) := by
  rw [Kept, copies.length] at later
  rw [Kept, reduceFrom_step copies.read, later, copies.written, copies.squares]
  rw [squarePositions_append, List.map_append, List.reverse_append, List.reverse_reverse]
  rw [List.append_assoc, List.append_assoc]

/-- The piece that leaves a plain character. -/
theorem Draft.copies_plain (no_square : ch ≠ '[') (read : Piece.read? ⟨d.length, ch :: rest⟩ d.lineStart
    d.word = some (.plain ch, ⟨d.length + ch.utf8Size, rest⟩)) : d.Copies [ch] rest (.plain ch) where
  read := by simpa using read
  written := rfl
  length := by simp [add, push]
  squares := by simp [add, push, squarePositions, no_square]

namespace Draft.Meets

/-- At a character that is no quote stands a piece that leaves just that character. -/
theorem exists_copies (h : d.Meets (ch :: rest)) (paired : QuotesPaired (ch :: rest)) (no_quote : ch ≠ '"') :
    ∃ piece, d.Copies [ch] rest piece ∧
      ((d.add piece).lineStart = true → isBlank ch = true ∧ d.lineStart = true) := by
  have next := h.next?_eq d.length
  cases Piece.kind d.lineStart ch with
  | newline => exact absurd (h.onlySpaces _ List.mem_cons_self (by decide)) (by decide)
  | blank no_break blank =>
    obtain rfl : ch = ' ' := h.onlySpaces _ List.mem_cons_self blank
    have ends : d.written.head? ≠ some ' ' := fun last => h.apart last rfl
    have added : d.add .blank =
        { d with written := ' ' :: d.written, length := d.length + 1, word := .none } := if_neg ends
    refine ⟨.blank, ⟨Piece.read?_blank next no_break blank, ?_, ?_, ?_⟩, ?_⟩
    · rw [added]
      rfl
    · rw [added]
      rfl
    · rw [added]
      exact (List.append_nil _).symm
    · rw [added]
      exact fun start => ⟨blank, start⟩
  | directive start => exact absurd rfl (h.line start)
  | slash =>
    have apart {c : Char} {e : Cursor} (second : (⟨d.length + '/'.utf8Size, rest⟩ : Cursor).next? =
        some (c, e)) : c ≠ '/' ∧ c ≠ '*' := by
      obtain ⟨more, rfl⟩ := rest_of_next second
      exact (List.isChain_cons_cons.1 h.uncommented).1 rfl
    refine ⟨_, copies_plain (by decide) ?_, nofun⟩
    rw [Piece.read?_slash next, Piece.readSlash_plain (fun e line => (apart line).1 rfl)
      fun e block => (apart block).2 rfl]
  | string => exact absurd rfl no_quote
  | quote => exact absurd List.mem_cons_self h.no_apostrophe
  | square =>
    refine ⟨.square d.length, ⟨Piece.read?_square next, rfl, rfl, ?_⟩, nofun⟩
    exact List.reverse_cons
  | letter letter =>
    have no_square : ch ≠ '[' := by
      rintro rfl
      cases letter
    refine ⟨_, copies_plain no_square ?_, nofun⟩
    rw [Piece.read?_raw next letter, Piece.rawOrPlain, Piece.skipRawString?_of_paired paired]
    split <;> rfl
  | plain ordinary =>
    exact ⟨_, copies_plain ordinary.no_square (Piece.read?_plain next ordinary), nofun⟩

/-- The draft between the two quotes of an empty string. -/
def betweenQuotes (d : Draft) : Draft := { d with written := '"' :: d.written, lineStart := false }

theorem between (h : d.Meets ('"' :: rest)) : (betweenQuotes d).Meets rest :=
  h.tail rfl fun start => absurd start Bool.false_ne_true

theorem copies_quotes (h : d.Meets ('"' :: '"' :: rest)) : d.Copies ['"', '"'] rest .string := by
  have read : Piece.read? ⟨d.length, '"' :: '"' :: rest⟩ d.lineStart d.word =
      some (.string, Literal.skipString ⟨d.length + 1, '"' :: rest⟩) :=
    Piece.read?_string (h.next?_eq d.length)
  rw [Literal.skipString_quote (h.between.next?_eq _)] at read
  exact ⟨read, rfl, rfl, (List.append_nil _).symm⟩

theorem behind_quotes (h : d.Meets ('"' :: '"' :: rest)) : (d.add .string).Meets rest :=
  h.between.tail rfl fun start => absurd start Bool.false_ne_true

/-- A settled rest of a text is left as it stands. -/
theorem kept (h : d.Meets rest) (paired : QuotesPaired rest) : d.Kept rest := by
  induction paired generalizing d with
  | nil =>
    rw [Kept, reduceFrom_end (Piece.read?_end rfl)]
    simp [Draft.finish, squarePositions]
  | pair _ ih => exact h.copies_quotes.kept (ih h.behind_quotes)
  | plain no_quote paired ih =>
    obtain ⟨piece, copies, line⟩ := h.exists_copies (.plain no_quote paired) no_quote
    exact copies.kept (ih (h.tail copies.written line))

end Draft.Meets

theorem Draft.meets_empty {text : List Char} (h : Settled text) : Draft.empty.Meets text :=
  ⟨h.onlySpaces, h.spaced, h.uncommented, h.no_apostrophe, nofun, fun _ => h.no_directive⟩

end Structural

/-- Settled text is structural as it stands. -/
theorem Settled.ofSource_eq {text : List Char} (h : Settled text) :
    Structural.ofSource text = ofText text := by
  have start : Cursor.ofSource text = ⟨0, text⟩ := h.onlySpaces.skipSplices_eq 0
  have kept := (Draft.meets_empty h).kept h.paired
  rw [Structural.ofSource, start]
  simpa [Draft.Kept, Draft.empty, ofText] using kept

/-- What a source without apostrophes leaves is structural: reducing it once more changes nothing, and
each of its brackets is found where it stands. -/
theorem ofSource_text_stable {source : List Char} (no_apostrophe : '\'' ∉ source) :
    Structural.ofSource (Structural.ofSource source).text = ofText (Structural.ofSource source).text :=
  (settled_ofSource no_apostrophe).ofSource_eq

/-- A `#` that no line starts with, a raw string taken with its encoding, and two slashes that a
comment kept apart. -/
theorem ofSource_text_stable_apart :
    let source := "/ /*x*/#if 0\n /**/ #\\\nif\nu8R\"a(b[)a\"[1/ //\n/2]\"x".toList
    let text := "/ #if 0 \"\"[1/ /2]\"\"".toList
    '\'' ∉ source ∧ (Structural.ofSource source).text = text ∧
      Structural.ofSource text = ⟨text, [(10, 10)]⟩ := by
  intro source text
  have no_apostrophe : '\'' ∉ source := by decide
  have left : (Structural.ofSource source).text = text := by decide +kernel
  have stable := ofSource_text_stable no_apostrophe
  rw [left] at stable
  exact ⟨no_apostrophe, left, stable⟩

end LambdaTally
