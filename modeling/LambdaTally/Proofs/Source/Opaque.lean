import LambdaTally.Proofs.Source.Pieces
import LambdaTally.Proofs.Source.Within

/-!
# LambdaTally.Proofs.Source.Opaque

Comments and literals written out (`Opaque`), each of which is one piece of source, whatever stands
inside it: what is read there is its kind, and the place behind it (`Opaque.read?_eq`). A scanner
reads logical characters, so that what it passes over is described by those (`skipLine_reads` and its
companions); a text without line breaks has no splices, and is its own logical characters.
-/

namespace LambdaTally

open Utf8

namespace Cursor

theorem unspliced_of_not_mem {text : List Char} (h : '\n' ∉ text) : unspliced text = text := by
  fun_induction unspliced text with
  | case1 rest ih => simp at h
  | case2 rest ih => simp at h
  | case3 ch rest _ _ ih => rw [ih (fun later => h (List.mem_cons_of_mem _ later))]
  | case4 => rfl

variable {c d e : Cursor} {ch : Char} {chars : List Char}

theorem Reads.head (h : c.Reads (ch :: chars) e) :
    ∃ d, c.next? = some (ch, d) ∧ d.Reads chars e := by
  cases h with
  | cons hn later => exact ⟨_, hn, later⟩

theorem Reads.exists_append {a b : List Char} (h : c.Reads (a ++ b) e) :
    ∃ d, c.Reads a d ∧ d.Reads b e := by
  induction a generalizing c with
  | nil => exact ⟨c, .nil, h⟩
  | cons ch a ih =>
    obtain ⟨x, hn, later⟩ := h.head
    obtain ⟨d, front, behind⟩ := ih later
    exact ⟨d, .cons hn front, behind⟩

end Cursor

namespace Literal

open Cursor

variable {c d e : Cursor} {ch : Char} {chars : List Char}

theorem skipLine_reads (h : c.Reads chars e) (no_break : '\n' ∉ chars)
    (ends : e.rest = [] ∨ e.rest.head? = some '\n') : skipLine c = e := by
  induction h with
  | @nil c =>
    cases next : c.next? with
    | none => exact skipLine_end next
    | some r =>
      obtain ⟨ch, d⟩ := r
      obtain ⟨rest, hr⟩ := rest_of_next next
      rw [hr] at ends
      obtain rfl : ch = '\n' := by simpa using ends
      exact skipLine_newline next
  | cons hn later ih =>
    rw [List.mem_cons, not_or] at no_break
    rw [skipLine_next hn (Ne.symm no_break.1)]
    exact ih no_break.2 ends

theorem skipBlockComment_reads (h : c.Reads chars d) (no_close : ¬ ['*', '/'] <:+: chars)
    (star : d.next? = some ('*', e)) {f : Cursor} (slash : e.next? = some ('/', f)) :
    skipBlockComment c = f := by
  induction h with
  | nil => exact skipBlockComment_close star slash
  | @cons c x d ch chars hn later ih =>
    have step : skipBlockComment c = skipBlockComment x := by
      by_cases opens : ch = '*'
      · subst opens
        refine skipBlockComment_star hn fun y hy => ?_
        -- the slash would be the next of the comment, or the star that closes it
        cases later with
        | nil =>
          rw [star] at hy
          exact absurd (Prod.mk.inj (Option.some.inj hy)).1 (by decide)
        | @cons _ _ _ ch' more hn' _ =>
          rw [hn'] at hy
          cases hy
          exact no_close ⟨[], more, rfl⟩
      · exact skipBlockComment_next hn opens
    rw [step]
    exact ih (fun inside => no_close (inside.trans (List.infix_cons (List.infix_refl _)))) star

/-- What may stand between the quotes of a string: a backslash takes the next character with it. -/
inductive StringBody : List Char → Prop where
  | nil : StringBody []
  | plain {ch : Char} {body : List Char} : ch ≠ '"' → ch ≠ '\\' → ch ≠ '\n' → StringBody body →
      StringBody (ch :: body)
  | escape {ch : Char} {body : List Char} : ch ≠ '\n' → StringBody body →
      StringBody ('\\' :: ch :: body)

theorem StringBody.not_mem {body : List Char} (h : StringBody body) : '\n' ∉ body := by
  induction h with
  | nil => exact List.not_mem_nil
  | plain _ _ no_break _ ih => simpa [no_break.symm] using ih
  | escape no_break _ ih => simpa [no_break.symm] using ih

theorem skipString_reads {body : List Char} (h : StringBody body) (reads : c.Reads body d)
    (quote : d.next? = some ('"', e)) : skipString c = e := by
  induction h generalizing c with
  | nil =>
    cases reads
    exact skipString_quote quote
  | plain no_quote no_escape no_break _ ih =>
    obtain ⟨x, hn, later⟩ := reads.head
    rw [skipString_next hn no_break no_quote no_escape]
    exact ih later
  | escape no_break _ ih =>
    obtain ⟨x, hn, escaped⟩ := reads.head
    obtain ⟨y, hn', later⟩ := escaped.head
    rw [skipString_escape hn hn']
    exact ih later

theorem closeEscape?_reads {room : Nat} (h : c.Reads chars d) (no_quote : '\'' ∉ chars)
    (no_break : '\n' ∉ chars) (short : chars.length < room) (quote : d.next? = some ('\'', e)) :
    closeEscape? room c = some e := by
  induction h generalizing room with
  | nil =>
    obtain ⟨room, rfl⟩ := Nat.exists_eq_add_one_of_ne_zero (Nat.ne_of_gt short)
    simp [closeEscape?, quote]
  | cons hn later ih =>
    rw [List.mem_cons, not_or] at no_quote no_break
    rw [List.length_cons] at short
    obtain ⟨room, rfl⟩ := Nat.exists_eq_add_one_of_ne_zero (Nat.ne_of_gt (Nat.zero_lt_of_lt short))
    simp only [closeEscape?, hn, if_neg (Ne.symm no_quote.1), if_neg (Ne.symm no_break.1)]
    exact ih no_quote.2 no_break.2 (Nat.lt_of_succ_lt_succ short) quote

end Literal

namespace Piece

open Cursor Literal

/-- A comment or a literal written out, as the piece that it is. -/
inductive Opaque : Piece → List Char → Prop where
  | blockComment {text : List Char} : ¬ ['*', '/'] <:+: unspliced text →
      Opaque .blockComment ('/' :: '*' :: text ++ ['*', '/'])
  | lineComment {text : List Char} : '\n' ∉ text → ¬ ['\\'] <:+ text → ¬ ['\\', '\r'] <:+ text →
      Opaque .lineComment ('/' :: '/' :: text)
  | string {body : List Char} : StringBody body → Opaque .string ('"' :: body ++ ['"'])
  | rawString {text : List Char} : RawString text → Opaque .rawString text
  | character {ch : Char} : ch ≠ '\'' → ch ≠ '\\' → ch ≠ '\n' →
      Opaque .character ['\'', ch, '\'']
  | escape {ch : Char} {more : List Char} : ch ≠ '\n' → '\'' ∉ more → '\n' ∉ more →
      ('\'' :: '\\' :: ch :: more ++ ['\'']).length ≤ 12 →
      Opaque .character ('\'' :: '\\' :: ch :: more ++ ['\''])

/-- What stands in front of a character that takes part in no splice is read up to it. -/
theorem reads_before (ch : Char) (text rest : List Char) (offset : Nat)
    (h : ch ≠ '\\' ∧ ch ≠ '\n' ∧ ch ≠ '\r') :
    (skipSplices offset (text ++ ch :: rest)).Reads (unspliced text)
      ⟨offset + byteLength text, ch :: rest⟩ := by
  have sealed := Sealed.of_head text h rest
  have reads := reads_unspliced sealed.apart offset
  rwa [skipSplices_of_not_starts sealed.startsSplice_eq] at reads

theorem skipBlockComment_text {text : List Char} (no_close : ¬ ['*', '/'] <:+: unspliced text)
    (offset : Nat) (rest : List Char) :
    skipBlockComment (skipSplices offset (text ++ '*' :: '/' :: rest)) =
      skipSplices (offset + byteLength text + 2) rest :=
  skipBlockComment_reads (reads_before '*' text ('/' :: rest) offset (by decide)) no_close rfl rfl

theorem skipLine_text {text : List Char} (no_break : '\n' ∉ text) (no_slash : ¬ ['\\'] <:+ text)
    (no_return : ¬ ['\\', '\r'] <:+ text) (offset : Nat) {rest : List Char}
    (ends : rest = [] ∨ rest.head? = some '\n') :
    skipLine (skipSplices offset (text ++ rest)) =
      skipSplices (offset + byteLength text) rest := by
  have reads := reads_unspliced (Apart.of_ends no_slash no_return rest) offset
  rw [unspliced_of_not_mem no_break] at reads
  refine skipLine_reads reads no_break ?_
  have plain : startsSplice rest = false := by
    rcases ends with rfl | newline
    · rfl
    · obtain ⟨more, rfl⟩ := List.head?_eq_some_iff.1 newline
      rfl
  rwa [skipSplices_of_not_starts plain]

theorem skipString_text {body : List Char} (plain : StringBody body) (offset : Nat)
    (rest : List Char) :
    skipString (skipSplices offset (body ++ '"' :: rest)) =
      skipSplices (offset + byteLength body + 1) rest := by
  have reads := reads_before '"' body rest offset (by decide)
  rw [unspliced_of_not_mem plain.not_mem] at reads
  exact skipString_reads plain reads rfl

theorem closeCharacter?_plain_text {ch : Char} (no_escape : ch ≠ '\\') (no_break : ch ≠ '\n')
    (offset : Nat) (rest : List Char) :
    closeCharacter? (skipSplices offset (ch :: '\'' :: rest)) =
      some (skipSplices (offset + ch.utf8Size + 1) rest) := by
  have reads := reads_before '\'' [ch] rest offset (by decide)
  rw [unspliced_of_not_mem (by simpa using no_break.symm)] at reads
  obtain ⟨d, hn, later⟩ := reads.head
  cases later
  exact closeCharacter?_plain hn no_break no_escape rfl

theorem closeCharacter?_escape_text {ch : Char} {more : List Char} (no_break : ch ≠ '\n')
    (no_quote : '\'' ∉ more) (no_breaks : '\n' ∉ more) (short : more.length < maxEscape)
    (offset : Nat) (rest : List Char) :
    closeCharacter? (skipSplices offset ('\\' :: ch :: more ++ '\'' :: rest)) =
      some (skipSplices (offset + byteLength ('\\' :: ch :: more) + 1) rest) := by
  have reads := reads_before '\'' ('\\' :: ch :: more) rest offset (by decide)
  rw [unspliced_of_not_mem (by simpa [no_break.symm] using no_breaks)] at reads
  obtain ⟨d, hn, escaped⟩ := reads.head
  obtain ⟨e, hn', later⟩ := escaped.head
  rw [closeCharacter?_escape hn hn' no_break]
  exact closeEscape?_reads later no_quote no_breaks short rfl

theorem exists_of_rawString {text : List Char} (h : RawString text) :
    ∃ ch more, text = ch :: more ∧ opensRaw ch = true := by
  obtain @⟨e, d, body, he, -, -⟩ := h
  simp only [encodings, List.mem_cons, List.not_mem_nil, or_false] at he
  rcases he with rfl | rfl | rfl | rfl | rfl <;> exact ⟨_, _, rfl, rfl⟩

/-! ## The pieces -/

section Pieces

variable {text rest : List Char} {offset : Nat} {lineStart : Bool} {word : Word}

theorem utf8Size_delimiters :
    '/'.utf8Size = 1 ∧ '*'.utf8Size = 1 ∧ '"'.utf8Size = 1 ∧ '\''.utf8Size = 1 :=
  ⟨rfl, rfl, rfl, rfl⟩

theorem read?_blockComment (no_close : ¬ ['*', '/'] <:+: unspliced text) :
    read? ⟨offset, '/' :: '*' :: text ++ ['*', '/'] ++ rest⟩ lineStart word =
      some (.blockComment,
        skipSplices (offset + byteLength ('/' :: '*' :: text ++ ['*', '/'])) rest) := by
  have slash : (⟨offset, '/' :: '*' :: text ++ ['*', '/'] ++ rest⟩ : Cursor).next? =
      some ('/', ⟨offset + 1, '*' :: (text ++ ['*', '/'] ++ rest)⟩) := rfl
  have star : (⟨offset + 1, '*' :: (text ++ ['*', '/'] ++ rest)⟩ : Cursor).next? =
      some ('*', skipSplices (offset + 2) (text ++ '*' :: '/' :: rest)) := by
    simp [next?, utf8Size_delimiters]
  have width : offset + byteLength ('/' :: '*' :: text ++ ['*', '/']) =
      offset + 2 + byteLength text + 2 := by
    simp only [List.cons_append, byteLength_cons, byteLength_append, byteLength_nil,
      utf8Size_delimiters]
    omega
  rw [read?_slash slash, readSlash_block star, skipBlockComment_text no_close, width]

theorem read?_lineComment (no_break : '\n' ∉ text) (no_slash : ¬ ['\\'] <:+ text)
    (no_return : ¬ ['\\', '\r'] <:+ text) (ends : rest = [] ∨ rest.head? = some '\n') :
    read? ⟨offset, '/' :: '/' :: text ++ rest⟩ lineStart word =
      some (.lineComment, skipSplices (offset + byteLength ('/' :: '/' :: text)) rest) := by
  have slash : (⟨offset, '/' :: '/' :: text ++ rest⟩ : Cursor).next? =
      some ('/', ⟨offset + 1, '/' :: (text ++ rest)⟩) := rfl
  have second : (⟨offset + 1, '/' :: (text ++ rest)⟩ : Cursor).next? =
      some ('/', skipSplices (offset + 2) (text ++ rest)) := rfl
  have width : offset + byteLength ('/' :: '/' :: text) = offset + 2 + byteLength text := by
    simp only [byteLength_cons, utf8Size_delimiters]
    omega
  rw [read?_slash slash, readSlash_line second, skipLine_text no_break no_slash no_return _ ends,
    width]

theorem read?_stringLiteral (plain : StringBody text) :
    read? ⟨offset, '"' :: text ++ ['"'] ++ rest⟩ lineStart word =
      some (.string, skipSplices (offset + byteLength ('"' :: text ++ ['"'])) rest) := by
  have quote : (⟨offset, '"' :: text ++ ['"'] ++ rest⟩ : Cursor).next? =
      some ('"', skipSplices (offset + 1) (text ++ '"' :: rest)) := by
    simp [next?, utf8Size_delimiters]
  have width : offset + byteLength ('"' :: text ++ ['"']) = offset + 1 + byteLength text + 1 := by
    simp only [List.cons_append, byteLength_cons, byteLength_append, byteLength_nil,
      utf8Size_delimiters]
    omega
  rw [read?_string quote, skipString_text plain, width]

theorem read?_rawLiteral (raw : RawString text) :
    read? ⟨offset, text ++ rest⟩ lineStart .none =
      some (.rawString, skipSplices (offset + byteLength text) rest) := by
  obtain ⟨ch, more, rfl, letter⟩ := exists_of_rawString raw
  have first : (⟨offset, ch :: more ++ rest⟩ : Cursor).next? =
      some (ch, skipSplices (offset + ch.utf8Size) (more ++ rest)) := rfl
  rw [read?_raw first letter, rawOrPlain_raw rfl]
  simp only [skipRawString?, raw.length rest, Option.map_some, jump, dropOctets_byteLength]

theorem read?_characterLiteral {ch : Char} (no_escape : ch ≠ '\\') (no_break : ch ≠ '\n')
    (no_number : word ≠ .number) :
    read? ⟨offset, ['\'', ch, '\''] ++ rest⟩ lineStart word =
      some (.character, skipSplices (offset + byteLength ['\'', ch, '\'']) rest) := by
  have quote : (⟨offset, ['\'', ch, '\''] ++ rest⟩ : Cursor).next? =
      some ('\'', skipSplices (offset + 1) (ch :: '\'' :: rest)) := rfl
  have width : offset + byteLength ['\'', ch, '\''] = offset + 1 + ch.utf8Size + 1 := by
    simp only [byteLength_cons, byteLength_nil, utf8Size_delimiters]
    omega
  rw [read?_quote quote, readQuote_character no_number
    (closeCharacter?_plain_text no_escape no_break _ _), width]

theorem read?_escapeLiteral {ch : Char} {more : List Char} (no_break : ch ≠ '\n')
    (no_quote : '\'' ∉ more) (no_breaks : '\n' ∉ more)
    (short : ('\'' :: '\\' :: ch :: more ++ ['\'']).length ≤ 12) (no_number : word ≠ .number) :
    read? ⟨offset, '\'' :: '\\' :: ch :: more ++ ['\''] ++ rest⟩ lineStart word =
      some (.character,
        skipSplices (offset + byteLength ('\'' :: '\\' :: ch :: more ++ ['\''])) rest) := by
  have quote : (⟨offset, '\'' :: '\\' :: ch :: more ++ ['\''] ++ rest⟩ : Cursor).next? =
      some ('\'', skipSplices (offset + 1) ('\\' :: ch :: more ++ '\'' :: rest)) := by
    simp [next?, utf8Size_delimiters]
  have room : more.length < maxEscape := by
    simp only [List.cons_append, List.length_cons, List.length_append, List.length_nil] at short
    unfold maxEscape
    omega
  have width : offset + byteLength ('\'' :: '\\' :: ch :: more ++ ['\'']) =
      offset + 1 + byteLength ('\\' :: ch :: more) + 1 := by
    simp only [List.cons_append, byteLength_cons, byteLength_append, byteLength_nil,
      utf8Size_delimiters]
    omega
  rw [read?_quote quote, readQuote_character no_number
    (closeCharacter?_escape_text no_break no_quote no_breaks room _ _), width]

end Pieces

/-- A comment or a literal written out is one piece, read to its end. -/
theorem Opaque.read?_eq {piece : Piece} {text : List Char} (h : Opaque piece text)
    (rest : List Char) (ends : piece = .lineComment → rest = [] ∨ rest.head? = some '\n')
    (offset : Nat) (lineStart : Bool) :
    read? ⟨offset, text ++ rest⟩ lineStart .none =
      some (piece, skipSplices (offset + byteLength text) rest) := by
  cases h with
  | blockComment no_close => exact read?_blockComment no_close
  | lineComment no_break no_slash no_return =>
    exact read?_lineComment no_break no_slash no_return (ends rfl)
  | string plain => exact read?_stringLiteral plain
  | rawString raw => exact read?_rawLiteral raw
  | character _ no_escape no_break =>
    exact read?_characterLiteral no_escape no_break (by decide)
  | escape no_break no_quote no_breaks short =>
    exact read?_escapeLiteral no_break no_quote no_breaks short (by decide)

end Piece
end LambdaTally
