import LambdaTally.Proofs.Source.Scanners
import LambdaTally.Proofs.Structural.Spacing
import LambdaTally.Proofs.Whitespace

/-!
# LambdaTally.Proofs.Structural.Settled

Settled text: text in which there is nothing left to take out. It has single spaces for blanks and pairs
of quotes for strings, opens no comment, and begins with no directive. What a source without apostrophes
leaves is settled (`settled_ofSource`).

The invariant of the loop is `Draft.Settles`. Two things could bring a comment or a directive together
from what stands apart in the source. A piece that leaves nothing could stand between two slashes; but
where a slash has been written, no comment comes next, and no directive in the middle of a line. And a `#`
could be the first character that is left of its line; but a piece that leaves nothing of a line takes
the rest of the line with it.
-/

namespace LambdaTally

open Structural CharClass

/-- No comment opens in the text. -/
def Uncommented (text : List Char) : Prop := text.IsChain fun a b => a = '/' → b ≠ '/' ∧ b ≠ '*'

/-- The quotes of a text come in pairs, with nothing between the two of a pair. -/
inductive QuotesPaired : List Char → Prop where
  | nil : QuotesPaired []
  | pair {rest : List Char} : QuotesPaired rest → QuotesPaired ('"' :: '"' :: rest)
  | plain {ch : Char} {rest : List Char} : ch ≠ '"' → QuotesPaired rest → QuotesPaired (ch :: rest)

theorem QuotesPaired.append {a b : List Char} (ha : QuotesPaired a) (hb : QuotesPaired b) :
    QuotesPaired (a ++ b) := by
  induction ha with
  | nil => exact hb
  | pair _ ih => exact .pair ih
  | plain other _ ih => exact .plain other ih

/-- The first character of a text that is no blank. -/
def firstSolid? (text : List Char) : Option Char := text.find? fun ch => !isBlank ch

theorem firstSolid?_append (a b : List Char) :
    firstSolid? (a ++ b) = (firstSolid? a).or (firstSolid? b) := List.find?_append

/-- Nothing of the text is taken for a comment, a literal or a directive, empty strings apart. -/
structure Clear (text : List Char) : Prop where
  uncommented : Uncommented text
  paired : QuotesPaired text
  no_apostrophe : '\'' ∉ text
  no_directive : firstSolid? text ≠ some '#'

/-- Clear text whose blanks are single spaces. -/
structure Settled (text : List Char) : Prop extends Clear text where
  onlySpaces : OnlySpaces text
  spaced : Spaced text

namespace Clear

variable {text more : List Char} {ch : Char}

theorem nil : Clear [] := ⟨List.isChain_nil, .nil, List.not_mem_nil, nofun⟩

theorem append (h : Clear text) (uncommented : Uncommented more) (paired : QuotesPaired more)
    (no_apostrophe : '\'' ∉ more)
    (border : text.getLast? = some '/' → ∀ ch, more.head? = some ch → ch ≠ '/' ∧ ch ≠ '*')
    (start : firstSolid? more = some '#' → firstSolid? text ≠ none) : Clear (text ++ more) := by
  refine ⟨List.isChain_append.2 ⟨h.uncommented, uncommented, ?_⟩, h.paired.append paired, ?_, ?_⟩
  · rintro a last b first rfl
    exact border last b first
  · rw [List.mem_append, not_or]
    exact ⟨h.no_apostrophe, no_apostrophe⟩
  · rw [firstSolid?_append]
    have old := h.no_directive
    cases first : firstSolid? text with
    | none => exact fun directive => start directive first
    | some ch => rwa [first] at old

theorem append_char (h : Clear text) (no_quote : ch ≠ '"') (no_apostrophe : ch ≠ '\'')
    (border : text.getLast? = some '/' → ch ≠ '/' ∧ ch ≠ '*')
    (start : ch = '#' → firstSolid? text ≠ none) : Clear (text ++ [ch]) := by
  refine h.append (List.isChain_singleton ch) (.plain no_quote .nil) (by simpa using no_apostrophe.symm) ?_ ?_
  · rintro last _ ⟨⟩
    exact border last
  · intro directive
    refine start ?_
    cases blank : isBlank ch <;> simp_all [firstSolid?]

theorem append_quotes (h : Clear text) : Clear (text ++ ['"', '"']) := by
  refine h.append ?_ (.pair .nil) (by decide) ?_ fun start => absurd start (by decide)
  · exact List.isChain_cons_cons.2 ⟨by decide, List.isChain_singleton _⟩
  · rintro - _ ⟨⟩
    exact ⟨by decide, by decide⟩

end Clear

/-! ## Where a scanner stops -/

namespace Literal

open Cursor

variable {c d : Cursor} {ch : Char}

theorem next?_skipLine (h : (skipLine c).next? = some (ch, d)) : ch = '\n' := by
  fun_induction skipLine c with
  | case1 c at_end => rw [at_end] at h; cases h
  | case2 c d here => rw [here] at h; cases h; rfl
  | case3 c ch d here _ ih => exact ih h

theorem next?_skipDirective (h : (skipDirective c).next? = some (ch, d)) : ch = '\n' := by
  fun_induction skipDirective c with
  | case1 c at_end => rw [at_end] at h; cases h
  | case2 c d here => rw [here] at h; cases h; rfl
  | case3 c d e comment here _ ih => exact ih h
  | case4 c d e line here => exact next?_skipLine h
  | case5 c d no_comment no_line here _ ih => exact ih h
  | case6 c ch d here no_break no_slash ih => exact ih h

end Literal

namespace Structural

open Cursor

variable {c e x : Cursor} {d : Draft} {piece : Piece} {ch : Char}

theorem Draft.lineStart_space (d : Draft) : d.space.lineStart = d.lineStart := by
  unfold Draft.space
  split <;> rfl

/-- What the draft leaves is clear, and stays so whatever comes next at the place. -/
structure Draft.Settles (c : Cursor) (d : Draft) : Prop where
  clear : Clear d.written.reverse
  slash : d.written.head? = some '/' →
    d.lineStart = false ∧ ∀ ch e, c.next? = some (ch, e) → ch ≠ '/' ∧ ch ≠ '*'
  begun : d.lineStart = false →
    firstSolid? d.written.reverse ≠ none ∨ ∀ ch e, c.next? = some (ch, e) → ch = '\n'

namespace Draft.Settles

theorem empty (c : Cursor) : Settles c .empty := ⟨.nil, nofun, nofun⟩

/-- Where a line goes on behind its start, something has been written. -/
theorem solid (h : Settles c d) (here : c.next? = some (ch, x)) (no_break : ch ≠ '\n')
    (inside : d.lineStart = false) : firstSolid? d.written.reverse ≠ none :=
  (h.begun inside).resolve_right fun breaks => no_break (breaks ch x here)

theorem space (h : Settles c d) (e : Cursor) {lineStart : Bool}
    (solid : lineStart = false → firstSolid? d.written.reverse ≠ none) :
    Settles e { d.space with lineStart := lineStart } := by
  have written : d.space.written = d.written ∧ d.written.head? = some ' ' ∨
      d.space.written = ' ' :: d.written := by
    unfold Draft.space
    split
    · rename_i ends
      exact .inl ⟨rfl, ends⟩
    · exact .inr rfl
  have spaced : Clear (d.written.reverse ++ [' ']) :=
    h.clear.append_char (by decide) (by decide) (fun _ => by decide) (fun same => absurd same (by decide))
  rcases written with ⟨same, ends⟩ | written
  · refine ⟨same ▸ h.clear, ?_, fun inside => .inl (same ▸ solid inside)⟩
    rw [same, ends]
    exact fun slash => absurd (Option.some.inj slash) (by decide)
  · refine ⟨?_, ?_, fun inside => .inl ?_⟩
    · rw [written, List.reverse_cons]
      exact spaced
    · rw [written]
      exact fun slash => absurd (Option.some.inj slash) (by decide)
    · rw [written, List.reverse_cons, firstSolid?_append]
      simp [solid inside]

/-- A piece that leaves nothing of a line, and stops at its end. -/
theorem nothing (h : Settles c d) (no_slash : d.written.head? ≠ some '/')
    (stops : ∀ ch x, e.next? = some (ch, x) → ch = '\n') :
    Settles e { d with lineStart := false } :=
  ⟨h.clear, fun slash => absurd slash no_slash, fun _ => .inr stops⟩

theorem quotes (h : Settles c d) (e : Cursor) :
    Settles e { (d.push '"').push '"' with lineStart := false } := by
  have written : ('"' :: '"' :: d.written).reverse = d.written.reverse ++ ['"', '"'] := by simp
  refine ⟨?_, nofun, fun _ => .inl ?_⟩
  · change Clear ('"' :: '"' :: d.written).reverse
    rw [written]
    exact h.clear.append_quotes
  · change firstSolid? ('"' :: '"' :: d.written).reverse ≠ none
    rw [written, firstSolid?_append, Ne, Option.or_eq_none_iff]
    exact fun none_there => absurd none_there.2 (by decide)

theorem push (h : Settles c d) (here : c.next? = some (ch, e)) (plain : isBlank ch = false)
    (no_quote : ch ≠ '"') (no_apostrophe : ch ≠ '\'') (no_directive : ¬ (ch = '#' ∧ d.lineStart = true))
    (slash : ch = '/' → ∀ ch' x, e.next? = some (ch', x) → ch' ≠ '/' ∧ ch' ≠ '*') :
    Settles e { d.push ch with lineStart := false } := by
  have no_break : ch ≠ '\n' := by
    rintro rfl
    cases plain
  have written : (ch :: d.written).reverse = d.written.reverse ++ [ch] := by simp
  refine ⟨?_, fun last => ⟨rfl, slash (Option.some.inj last)⟩, fun _ => .inl ?_⟩
  · change Clear (ch :: d.written).reverse
    rw [written]
    refine h.clear.append_char no_quote no_apostrophe ?_ ?_
    · rw [List.getLast?_reverse]
      exact fun last => (h.slash last).2 ch e here
    · rintro rfl
      exact h.solid here no_break (by simpa using no_directive)
  · change firstSolid? (ch :: d.written).reverse ≠ none
    rw [written, firstSolid?_append]
    simp [firstSolid?, plain]

/-- Behind a slash stands a comment, or another character that is no part of one. -/
theorem slash_piece (h : Settles c d) (here : c.next? = some ('/', x)) :
    Settles (Piece.readSlash x).2 (d.add (Piece.readSlash x).1) := by
  have no_slash : d.written.head? ≠ some '/' := fun last => ((h.slash last).2 _ _ here).1 rfl
  by_cases line : ∃ y, x.next? = some ('/', y)
  · obtain ⟨y, second⟩ := line
    rw [Piece.readSlash_line second]
    exact h.nothing no_slash fun _ _ => Literal.next?_skipLine
  by_cases block : ∃ y, x.next? = some ('*', y)
  · obtain ⟨y, second⟩ := block
    rw [Piece.readSlash_block second]
    exact h.space _ fun inside => h.solid here (by decide) (d.lineStart_space ▸ inside)
  rw [Piece.readSlash_plain (fun y hy => line ⟨y, hy⟩) fun y hy => block ⟨y, hy⟩]
  refine h.push here (by decide) (by decide) (by decide) (by simp) fun _ ch y next => ⟨?_, ?_⟩
  · rintro rfl
    exact line ⟨y, next⟩
  · rintro rfl
    exact block ⟨y, next⟩

/-- At a letter stands a raw string, or that letter. -/
theorem letter_piece (h : Settles c d) (here : c.next? = some (ch, x)) (letter : Piece.opensRaw ch = true) :
    Settles (Piece.rawOrPlain c x d.word ch).2 (d.add (Piece.rawOrPlain c x d.word ch).1) := by
  have plain : Settles x (d.add (.plain ch)) := by
    simp only [Piece.opensRaw, Bool.or_eq_true, beq_iff_eq] at letter
    rcases letter with ((rfl | rfl) | rfl) | rfl <;>
      exact h.push here (by decide) (by decide) (by decide) (by simp) (by simp)
  unfold Piece.rawOrPlain
  split
  · split
    · exact h.quotes _
    · exact plain
  · exact plain

theorem add (h : Settles c d) (no_apostrophe : '\'' ∉ c.rest)
    (hr : Piece.read? c d.lineStart d.word = some (piece, e)) : Settles e (d.add piece) := by
  cases next : c.next? with
  | none =>
    rw [Piece.read?_end next] at hr
    cases hr
  | some r =>
    obtain ⟨ch, x⟩ := r
    obtain ⟨rest, whole⟩ := rest_of_next next
    have known {r : Piece × Cursor} (found : Piece.read? c d.lineStart d.word = some r)
        (settles : Settles r.2 (d.add r.1)) : Settles e (d.add piece) := by
      rw [hr] at found
      cases found
      exact settles
    cases Piece.kind d.lineStart ch with
    | newline => exact known (Piece.read?_newline next) (h.space x nofun)
    | blank no_break blank =>
      refine known (Piece.read?_blank next no_break blank) (h.space x fun inside => ?_)
      exact h.solid next no_break (d.lineStart_space ▸ inside)
    | directive start =>
      rw [start] at known
      refine known (Piece.read?_directive next) (h.nothing ?_ fun _ _ => Literal.next?_skipDirective)
      intro last
      rw [(h.slash last).1] at start
      cases start
    | slash => exact known (Piece.read?_slash next) (h.slash_piece next)
    | string => exact known (Piece.read?_string next) (h.quotes _)
    | quote => exact absurd (whole ▸ List.mem_cons_self) no_apostrophe
    | square =>
      have pushed := h.push next (by decide) (by decide) (by decide) (by simp) (by simp)
      exact known (Piece.read?_square next) ⟨pushed.clear, pushed.slash, pushed.begun⟩
    | letter letter => exact known (Piece.read?_raw next letter) (h.letter_piece next letter)
    | plain ordinary =>
      refine known (Piece.read?_plain next ordinary) (h.push next ordinary.no_blank ordinary.no_quote
        ordinary.no_apostrophe ordinary.no_directive fun slash => absurd slash ordinary.no_slash)

end Draft.Settles

theorem clear_reduceFrom (h : d.Settles c) (no_apostrophe : '\'' ∉ c.rest) :
    Clear (reduceFrom c d).written.reverse := by
  fun_induction reduceFrom c d with
  | case1 => exact h.clear
  | case2 c d piece next hr ih =>
    obtain ⟨taken, whole, -⟩ := (Piece.read?_spec hr).1.reaches
    refine ih (h.add no_apostrophe hr) fun later => no_apostrophe ?_
    rw [whole]
    exact List.mem_append_right taken later

/-- What a source without apostrophes leaves is settled. -/
theorem settled_ofSource {source : List Char} (no_apostrophe : '\'' ∉ source) :
    Settled (ofSource source).text where
  toClear := by
    refine clear_reduceFrom (.empty _) fun later => no_apostrophe ?_
    obtain ⟨taken, whole, -⟩ := reaches_ofSource source
    have whole : source = taken ++ (Cursor.ofSource source).rest := whole
    rw [whole]
    exact List.mem_append_right taken later
  onlySpaces := onlySpaces_ofSource source
  spaced := spaced_ofSource source

end Structural
end LambdaTally
