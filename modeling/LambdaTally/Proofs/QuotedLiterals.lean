import LambdaTally.Proofs.Source.Logical
import LambdaTally.Proofs.Source.Opaque
import LambdaTally.Proofs.Structural.Steps

/-!
# LambdaTally.Proofs.QuotedLiterals

Where strings and character literals end (`quoted_literals`). A string ends behind its first unescaped
quote, and a string left open with its line (`StringEnd`). The one way out of its line is an escape that
takes the line break for its character (`EscapesBreak`): a splice can leave a backslash right in front of
a line break. A character literal never leaves its line.
-/

namespace LambdaTally
namespace Literal

open Cursor

variable {c d e : Cursor} {ch : Char} {chars body : List Char}

/-- How a string ends, seen from behind its opening quote: the characters that it takes in, and the
place where it stops. -/
inductive StringEnd : List Char → Cursor → Prop where
  /-- Behind the first quote that no backslash escapes. -/
  | quote {body : List Char} {e : Cursor} : StringBody body → StringEnd (body ++ ['"']) e
  /-- In front of the line break. -/
  | line {body : List Char} {e g : Cursor} : StringBody body → e.next? = some ('\n', g) → StringEnd body e
  /-- At the end of the source. -/
  | source {body : List Char} {e : Cursor} : StringBody body → e.next? = none → StringEnd body e
  /-- At the end of the source, with nothing left to escape. -/
  | escape {body : List Char} {e : Cursor} : StringBody body → e.next? = none →
      StringEnd (body ++ ['\\']) e

/-- The string comes to a backslash that escapes a line break. -/
def EscapesBreak (c : Cursor) : Prop := ∃ body e, StringBody body ∧ c.Reads (body ++ ['\\', '\n']) e

theorem StringEnd.newline_notMem (h : StringEnd chars e) : '\n' ∉ chars := by
  cases h with
  | quote inside => simpa using inside.not_mem
  | line inside _ => exact inside.not_mem
  | source inside _ => exact inside.not_mem
  | escape inside _ => simpa using inside.not_mem

/-- Characters in front that are part of the string as well. -/
theorem StringEnd.behind (h : StringEnd chars e) (front : List Char)
    (longer : ∀ {body : List Char}, StringBody body → StringBody (front ++ body)) :
    StringEnd (front ++ chars) e := by
  cases h with
  | quote inside =>
    rw [← List.append_assoc]
    exact .quote (longer inside)
  | line inside at_break => exact .line (longer inside) at_break
  | source inside at_end => exact .source (longer inside) at_end
  | escape inside at_end =>
    rw [← List.append_assoc]
    exact .escape (longer inside) at_end

/-- By the recursion of the scanner. An escape of a line break settles the second case; any other step puts
what it has taken in front of what the rest of the string comes to. -/
theorem exists_reads_skipString (c : Cursor) :
    ∃ chars, c.Reads chars (skipString c) ∧ (StringEnd chars (skipString c) ∨ EscapesBreak c) := by
  fun_induction skipString c with
  | case1 c at_end => exact ⟨[], .nil, .inl (.source .nil at_end)⟩
  | case2 c d here => exact ⟨[], .nil, .inl (.line .nil here)⟩
  | case3 c d here => exact ⟨['"'], .cons here .nil, .inl (.quote .nil)⟩
  | case4 c d at_end here => exact ⟨['\\'], .cons here .nil, .inl (.escape .nil at_end)⟩
  | case5 c d ch e next here _ _ ih =>
    obtain ⟨chars, reads, ends⟩ := ih
    refine ⟨'\\' :: ch :: chars, .cons here (.cons next reads), ?_⟩
    by_cases newline : ch = '\n'
    · subst newline
      exact .inr ⟨[], e, .nil, .cons here (.cons next .nil)⟩
    · rcases ends with ends | ⟨body, f, inside, later⟩
      · exact .inl (ends.behind ['\\', ch] (.escape newline))
      · exact .inr ⟨_, f, .escape newline inside, .cons here (.cons next later)⟩
  | case6 c ch d here no_break no_quote no_escape ih =>
    obtain ⟨chars, reads, ends⟩ := ih
    refine ⟨ch :: chars, .cons here reads, ?_⟩
    rcases ends with ends | ⟨body, f, inside, later⟩
    · exact .inl (ends.behind [ch] (.plain no_quote no_escape no_break))
    · exact .inr ⟨_, f, .plain no_quote no_escape no_break inside, .cons here later⟩

/-- An escaped line break is taken in. -/
theorem EscapesBreak.exists_reads (h : EscapesBreak c) :
    ∃ chars, c.Reads chars (skipString c) ∧ '\n' ∈ chars := by
  obtain ⟨body, f, inside, here⟩ := h
  induction inside generalizing c with
  | nil =>
    obtain ⟨d, backslash, rest⟩ := here.head
    obtain ⟨e, newline, -⟩ := rest.head
    obtain ⟨more, later⟩ := leads_skipString e
    rw [skipString_escape backslash newline]
    exact ⟨_, .cons backslash (.cons newline later), by simp⟩
  | plain no_quote no_escape no_break _ ih =>
    obtain ⟨d, next, rest⟩ := here.head
    obtain ⟨chars, reads, taken⟩ := ih rest
    rw [skipString_next next no_break no_quote no_escape]
    exact ⟨_, .cons next reads, List.mem_cons_of_mem _ taken⟩
  | escape _ _ ih =>
    obtain ⟨d, backslash, rest⟩ := here.head
    obtain ⟨e, next, rest⟩ := rest.head
    obtain ⟨chars, reads, taken⟩ := ih rest
    rw [skipString_escape backslash next]
    exact ⟨_, .cons backslash (.cons next reads),
      List.mem_cons_of_mem _ (List.mem_cons_of_mem _ taken)⟩

/-! ## Character literals -/

theorem exists_reads_closeEscape? {room : Nat} (h : closeEscape? room c = some e) :
    ∃ chars, c.Reads chars e ∧ '\n' ∉ chars := by
  induction room generalizing c with
  | zero => cases h
  | succ room ih =>
    simp only [closeEscape?] at h
    split at h
    · cases h
    · rename_i ch d next
      split at h
      · rename_i quote
        cases h
        subst quote
        exact ⟨['\''], .cons next .nil, by decide⟩
      · split at h
        · cases h
        · rename_i no_break
          obtain ⟨chars, reads, none_in⟩ := ih h
          exact ⟨ch :: chars, .cons next reads, by simp [Ne.symm no_break, none_in]⟩

theorem exists_reads_closeCharacter? (h : closeCharacter? c = some e) :
    ∃ chars, c.Reads chars e ∧ '\n' ∉ chars := by
  obtain ⟨ch, d, next, no_break, ⟨-, ch', d', next', no_break', closed⟩ | ⟨-, quote⟩⟩ :=
    closeCharacter?_cases h
  · obtain ⟨chars, reads, none_in⟩ := exists_reads_closeEscape? closed
    exact ⟨ch :: ch' :: chars, .cons next (.cons next' reads),
      by simp [Ne.symm no_break, Ne.symm no_break', none_in]⟩
  · exact ⟨[ch, '\''], .cons next (.cons quote .nil), by simp [Ne.symm no_break]⟩

end Literal

theorem Piece.exists_reads_readQuote (d : Cursor) (word : Word) :
    ∃ chars, d.Reads chars (readQuote d word).2 ∧ '\n' ∉ chars := by
  unfold readQuote
  split
  · exact ⟨[], .nil, List.not_mem_nil⟩
  · split
    · rename_i closed
      exact Literal.exists_reads_closeCharacter? closed
    · exact ⟨[], .nil, List.not_mem_nil⟩

/-! ## The loop at a quote -/

open Cursor Structural Literal

variable {source chars : List Char} {c d e : Cursor} {draft : Draft} {quote : Char}

/-- What is read without a line break leaves the lines behind it as they are. -/
theorem Cursor.Reads.dropWhile_logical (reads : c.Reads chars e) (none_in : '\n' ∉ chars) :
    c.logical.dropWhile (· ≠ '\n') = e.logical.dropWhile (· ≠ '\n') := by
  rw [logical_of_reads reads, List.dropWhile_append_of_pos]
  intro ch member
  exact decide_eq_true fun newline => none_in (newline ▸ member)

/-- The piece at a quote: a line break is part of it only if it is a string that escapes one. -/
theorem Piece.exists_read?_quoted (here : c.next? = some (quote, d))
    (quoted : quote = '"' ∨ quote = '\'') (lineStart : Bool) (word : Word) :
    ∃ piece e chars, read? c lineStart word = some (piece, e) ∧ c.Reads (quote :: chars) e ∧
      ('\n' ∈ chars ↔ quote = '"' ∧ EscapesBreak d) ∧
      (quote = '"' → '\n' ∉ chars → piece = .string ∧ StringEnd chars e) := by
  rcases quoted with rfl | rfl
  · by_cases escaped : EscapesBreak d
    · obtain ⟨chars, reads, taken⟩ := escaped.exists_reads
      exact ⟨_, _, chars, read?_string here, .cons here reads, iff_of_true taken ⟨rfl, escaped⟩,
        fun _ none_in => absurd taken none_in⟩
    · obtain ⟨chars, reads, ends | escapes⟩ := exists_reads_skipString d
      · exact ⟨_, _, chars, read?_string here, .cons here reads,
          iff_of_false ends.newline_notMem fun h => escaped h.2, fun _ _ => ⟨rfl, ends⟩⟩
      · exact absurd escapes escaped
  · obtain ⟨chars, reads, none_in⟩ := exists_reads_readQuote d word
    exact ⟨_, _, chars, read?_quote here, .cons here reads,
      iff_of_false none_in fun h => absurd h.1 (by decide), fun string => absurd string (by decide)⟩

/-- **Quoted literals and their line.** Where the loop comes to a quote, the piece that it reads takes in
a line break exactly if it is a string that escapes one. Otherwise a string ends right behind its first
unescaped quote, or in front of its line break or at the end of the source if there is none; the lines
behind the literal are those behind the place where it ends; and a line break right there starts a new
line. -/
theorem quoted_literals (visits : Visits source c draft) (here : c.next? = some (quote, d))
    (quoted : quote = '"' ∨ quote = '\'') :
    ∃ piece e chars, Piece.read? c draft.lineStart draft.word = some (piece, e) ∧
      Visits source e (draft.add piece) ∧ c.Reads (quote :: chars) e ∧
      ('\n' ∈ chars ↔ quote = '"' ∧ EscapesBreak d) ∧
      ('\n' ∉ chars →
        (quote = '"' → piece = .string ∧ StringEnd chars e) ∧
        c.logical.dropWhile (· ≠ '\n') = e.logical.dropWhile (· ≠ '\n') ∧
        ∀ g, e.next? = some ('\n', g) →
          ∃ behind, Visits source g behind ∧ behind.lineStart = true) := by
  obtain ⟨piece, e, chars, read, reads, taken, string⟩ :=
    Piece.exists_read?_quoted here quoted draft.lineStart draft.word
  have later : Visits source e (draft.add piece) := Steps.trans visits (.single read)
  refine ⟨piece, e, chars, read, later, reads, taken, fun none_in => ⟨fun h => string h none_in, ?_, ?_⟩⟩
  · refine reads.dropWhile_logical fun newline => ?_
    rcases List.mem_cons.1 newline with rfl | inside
    · rcases quoted with no | no <;> exact absurd no (by decide)
    · exact none_in inside
  · intro g newline
    exact ⟨_, Steps.trans later (.single (Piece.read?_newline newline)), rfl⟩

/-- A string left open ends in front of its line break, and the next line starts behind that. -/
theorem quoted_literals_open :
    let source := ['"', 'a', '\\', '"', '\n', '#']
    Visits source ⟨0, source⟩ .empty ∧
      (⟨0, source⟩ : Cursor).next? = some ('"', ⟨1, ['a', '\\', '"', '\n', '#']⟩) ∧
      StringEnd ['a', '\\', '"'] ⟨4, ['\n', '#']⟩ ∧
      ∃ behind, Visits source ⟨5, ['#']⟩ behind ∧ behind.lineStart = true := by
  intro source
  have visits : Visits source ⟨0, source⟩ .empty := .refl
  have here : (⟨0, source⟩ : Cursor).next? = some ('"', ⟨1, ['a', '\\', '"', '\n', '#']⟩) := rfl
  obtain ⟨piece, e, chars, read, -, reads, -, stays⟩ := quoted_literals visits here (.inl rfl)
  have read_here : Piece.read? ⟨0, source⟩ true .none = some (.string, ⟨4, ['\n', '#']⟩) := by
    decide +kernel
  obtain ⟨rfl, rfl⟩ := Prod.mk.inj (Option.some.inj (read_here.symm.trans read))
  have taken : chars = ['a', '\\', '"'] := by
    have whole : ['"', 'a', '\\', '"'] ++ ['\n', '#'] = '"' :: chars ++ ['\n', '#'] := by
      have logical := logical_of_reads reads
      have left : (⟨0, source⟩ : Cursor).logical = source := by decide +kernel
      have right : (⟨4, ['\n', '#']⟩ : Cursor).logical = ['\n', '#'] := by decide +kernel
      rwa [left, right] at logical
    exact (List.cons.inj (List.append_cancel_right whole)).2.symm
  subst taken
  obtain ⟨string, -, next⟩ := stays (by decide)
  exact ⟨visits, here, (string rfl).2, next _ rfl⟩

/-- Behind the backslash that a splice leaves in front of a line break, the string takes that in and goes
on, and the next line is gone. -/
theorem quoted_literals_escaped_break :
    let source := ['"', '\\', '\\', '\n', '\n', 'x', ';', '\n']
    Visits source ⟨0, source⟩ .empty ∧
      (∃ e chars, Piece.read? ⟨0, source⟩ true .none = some (.string, e) ∧
        (⟨0, source⟩ : Cursor).Reads ('"' :: chars) e ∧ '\n' ∈ chars) ∧
      (Structural.ofSource source).text = ['"', '"', ' '] := by
  intro source
  have here : (⟨0, source⟩ : Cursor).next? =
      some ('"', ⟨1, ['\\', '\\', '\n', '\n', 'x', ';', '\n']⟩) := rfl
  have escapes : EscapesBreak ⟨1, ['\\', '\\', '\n', '\n', 'x', ';', '\n']⟩ :=
    ⟨[], _, .nil, .cons rfl (.cons rfl .nil)⟩
  obtain ⟨chars, reads, taken⟩ := escapes.exists_reads
  exact ⟨.refl, ⟨_, chars, Piece.read?_string here, .cons here reads, taken⟩, by decide +kernel⟩

end LambdaTally
