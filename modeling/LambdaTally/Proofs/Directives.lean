import LambdaTally.Proofs.Source.Opaque
import LambdaTally.Proofs.Structural.Steps

/-!
# LambdaTally.Proofs.Directives

A directive is removed with its line, and with nothing else (`directive_removed`), as long as every
block comment that opens in it closes in it: one that does not carries the directive on to the line where
it closes. The directive is read without regard to literals, so that a `/*` opens a comment in a string as
well (`directive_literal`), and a `//` in a string keeps every later `/*` of the line from doing so.
-/

namespace LambdaTally

open Structural Utf8 Cursor

namespace Literal

variable {c e : Cursor} {chars : List Char}

/-- Every block comment that the scanner of a directive opens in the characters closes in them. Behind a
`//` it opens none, and literals make no difference to it. -/
inductive CommentsClose : List Char → Prop where
  | nil : CommentsClose []
  | line (chars : List Char) : CommentsClose ('/' :: '/' :: chars)
  | block {inside chars : List Char} : ¬ ['*', '/'] <:+: inside → CommentsClose chars →
      CommentsClose ('/' :: '*' :: (inside ++ '*' :: '/' :: chars))
  | plain {ch : Char} {chars : List Char} :
      (ch = '/' → chars.head? ≠ some '/' ∧ chars.head? ≠ some '*') → CommentsClose chars →
      CommentsClose (ch :: chars)

theorem CommentsClose.of_absent (h : ¬ ['/', '*'] <:+: chars) : CommentsClose chars := by
  induction chars with
  | nil => exact .nil
  | cons ch chars ih =>
    by_cases line : ['/', '/'] <+: ch :: chars
    · obtain ⟨more, same⟩ := line
      rw [← same]
      exact .line more
    · refine .plain (fun slash => ?_) (ih fun inside => h (List.infix_cons inside))
      subst slash
      refine ⟨fun second => line ?_, fun star => h ?_⟩
      · obtain ⟨more, rfl⟩ := List.head?_eq_some_iff.1 second
        exact ⟨more, rfl⟩
      · obtain ⟨more, rfl⟩ := List.head?_eq_some_iff.1 star
        exact ⟨[], more, rfl⟩

theorem skipDirective_plain {ch : Char} {d : Cursor} (here : c.next? = some (ch, d))
    (no_break : ch ≠ '\n')
    (apart : ch = '/' → ∀ next x, d.next? = some (next, x) → next ≠ '/' ∧ next ≠ '*') :
    skipDirective c = skipDirective d := by
  by_cases slash : ch = '/'
  · subst slash
    exact skipDirective_slash here (fun x star => (apart rfl _ x star).2 rfl)
      (fun x line => (apart rfl _ x line).1 rfl)
  · exact skipDirective_next here no_break slash

/-- A directive ends at its line break if the comments that open in it close in it. -/
theorem skipDirective_reads (closed : CommentsClose chars) (h : c.Reads chars e)
    (no_break : '\n' ∉ chars) (ends : e.rest.head? = some '\n') : skipDirective c = e := by
  have newline : ∀ {ch : Char} {x : Cursor}, e.next? = some (ch, x) → ch = '\n' := by
    intro ch x next
    obtain ⟨rest, hr⟩ := rest_of_next next
    simpa [hr] using ends
  induction closed generalizing c with
  | nil =>
    cases h
    cases next : e.next? with
    | none => exact skipDirective_end next
    | some r =>
      obtain ⟨ch, d⟩ := r
      obtain rfl := newline next
      exact skipDirective_newline next
  | line chars =>
    obtain ⟨d, slash, h⟩ := h.head
    obtain ⟨x, slash', h⟩ := h.head
    rw [skipDirective_line slash slash']
    simp only [List.mem_cons, not_or] at no_break
    exact skipLine_reads h no_break.2.2 (.inr ends)
  | block no_close _ ih =>
    obtain ⟨d, slash, h⟩ := h.head
    obtain ⟨x, star, h⟩ := h.head
    obtain ⟨y, inside, h⟩ := h.exists_append
    obtain ⟨z, star', h⟩ := h.head
    obtain ⟨w, slash', h⟩ := h.head
    rw [skipDirective_comment slash star, skipBlockComment_reads inside no_close star' slash']
    simp only [List.mem_cons, List.mem_append, not_or] at no_break
    exact ih h no_break.2.2.2.2.2
  | plain apart _ ih =>
    obtain ⟨d, here, later⟩ := h.head
    rw [List.mem_cons, not_or] at no_break
    refine (skipDirective_plain here (Ne.symm no_break.1) fun slash ch x next => ?_).trans
      (ih later no_break.2)
    -- what stands next is one of the characters or the line break behind them
    obtain ⟨no_line, no_block⟩ := apart slash
    obtain rfl | ⟨more, rfl, -⟩ := later.of_next next
    · cases later
      obtain rfl := newline next
      exact ⟨by decide, by decide⟩
    · exact ⟨fun line => no_line (congrArg some line), fun star => no_block (congrArg some star)⟩

end Literal

namespace Structural

variable {front : List Char}

/-- The text is empty, or ends in a line break that the loop reads as one. -/
def EndsLine (front : List Char) : Prop := front = [] ∨ ∃ c d, Visits front c d ∧ c.rest = ['\n']

/-- Behind such a text the loop stands at the start of a line, whatever follows. -/
theorem EndsLine.visits (h : EndsLine front) :
    ∃ d : Draft, d.lineStart = true ∧ ∀ behind, startsSplice behind = false →
      Visits (front ++ behind) ⟨byteLength front, behind⟩ d := by
  rcases h with rfl | ⟨c, d, visits, rest⟩
  · refine ⟨.empty, rfl, fun behind plain => ?_⟩
    rw [Visits, Cursor.ofSource, List.nil_append, skipSplices_of_not_starts plain]
    exact .refl
  · refine ⟨d.add .newline, rfl, fun behind plain => ?_⟩
    obtain ⟨taken, whole, offset⟩ := visits.reaches
    rw [rest] at whole
    obtain rfl : front = taken ++ ['\n'] := whole
    have sealed : Sealed (taken ++ ['\n']) behind :=
      .of_apart (.of_last taken (by decide) (by decide) behind) plain
    have lined : c.Lined := ⟨c, .refl c, by rw [rest]; rfl⟩
    have steps := Steps.within (sealed_ofSource sealed) visits lined
    rw [← ofSource_within sealed] at steps
    have newline : (c.within 0 behind).next? =
        some ('\n', ⟨byteLength (taken ++ ['\n']), behind⟩) := by
      have width : '\n'.utf8Size = 1 := rfl
      have offset : c.offset = 0 + byteLength taken := offset
      have place : byteLength (taken ++ ['\n']) = c.offset + 1 := by
        rw [offset, byteLength_append, byteLength_cons, byteLength_nil, width]
        omega
      rw [place, ← skipSplices_of_not_starts plain]
      simp [next?, Cursor.within, rest, width]
    exact steps.trans (.single (Piece.read?_newline newline))

theorem add_directive_newline (d : Draft) : (d.add .directive).add .newline = d.add .newline := by
  by_cases ends : d.written.head? = some ' ' <;> simp [Draft.add, Draft.space, ends]

end Structural

theorem directive_removed {front body : List Char} (rest : List Char) (line : EndsLine front)
    (no_break : '\n' ∉ body) (no_slash : ¬ ['\\'] <:+ body) (no_return : ¬ ['\\', '\r'] <:+ body)
    (closed : Literal.CommentsClose body) :
    (Structural.ofSource (front ++ '#' :: body ++ '\n' :: rest)).text =
      (Structural.ofSource (front ++ '\n' :: rest)).text := by
  obtain ⟨d, start, visits⟩ := line.visits
  -- both runs stand behind the same line break, and come to the rest with the same draft
  have without : (Structural.ofSource (front ++ '\n' :: rest)).text =
      (reduceFrom (skipSplices (byteLength front + 1) rest) (d.add .newline)).finish.text := by
    rw [(visits _ rfl).ofSource_eq, reduceFrom_step (Piece.read?_newline rfl)]
    rfl
  have removed : (Structural.ofSource (front ++ '#' :: body ++ '\n' :: rest)).text =
      (reduceFrom (skipSplices (byteLength front + 1 + byteLength body + 1) rest)
        (d.add .newline)).finish.text := by
    have reads := reads_unspliced (Apart.of_ends no_slash no_return ('\n' :: rest))
      (byteLength front + 1)
    have plain : startsSplice ('\n' :: rest) = false := rfl
    rw [unspliced_of_not_mem no_break, skipSplices_of_not_starts plain] at reads
    have skipped := Literal.skipDirective_reads closed reads no_break rfl
    have read : Piece.read? ⟨byteLength front, '#' :: (body ++ '\n' :: rest)⟩ d.lineStart d.word =
        some (.directive, ⟨byteLength front + 1 + byteLength body, '\n' :: rest⟩) := by
      rw [start, ← skipped]
      exact Piece.read?_directive rfl
    rw [List.append_assoc, List.cons_append, (visits _ rfl).ofSource_eq, reduceFrom_step read,
      reduceFrom_step (Piece.read?_newline rfl), add_directive_newline]
    rfl
  rw [removed, without, reduceFrom_skipSplices, reduceFrom_skipSplices (byteLength front + 1)]
  rfl

/-- What looks like a comment in a string does no harm if it closes there. -/
theorem directive_removed_string :
    let body := ['F', '"', '[', '/', '*', 'x', '*', '/', '"']
    EndsLine ['a', ';', '\n'] ∧ Literal.CommentsClose body ∧
      (Structural.ofSource (['a', ';', '\n'] ++ '#' :: body ++ '\n' :: ['b', ';'])).text =
        (Structural.ofSource (['a', ';', '\n'] ++ '\n' :: ['b', ';'])).text := by
  intro body
  have visits : Visits ['a', ';', '\n'] ⟨2, ['\n']⟩ ⟨[';', 'a'], 2, [], .none, false⟩ :=
    .cons rfl (.cons rfl .refl)
  have line : EndsLine ['a', ';', '\n'] := .inr ⟨_, _, visits, rfl⟩
  have behind : Literal.CommentsClose ['"'] := .of_absent (by decide)
  have comment : Literal.CommentsClose ['/', '*', 'x', '*', '/', '"'] :=
    @Literal.CommentsClose.block ['x'] ['"'] (by decide) behind
  have closed : Literal.CommentsClose body :=
    .plain (by decide) (.plain (by decide) (.plain (by decide) comment))
  exact ⟨line, closed,
    directive_removed ['b', ';'] line (by decide) (by decide) (by decide) closed⟩

/-- A comment that opens in a string of a directive takes the lines behind it along. -/
theorem directive_literal :
    EndsLine [] ∧ (Structural.ofSource "#define G \"/*\"\nint x;\n".toList).text = [] ∧
      (Structural.ofSource "\nint x;\n".toList).text = " int x; ".toList :=
  ⟨.inl rfl, by decide +kernel, by decide +kernel⟩

end LambdaTally
