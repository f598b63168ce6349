import LambdaTally.Proofs.Structural.Border

/-!
# LambdaTally.Proofs.Lines

A source cut behind a line break that the loop reads as one. The two parts reduce by themselves, and
the text of the whole is the text of the first and, behind the space that the line break has left, that
of the second (`ofSource_lines`). A space at the start of the second falls together with that one.

`Draft.Behind` is the invariant: a draft that goes on behind another has the same characters as one
that starts afresh, up to a space at the start of that.
-/

namespace LambdaTally

open Structural Utf8 Cursor

/-- The length of the space that a text may start with. -/
def seam (text : List Char) : Nat := if text.head? = some ' ' then 1 else 0

namespace Structural

/-- One structural text behind another, without the space it may start with. Its source stands `k`
octets further back in the source of both. -/
def join (s t : Structural) (k : Nat) : Structural where
  text := s.text ++ t.text.drop (seam t.text)
  squares := s.squares ++
    t.squares.map fun entry => (byteLength s.text + entry.1 - seam t.text, entry.2 + k)

/-! ## The table of a join -/

theorem squarePositions_shift (position : Nat) (text : List Char) :
    squarePositions position text = (squarePositions 0 text).map (· + position) := by
  induction text generalizing position with
  | nil => rfl
  | cons ch text ih =>
    have moved : (squarePositions 0 text).map (· + (position + ch.utf8Size)) =
        ((squarePositions 0 text).map (· + (0 + ch.utf8Size))).map (· + position) := by
      rw [List.map_map]
      refine List.map_congr_left fun p _ => ?_
      simp only [Function.comp]
      omega
    rw [squarePositions, squarePositions, ih, ih (0 + ch.utf8Size), moved]
    split
    · simp
    · rfl

theorem squarePositions_seam (text : List Char) :
    squarePositions 0 text = (squarePositions 0 (text.drop (seam text))).map (· + seam text) := by
  cases text with
  | nil => rfl
  | cons ch rest =>
    by_cases space : ch = ' '
    · subst space
      exact squarePositions_shift 1 rest
    · have none_here : seam (ch :: rest) = 0 := by simp [seam, space]
      rw [none_here]
      exact (List.map_id _).symm

variable {s t : Structural}

theorem Tabled.positions_eq (h : t.Tabled) : t.squares.map Prod.fst =
    (squarePositions 0 (t.text.drop (seam t.text))).map (· + seam t.text) :=
  Eq.trans h (squarePositions_seam t.text)

/-- No bracket stands in the space that a text may start with. -/
theorem Tabled.seam_le (h : t.Tabled) : ∀ entry ∈ t.squares, seam t.text ≤ entry.1 := by
  intro entry member
  have listed : entry.1 ∈ t.squares.map Prod.fst := List.mem_map_of_mem member
  rw [h.positions_eq] at listed
  obtain ⟨p, -, same⟩ := List.mem_map.1 listed
  omega

theorem Tabled.join (hs : s.Tabled) (ht : t.Tabled) (k : Nat) : (s.join t k).Tabled := by
  have later : (t.squares.map fun entry =>
      (byteLength s.text + entry.1 - seam t.text, entry.2 + k)).map Prod.fst =
        (t.squares.map Prod.fst).map (byteLength s.text + · - seam t.text) := by
    rw [List.map_map, List.map_map]
    rfl
  rw [Tabled, Structural.join, List.map_append, hs, later, ht.positions_eq, squarePositions_append,
    squarePositions_shift (0 + _), List.map_map]
  refine congrArg _ (List.map_congr_left fun p _ => ?_)
  simp only [Function.comp]
  omega

theorem join_offsets (s t : Structural) (k : Nat) : (s.join t k).squares.map Prod.snd =
    s.squares.map Prod.snd ++ (t.squares.map Prod.snd).map (· + k) := by
  rw [join, List.map_append, List.map_map, List.map_map]
  rfl

/-- A structural text is known by its text and the offsets of its brackets. -/
theorem Tabled.ext (hs : s.Tabled) (ht : t.Tabled) (text : s.text = t.text)
    (offsets : s.squares.map Prod.snd = t.squares.map Prod.snd) : s = t := by
  have positions : s.squares.map Prod.fst = t.squares.map Prod.fst := by rw [hs, ht, text]
  have squares : s.squares = t.squares :=
    (List.zip_of_prod positions offsets).trans (List.zip_of_prod rfl rfl).symm
  obtain ⟨_, _⟩ := s
  obtain rfl : _ = t.text := text
  obtain rfl : _ = t.squares := squares
  rfl

/-! ## Behind a draft that ends in a space

Drafts are written latest first, so what is written behind `front` stands in front of it. -/

/-- The one is written behind `front`, the other starts afresh and may start with a space of its own. -/
def Continues (front afresh behind : List Char) : Prop :=
  ∃ later lead, afresh = later ++ lead ∧ behind = later ++ front ∧
    (lead = [' '] ∨ lead = [] ∧ later.getLast? ≠ some ' ')

namespace Continues

variable {front afresh behind : List Char} {ch : Char}

theorem cons (h : Continues front afresh behind) (inner : ch ≠ ' ' ∨ afresh ≠ []) :
    Continues front (ch :: afresh) (ch :: behind) := by
  obtain ⟨later, lead, rfl, rfl, at_start⟩ := h
  refine ⟨ch :: later, lead, rfl, rfl, at_start.imp_right ?_⟩
  rintro ⟨rfl, last⟩
  refine ⟨rfl, ?_⟩
  cases later with
  | nil => simpa using inner
  | cons next later => rwa [List.getLast?_cons_cons]

/-- Both end in a space, or neither does; or the one behind does and the other is still empty. -/
theorem head? (h : Continues front afresh behind) (space : front.head? = some ' ') :
    (afresh ≠ [] ∧ afresh.head? = behind.head?) ∨ afresh = [] ∧ behind = front := by
  obtain ⟨later, lead, rfl, rfl, rfl | ⟨rfl, -⟩⟩ := h <;> cases later <;> simp [space]

end Continues

/-- The draft `e` goes on behind `d₀` where the draft `d` starts afresh. -/
structure Draft.Behind (d₀ d e : Draft) : Prop where
  written : Continues d₀.written d.written e.written
  offsets : e.squares.map Prod.snd = d.squares.map Prod.snd ++ d₀.squares.map Prod.snd
  word : e.word = d.word
  lineStart : e.lineStart = d.lineStart

namespace Draft.Behind

variable {d₀ d e : Draft}

theorem start (word : d₀.word = .none) (line : d₀.lineStart = true) : Behind d₀ .empty d₀ :=
  ⟨⟨[], [], rfl, rfl, .inr ⟨rfl, nofun⟩⟩, rfl, word, line⟩

theorem push (h : Behind d₀ d e) {ch : Char} (no_space : ch ≠ ' ') :
    Behind d₀ (d.push ch) (e.push ch) :=
  ⟨h.written.cons (.inl no_space), h.offsets, congrArg (Word.after · ch) h.word, h.lineStart⟩

theorem space (h : Behind d₀ d e) (ends : d₀.written.head? = some ' ') :
    Behind d₀ d.space e.space := by
  unfold Draft.space
  rcases h.written.head? ends with ⟨started, same⟩ | ⟨empty, rest⟩
  · rw [← same]
    split
    · exact ⟨h.written, h.offsets, rfl, h.lineStart⟩
    · exact ⟨h.written.cons (.inr started), h.offsets, rfl, h.lineStart⟩
  · rw [empty, rest, if_pos ends]
    exact ⟨⟨[], [' '], rfl, rfl, .inl rfl⟩, h.offsets, rfl, h.lineStart⟩

theorem withLineStart (h : Behind d₀ d e) (b : Bool) :
    Behind d₀ { d with lineStart := b } { e with lineStart := b } :=
  ⟨h.written, h.offsets, h.word, rfl⟩

theorem add (h : Behind d₀ d e) (ends : d₀.written.head? = some ' ') {c : Cursor} {piece : Piece}
    (fits : piece.Fits c) : Behind d₀ (d.add piece) (e.add piece) := by
  cases piece with
  | newline => exact (h.space ends).withLineStart _
  | blank => exact h.space ends
  | blockComment => exact h.space ends
  | directive => exact h.withLineStart _
  | lineComment => exact h.withLineStart _
  | string => exact ((h.push (by decide)).push (by decide)).withLineStart _
  | rawString => exact ((h.push (by decide)).push (by decide)).withLineStart _
  | character => exact ((h.push (by decide)).push (by decide)).withLineStart _
  | digitSeparator => exact ⟨h.written.cons (.inl (by decide)), h.offsets, h.word, rfl⟩
  | square offset =>
    have pushed : Behind d₀ (d.square offset) (e.square offset) :=
      ⟨h.written.cons (.inl (by decide)), congrArg (offset :: ·) h.offsets,
        congrArg (Word.after · '[') h.word, h.lineStart⟩
    exact pushed.withLineStart _
  | plain ch =>
    have no_space : ch ≠ ' ' := by
      rintro rfl
      cases fits.2
    exact (h.push no_space).withLineStart _

end Draft.Behind

theorem behind_reduceFrom {c : Cursor} {d₀ d e : Draft} (h : Draft.Behind d₀ d e)
    (ends : d₀.written.head? = some ' ') : Draft.Behind d₀ (reduceFrom c d) (reduceFrom c e) := by
  fun_induction reduceFrom c d generalizing e with
  | case1 c d at_end =>
    rw [← h.lineStart, ← h.word] at at_end
    rwa [reduceFrom_end at_end]
  | case2 c d piece next hr ih =>
    have fits := (Piece.read?_spec hr).2
    rw [← h.lineStart, ← h.word] at hr
    rw [reduceFrom_step hr]
    exact ih (h.add ends fits)

/-- What is written afresh, without the space that it may start with, is what is written behind. -/
theorem Continues.reverse {front afresh behind : List Char} (h : Continues front afresh behind) :
    behind.reverse = front.reverse ++ afresh.reverse.drop (seam afresh.reverse) := by
  obtain ⟨later, lead, rfl, rfl, rfl | ⟨rfl, last⟩⟩ := h
  · simp [seam]
  · have none_here : seam later.reverse = 0 := by simp [seam, last]
    simp [none_here]

theorem Draft.moved_offsets (k : Nat) (earlier : List (Nat × Nat)) (d : Draft) :
    (d.moved k earlier).finish.squares.map Prod.snd =
      earlier.reverse.map Prod.snd ++ (d.finish.squares.map Prod.snd).map (· + k) := by
  simp only [Draft.finish, Draft.moved, List.reverse_append, List.map_append, ← List.map_reverse,
    List.map_map]
  rfl

variable {a b front : List Char} {d : Draft}

/-- What the whole reduces to, by the drafts behind its first part and of its second. -/
theorem ofSource_eq_moved (visits : Visits (front ++ '\n' :: b) ⟨byteLength front, '\n' :: b⟩ d) :
    Structural.ofSource (front ++ ['\n']) = (d.add .newline).finish ∧
      ∃ e, Draft.Behind { d.add .newline with squares := [] } (reduceFrom (.ofSource b) .empty) e ∧
        Structural.ofSource (front ++ '\n' :: b) =
          (e.moved (byteLength front + 1) (d.add .newline).squares).finish := by
  have ends : (d.add .newline).written.head? = some ' ' := by
    by_cases space : d.written.head? = some ' ' <;> simp [Draft.add, Draft.space, space]
  have afresh : Draft.Behind { d.add .newline with squares := [] } .empty
      { d.add .newline with squares := [] } := by
    refine .start ?_ rfl
    by_cases space : d.written.head? = some ' ' <;> simp [Draft.add, Draft.space, space]
  refine ⟨?_, _, behind_reduceFrom afresh ends, ?_⟩
  · -- the loop stands at the line break in the first part alone as well
    rw [(visits.exchange []).ofSource_eq, reduceFrom_step (Piece.read?_newline rfl)]
    exact congrArg Draft.finish (reduceFrom_end (Piece.read?_end rfl))
  · rw [visits.ofSource_eq, reduceFrom_step (Piece.read?_newline rfl)]
    exact congrArg Draft.finish (reduceFrom_skipSplices (byteLength front + 1) b _)

end Structural

variable {a b front : List Char} {d : Draft}

/-- **Lines compose.** Let a source fall into `a` and `b` behind a line break that the loop, in its run
on the whole, reads as one. Then the text of the whole is that of `a` and then that of `b` without the
space it may start with; its table is that of `a` and then that of `b`, moved behind it. -/
theorem ofSource_lines (line : a = front ++ ['\n'])
    (visits : Visits (a ++ b) ⟨byteLength front, '\n' :: b⟩ d) :
    Structural.ofSource (a ++ b) =
        (Structural.ofSource a).join (Structural.ofSource b) (byteLength a) ∧
      ∀ entry ∈ (Structural.ofSource b).squares, seam (Structural.ofSource b).text ≤ entry.1 := by
  subst line
  rw [List.append_assoc, List.singleton_append] at visits ⊢
  obtain ⟨first, e, behind, whole⟩ := ofSource_eq_moved visits
  refine ⟨?_, (tabled_ofSource b).seam_le⟩
  refine (tabled_ofSource _).ext ((tabled_ofSource _).join (tabled_ofSource b) _) ?_ ?_
  · rw [whole, join, first]
    exact behind.written.reverse
  · have afresh : e.finish.squares.map Prod.snd = (Structural.ofSource b).squares.map Prod.snd := by
      have same : e.squares.map Prod.snd = (reduceFrom (.ofSource b) .empty).squares.map Prod.snd := by
        simpa using behind.offsets
      rw [Structural.ofSource, Draft.finish, Draft.finish, List.map_reverse, List.map_reverse, same]
    have width : byteLength (front ++ ['\n']) = byteLength front + 1 := byteLength_append front ['\n']
    rw [whole, join_offsets, Draft.moved_offsets, ← afresh, first, width]
    rfl

theorem ofSource_lines_squares :
    Structural.ofSource ("[a]\n".toList ++ " [b]".toList) =
      ⟨"[a] [b]".toList, [(0, 0), (4, 5)]⟩ := by
  have visits : Visits ("[a]\n".toList ++ " [b]".toList)
      ⟨byteLength "[a]".toList, '\n' :: " [b]".toList⟩ ⟨"]a[".toList, 3, [(0, 0)], .none, false⟩ :=
    .cons rfl (.cons rfl (.cons rfl .refl))
  rw [(ofSource_lines (a := "[a]\n".toList) rfl visits).1]
  decide +kernel

end LambdaTally
