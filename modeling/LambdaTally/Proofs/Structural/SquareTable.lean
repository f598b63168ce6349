import LambdaTally.Proofs.Source.Reach
import LambdaTally.Structural

/-!
# LambdaTally.Proofs.Structural.SquareTable

The table beside a structural text. It lists every `[` of the text and nothing else, in order
(`Tabled`), whether the text is reduced from a source or taken as it stands. For a source, the
offsets of the table ascend as well, and each is the place of a `[` in the source.

A table in ascending order can be searched in any way: halving it finds what a search from the front finds
(`bisect?_eq_lookup`).
-/

namespace LambdaTally

open Utf8

/-- The character stands in the text behind `position` octets. -/
def StandsAt (ch : Char) (text : List Char) (position : Nat) : Prop :=
  ∃ before after, text = before ++ ch :: after ∧ position = byteLength before

theorem StandsAt.lt {ch : Char} {text : List Char} {position : Nat} (h : StandsAt ch text position) :
    position < byteLength text := by
  obtain ⟨before, after, rfl, rfl⟩ := h
  have := ch.utf8Size_pos
  rw [byteLength_append, byteLength_cons]
  omega

/-- The octets of a text where a character stands are its own. -/
theorem StandsAt.octet {ch : Char} {text : List Char} {position : Nat}
    (h : StandsAt ch text position) :
    (encode text)[position]? = (String.utf8EncodeChar ch)[0]? := by
  obtain ⟨before, after, rfl, rfl⟩ := h
  rw [encode_append, List.getElem?_append_right (by simp), length_encode, Nat.sub_self,
    encode_cons, List.getElem?_append_left]
  rw [String.length_utf8EncodeChar]
  exact ch.utf8Size_pos

theorem standsAt_iff_octet {ch : Char} {b : UInt8} (hb : b < 0x80)
    (hch : String.utf8EncodeChar ch = [b]) {text : List Char} {position : Nat} :
    StandsAt ch text position ↔ (encode text)[position]? = some b := by
  constructor
  · intro h
    rw [h.octet, hch]
    rfl
  · intro h
    obtain ⟨lt, here⟩ := List.getElem?_eq_some_iff.1 h
    have cut : encode text =
        (encode text).take position ++ b :: (encode text).drop (position + 1) := by
      rw [← here, List.getElem_cons_drop, List.take_append_drop]
    obtain ⟨before, after, whole, front, -⟩ := encode_cut_char ch cut hb hch
    refine ⟨before, after, whole, ?_⟩
    rw [← length_encode, front, List.length_take, Nat.min_eq_left (Nat.le_of_lt lt)]

theorem standsAt_square_iff {text : List Char} {position : Nat} :
    StandsAt '[' text position ↔ (encode text)[position]? = some 0x5B :=
  standsAt_iff_octet (by decide) rfl

namespace Structural

/-! ## The places of `[` in a text -/

theorem squarePositions_append (position : Nat) (a b : List Char) :
    squarePositions position (a ++ b) =
      squarePositions position a ++ squarePositions (position + byteLength a) b := by
  induction a generalizing position with
  | nil => rfl
  | cons ch a ih =>
    simp only [List.cons_append, squarePositions, byteLength_cons]
    rw [ih, Nat.add_assoc]
    split <;> rfl

theorem squarePositions_of_not_mem {text : List Char} (h : '[' ∉ text) (position : Nat) :
    squarePositions position text = [] := by
  induction text generalizing position with
  | nil => rfl
  | cons ch text ih =>
    rw [List.mem_cons, not_or] at h
    rw [squarePositions, if_neg (fun e => h.1 e.symm), ih h.2]

theorem length_squarePositions (position : Nat) (text : List Char) :
    (squarePositions position text).length = text.count '[' := by
  induction text generalizing position with
  | nil => rfl
  | cons ch text ih =>
    rw [squarePositions]
    split
    · rename_i h
      rw [List.length_cons, ih, h, List.count_cons_self]
    · rename_i h
      rw [ih, List.count_cons_of_ne h]

theorem mem_squarePositions {position p : Nat} {text : List Char} :
    p ∈ squarePositions position text ↔ ∃ k, StandsAt '[' text k ∧ p = position + k := by
  constructor
  · intro h
    induction text generalizing position with
    | nil => cases h
    | cons ch text ih =>
      have later : p ∈ squarePositions (position + ch.utf8Size) text →
          ∃ k, StandsAt '[' (ch :: text) k ∧ p = position + k := by
        intro h
        obtain ⟨k, ⟨before, after, rfl, rfl⟩, rfl⟩ := ih h
        exact ⟨_, ⟨ch :: before, after, rfl, rfl⟩, by rw [byteLength_cons]; omega⟩
      rw [squarePositions] at h
      split at h
      · rename_i hch
        rcases List.mem_cons.1 h with rfl | h
        · exact ⟨0, ⟨[], text, by rw [hch]; rfl, rfl⟩, rfl⟩
        · exact later h
      · exact later h
  · rintro ⟨k, ⟨before, after, rfl, rfl⟩, rfl⟩
    rw [squarePositions_append]
    simp [squarePositions]

theorem pairwise_squarePositions (position : Nat) (text : List Char) :
    (squarePositions position text).Pairwise (· < ·) := by
  induction text generalizing position with
  | nil => exact .nil
  | cons ch text ih =>
    rw [squarePositions]
    split
    · refine .cons ?_ (ih _)
      intro p hp
      obtain ⟨k, -, rfl⟩ := mem_squarePositions.1 hp
      have := ch.utf8Size_pos
      omega
    · exact ih _

/-! ## The table of a structural text -/

/-- The table lists every `[` of the text, in order. -/
def Tabled (s : Structural) : Prop := s.squares.map Prod.fst = squarePositions 0 s.text

theorem tabled_ofText (text : List Char) : (ofText text).Tabled := by
  unfold Tabled ofText
  rw [List.map_map]
  exact List.map_id _

/-! ## Looking up in a table -/

section Lookup

variable {table : List (Nat × Nat)}

theorem lookup_of_mem (h : (table.map Prod.fst).Pairwise (· < ·)) {position origin : Nat}
    (hm : (position, origin) ∈ table) : table.lookup position = some origin := by
  induction table with
  | nil => cases hm
  | cons entry table ih =>
    obtain ⟨first, ascending⟩ := List.pairwise_cons.1 h
    rcases List.mem_cons.1 hm with rfl | later
    · simp
    · have lt : entry.1 < position := first _ (List.mem_map_of_mem later)
      have ne : (position == entry.1) = false := by simpa using Nat.ne_of_gt lt
      rw [List.lookup_cons, ne]
      exact ih ascending later

theorem lookup_eq_some_iff (ascending : (table.map Prod.fst).Pairwise (· < ·)) {position origin : Nat} :
    table.lookup position = some origin ↔ (position, origin) ∈ table := by
  constructor
  · intro h
    obtain ⟨front, back, rfl, -⟩ := List.lookup_eq_some_iff.1 h
    simp
  · exact lookup_of_mem ascending

theorem lookup_eq_none {position : Nat} (absent : ∀ entry ∈ table, entry.1 ≠ position) :
    table.lookup position = none :=
  List.lookup_eq_none_iff.2 fun entry member => by simpa using (absent entry member).symm

/-- Looks a position up by halving the table. -/
def bisect? (table : List (Nat × Nat)) (position : Nat) : Option Nat :=
  match _h : table.drop (table.length / 2) with
  | [] => none
  | (middle, origin) :: behind =>
    if position = middle then some origin
    else if position < middle then bisect? (table.take (table.length / 2)) position
    else bisect? behind position
termination_by table.length
decreasing_by
  all_goals
    have := congrArg List.length _h
    simp only [List.length_drop, List.length_cons, List.length_take] at this ⊢
    omega

theorem ascending_sides {front behind : List (Nat × Nat)} {middle origin : Nat}
    (ascending : ((front ++ (middle, origin) :: behind).map Prod.fst).Pairwise (· < ·)) :
    (front.map Prod.fst).Pairwise (· < ·) ∧ (behind.map Prod.fst).Pairwise (· < ·) ∧
      (∀ entry ∈ front, entry.1 < middle) ∧ ∀ entry ∈ behind, middle < entry.1 := by
  rw [List.map_append, List.pairwise_append, List.map_cons, List.pairwise_cons] at ascending
  obtain ⟨before, ⟨first, after⟩, apart⟩ := ascending
  exact ⟨before, after, fun entry member => apart _ (List.mem_map_of_mem member) _ List.mem_cons_self,
    fun entry member => first _ (List.mem_map_of_mem member)⟩

/-- Only the entries on one side of the middle can be those of a position. -/
theorem lookup_around {front behind : List (Nat × Nat)} {middle origin : Nat}
    (ascending : ((front ++ (middle, origin) :: behind).map Prod.fst).Pairwise (· < ·)) (position : Nat) :
    (front ++ (middle, origin) :: behind).lookup position =
      if position = middle then some origin
      else if position < middle then front.lookup position else behind.lookup position := by
  obtain ⟨-, -, smaller, greater⟩ := ascending_sides ascending
  rw [List.lookup_append, List.lookup_cons]
  by_cases here : position = middle
  · subst here
    rw [lookup_eq_none fun entry member => Nat.ne_of_lt (smaller entry member)]
    simp
  · have other : (position == middle) = false := by simpa using here
    rw [other, if_neg here]
    dsimp only
    split
    · rename_i lt
      rw [lookup_eq_none fun entry member => Nat.ne_of_gt (Nat.lt_trans lt (greater entry member)),
        Option.or_none]
    · have beyond : middle < position := by omega
      rw [lookup_eq_none fun entry member => Nat.ne_of_lt (Nat.lt_trans (smaller entry member) beyond),
        Option.none_or]

/-- In an ascending table halving finds what is there. -/
theorem bisect?_eq_lookup (ascending : (table.map Prod.fst).Pairwise (· < ·)) (position : Nat) :
    bisect? table position = table.lookup position := by
  have halves (table : List (Nat × Nat)) {middle : Nat × Nat} {behind : List (Nat × Nat)}
      (h : table.drop (table.length / 2) = middle :: behind) :
      table.take (table.length / 2) ++ middle :: behind = table := by
    rw [← h, List.take_append_drop]
  fun_induction bisect? table position with
  | case1 table h =>
    have empty : table = [] := by
      have := congrArg List.length h
      simp only [List.length_drop, List.length_nil] at this
      exact List.length_eq_zero_iff.1 (by omega)
    rw [empty]
    rfl
  | case2 table origin behind h =>
    rw [← halves table h] at ascending ⊢
    rw [lookup_around ascending, if_pos rfl]
  | case3 table middle origin behind h ne lt ih =>
    have whole := halves table h
    rw [← whole] at ascending
    rw [ih (ascending_sides ascending).1, ← congrArg (List.lookup position) whole,
      lookup_around ascending, if_neg ne, if_pos lt]
  | case4 table middle origin behind h ne lt ih =>
    have whole := halves table h
    rw [← whole] at ascending
    rw [ih (ascending_sides ascending).2.1, ← congrArg (List.lookup position) whole,
      lookup_around ascending, if_neg ne, if_neg lt]

section Tabled

variable {text : List Char} (tabled : table.map Prod.fst = squarePositions 0 text)

include tabled

theorem pairwise_of_tabled : (table.map Prod.fst).Pairwise (· < ·) := by
  rw [tabled]
  exact pairwise_squarePositions 0 text

theorem mem_of_tabled {position : Nat} : position ∈ table.map Prod.fst ↔ StandsAt '[' text position := by
  rw [tabled, mem_squarePositions]
  simp

theorem isSome_lookup_of_tabled {position : Nat} :
    (table.lookup position).isSome ↔ StandsAt '[' text position := by
  rw [← mem_of_tabled tabled, Option.isSome_iff_exists, List.mem_map]
  simp [lookup_eq_some_iff (pairwise_of_tabled tabled)]

end Tabled
end Lookup

/-! ## Writing text and table together -/

namespace Draft

/-- The table of a draft lists every `[` written, and its length counts the octets written. -/
structure Tabled (d : Draft) : Prop where
  length_eq : d.length = byteLength d.written.reverse
  positions_eq : d.squares.reverse.map Prod.fst = squarePositions 0 d.written.reverse

theorem tabled_empty : Tabled empty := ⟨rfl, rfl⟩

/-- Writing a character that is no `[`. -/
theorem Tabled.write {d : Draft} (h : d.Tabled) {ch : Char} (hch : ch ≠ '[') (word : Word)
    (lineStart : Bool) :
    Tabled ⟨ch :: d.written, d.length + ch.utf8Size, d.squares, word, lineStart⟩ := by
  constructor
  · simp [h.length_eq, byteLength_append]
  · have none_here (position : Nat) : squarePositions position [ch] = [] :=
      squarePositions_of_not_mem (by simpa using hch.symm) position
    rw [List.reverse_cons, squarePositions_append, none_here, List.append_nil]
    exact h.positions_eq

theorem Tabled.push {d : Draft} (h : d.Tabled) {ch : Char} (hch : ch ≠ '[') : (d.push ch).Tabled :=
  h.write hch _ _

theorem Tabled.space {d : Draft} (h : d.Tabled) : d.space.Tabled := by
  unfold Draft.space
  split
  · exact ⟨h.length_eq, h.positions_eq⟩
  · exact h.write (by decide : ' ' ≠ '[') _ _

theorem Tabled.square {d : Draft} (h : d.Tabled) (offset : Nat) : (d.square offset).Tabled := by
  constructor
  · simp [Draft.square, Draft.push, h.length_eq, byteLength_append]
  · simp [Draft.square, Draft.push, squarePositions_append, h.positions_eq, h.length_eq,
      squarePositions]

theorem Tabled.lineStart {d : Draft} (h : d.Tabled) (b : Bool) :
    Tabled { d with lineStart := b } := ⟨h.length_eq, h.positions_eq⟩

theorem Tabled.add {d : Draft} (h : d.Tabled) {c : Cursor} {piece : Piece} (fits : piece.Fits c) :
    (d.add piece).Tabled := by
  cases piece with
  | newline => exact h.space.lineStart _
  | blank => exact h.space
  | blockComment => exact h.space
  | directive => exact h.lineStart _
  | lineComment => exact h.lineStart _
  | string => exact ((h.push (by decide)).push (by decide)).lineStart _
  | rawString => exact ((h.push (by decide)).push (by decide)).lineStart _
  | character => exact ((h.push (by decide)).push (by decide)).lineStart _
  | digitSeparator => exact (h.write (by decide : '\'' ≠ '[') _ _).lineStart _
  | square offset => exact (h.square offset).lineStart _
  | plain ch => exact (h.push fits.1).lineStart _

/-- A piece adds an entry to the table only if it is a square bracket. -/
theorem squares_add (d : Draft) (piece : Piece) :
    (∃ offset, piece = .square offset ∧ (d.add piece).squares = (d.length, offset) :: d.squares) ∨
      (d.add piece).squares = d.squares := by
  have hspace : d.space.squares = d.squares := by unfold space; split <;> rfl
  cases piece with
  | square offset => exact .inl ⟨offset, rfl, rfl⟩
  | newline => exact .inr hspace
  | blank => exact .inr hspace
  | blockComment => exact .inr hspace
  | _ => exact .inr rfl

/-- The table of a draft, written from the source up to a cursor: its offsets ascend, lie before the
cursor, and have a `[` in the source. -/
structure Traced (source : List Char) (c : Cursor) (d : Draft) : Prop where
  reached : (⟨0, source⟩ : Cursor).Reaches c
  stands : ∀ entry ∈ d.squares, StandsAt '[' source entry.2
  before : ∀ entry ∈ d.squares, entry.2 < c.offset
  ascending : d.squares.Pairwise fun later earlier => earlier.2 < later.2

theorem Traced.add {source : List Char} {c next : Cursor} {d : Draft} (h : d.Traced source c)
    {piece : Piece} (hr : Piece.read? c d.lineStart d.word = some (piece, next)) :
    (d.add piece).Traced source next := by
  obtain ⟨leads, fits⟩ := Piece.read?_spec hr
  have forward := leads.reaches
  have further := forward.offset_lt (Piece.read?_length_lt hr)
  rcases d.squares_add piece with ⟨offset, rfl, hs⟩ | hs
  · obtain ⟨rfl, rest, hrest⟩ := fits
    obtain ⟨taken, hsource, hoffset⟩ := h.reached
    have here : StandsAt '[' source c.offset :=
      ⟨taken, rest, by rw [← hrest]; exact hsource, by simpa using hoffset⟩
    refine ⟨h.reached.trans forward, ?_, ?_, ?_⟩ <;> rw [hs]
    · exact List.forall_mem_cons.2 ⟨here, h.stands⟩
    · exact List.forall_mem_cons.2 ⟨further, fun entry he => Nat.lt_trans (h.before entry he) further⟩
    · exact List.pairwise_cons.2 ⟨h.before, h.ascending⟩
  · refine ⟨h.reached.trans forward, ?_, ?_, ?_⟩ <;> rw [hs]
    · exact h.stands
    · exact fun entry he => Nat.lt_trans (h.before entry he) further
    · exact h.ascending

end Draft

theorem tabled_reduceFrom {c : Cursor} {d : Draft} (h : d.Tabled) : (reduceFrom c d).Tabled := by
  fun_induction reduceFrom c d with
  | case1 => exact h
  | case2 c d piece next hr ih => exact ih (h.add (Piece.read?_spec hr).2)

theorem traced_reduceFrom {source : List Char} {c : Cursor} {d : Draft} (h : d.Traced source c) :
    ∃ last, (reduceFrom c d).Traced source last := by
  fun_induction reduceFrom c d with
  | case1 c d => exact ⟨c, h⟩
  | case2 c d piece next hr ih => exact ih (h.add hr)

theorem tabled_ofSource (source : List Char) : (ofSource source).Tabled :=
  (tabled_reduceFrom Draft.tabled_empty).positions_eq

theorem traced_ofSource (source : List Char) :
    ∃ last, (reduceFrom (.ofSource source) .empty).Traced source last :=
  traced_reduceFrom ⟨Cursor.reaches_skipSplices 0 source, by simp [Draft.empty],
    by simp [Draft.empty], by simp [Draft.empty]⟩

theorem standsAt_of_mem_squares {source : List Char} {entry : Nat × Nat}
    (h : entry ∈ (ofSource source).squares) : StandsAt '[' source entry.2 := by
  obtain ⟨last, traced⟩ := traced_ofSource source
  exact traced.stands entry (List.mem_reverse.1 h)

theorem pairwise_offsets (source : List Char) :
    ((ofSource source).squares.map Prod.snd).Pairwise (· < ·) := by
  obtain ⟨last, traced⟩ := traced_ofSource source
  rw [List.pairwise_map]
  exact List.pairwise_reverse.2 traced.ascending

end Structural
end LambdaTally
