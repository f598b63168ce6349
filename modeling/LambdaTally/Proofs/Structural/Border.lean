import LambdaTally.Proofs.Source.Locality
import LambdaTally.Proofs.Structural.Simulation

/-!
# LambdaTally.Proofs.Structural.Border

A line break that the loop reads as one. Where the loop stands at a line break of a source, no splice
reaches over it (`sealed_of_leads`), and the loop stands there with the same draft whatever follows the
line break (`Visits.exchange`): nothing that it has read looks past it.
-/

namespace LambdaTally

open Structural Utf8

namespace Cursor

variable {c d : Cursor} {chars : List Char}

/-! ## Arriving at a place -/

theorem startsSplice_skipSplices (offset : Nat) (rest : List Char) :
    startsSplice (skipSplices offset rest).rest = false := by
  fun_induction skipSplices offset rest with
  | case1 offset rest ih => exact ih
  | case2 offset rest ih => exact ih
  | case3 offset rest no_break no_return =>
    rw [Bool.eq_false_iff, Ne, startsSplice_iff]
    rintro (⟨more, rfl⟩ | ⟨more, rfl⟩)
    · exact no_break _ rfl
    · exact no_return _ rfl

/-- The splices passed are nothing, or end in a line break. -/
theorem skipSplices_taken (offset : Nat) (rest : List Char) :
    ∃ taken, rest = taken ++ (skipSplices offset rest).rest ∧
      (taken = [] ∨ ∃ front, taken = front ++ ['\n']) := by
  fun_induction skipSplices offset rest with
  | case1 offset rest ih =>
    obtain ⟨taken, whole, last⟩ := ih
    refine ⟨'\\' :: '\n' :: taken, congrArg _ (congrArg _ whole), .inr ?_⟩
    rcases last with rfl | ⟨front, rfl⟩
    · exact ⟨['\\'], rfl⟩
    · exact ⟨'\\' :: '\n' :: front, rfl⟩
  | case2 offset rest ih =>
    obtain ⟨taken, whole, last⟩ := ih
    refine ⟨'\\' :: '\r' :: '\n' :: taken, congrArg _ (congrArg _ (congrArg _ whole)), .inr ?_⟩
    rcases last with rfl | ⟨front, rfl⟩
    · exact ⟨['\\', '\r'], rfl⟩
    · exact ⟨'\\' :: '\r' :: '\n' :: front, rfl⟩
  | case3 => exact ⟨[], rfl, .inl rfl⟩

theorem Reads.last (h : c.Reads chars d) :
    c = d ∨ ∃ e ch, c.Leads e ∧ e.next? = some (ch, d) := by
  induction h with
  | nil => exact .inl rfl
  | @cons c x d ch chars next later ih =>
    rcases ih with rfl | ⟨e, ch', leads, last⟩
    · exact .inr ⟨c, ch, .refl c, next⟩
    · exact .inr ⟨e, ch', (Leads.next next).trans leads, last⟩

variable {source front : List Char}

theorem startsSplice_of_leads (h : (ofSource source).Leads c) : startsSplice c.rest = false := by
  obtain ⟨chars, reads⟩ := h
  rcases reads.last with rfl | ⟨e, ch, -, last⟩
  · exact startsSplice_skipSplices 0 source
  · obtain ⟨more, -, rfl⟩ := next?_eq_some_iff.1 last
    exact startsSplice_skipSplices _ more

/-- What stands right before a place: nothing, a splice, or a character at which the reading stood. -/
theorem before_of_leads (h : (ofSource source).Leads c) (whole : source = front ++ c.rest) :
    front = [] ∨ (∃ more, front = more ++ ['\n']) ∨
      ∃ more ch e, front = more ++ [ch] ∧ (ofSource source).Leads e ∧ e.rest = ch :: c.rest := by
  obtain ⟨chars, reads⟩ := h
  rcases reads.last with rfl | ⟨e, ch, leads, last⟩
  · obtain ⟨taken, split, ends⟩ := skipSplices_taken 0 source
    obtain rfl : front = taken := List.append_cancel_right (whole.symm.trans split)
    exact ends.imp_right .inl
  · obtain ⟨more, here, rfl⟩ := next?_eq_some_iff.1 last
    obtain ⟨before, reached, -⟩ := (reaches_ofSource source).trans leads.reaches
    have reached : source = before ++ e.rest := reached
    obtain ⟨taken, split, ends⟩ := skipSplices_taken (e.offset + ch.utf8Size) more
    have same : front = before ++ [ch] ++ taken := by
      refine List.append_cancel_right (whole.symm.trans (reached.trans ?_))
      rw [here]
      exact (congrArg (fun behind => before ++ ch :: behind) split).trans (by simp)
    rcases ends with rfl | ⟨more', rfl⟩
    · rw [List.append_nil] at same
      rw [List.nil_append] at split
      exact .inr (.inr ⟨before, ch, e, same, leads, here.trans (congrArg _ split)⟩)
    · exact .inr (.inl ⟨before ++ [ch] ++ more', by simpa using same⟩)

/-- A splice over a line break would have its backslash, or its return as well, before it. -/
theorem sealed_newline_iff (text behind : List Char) :
    Sealed text ('\n' :: behind) ↔ ¬ ['\\'] <:+ text ∧ ¬ ['\\', '\r'] <:+ text := by
  constructor
  · intro sealed
    constructor
    · intro slash
      cases sealed _ slash rfl
    · intro returned
      cases sealed _ returned rfl
  · rintro ⟨no_slash, no_return⟩
    exact .of_apart (.of_ends no_slash no_return _) rfl

theorem Sealed.exchange {text b₁ : List Char} (h : Sealed text ('\n' :: b₁)) (b₂ : List Char) :
    Sealed text ('\n' :: b₂) :=
  (sealed_newline_iff text b₂).2 ((sealed_newline_iff text b₁).1 h)

theorem sealed_of_leads {behind : List Char} (h : (ofSource source).Leads c)
    (newline : c.rest = '\n' :: behind) (whole : source = front ++ c.rest) :
    Sealed front ('\n' :: behind) := by
  refine (sealed_newline_iff front behind).2 ⟨?_, ?_⟩
  · rintro ⟨more, rfl⟩
    rcases before_of_leads h whole with empty | ⟨more', last⟩ | ⟨more', ch, e, last, leads, here⟩
    · simp at empty
    · cases (List.append_inj' last rfl).2
    · obtain rfl : '\\' = ch := by simpa using (List.append_inj' last rfl).2
      have plain := startsSplice_of_leads leads
      rw [here, newline] at plain
      cases plain
  · -- the return was read before the line break, and the backslash before the return
    rintro ⟨more, rfl⟩
    have split : more ++ ['\\', '\r'] = (more ++ ['\\']) ++ ['\r'] := by simp
    rw [split] at whole
    rcases before_of_leads h whole with empty | ⟨more', last⟩ | ⟨more', ch, e, last, leads, here⟩
    · simp at empty
    · cases (List.append_inj' last rfl).2
    · obtain rfl : '\r' = ch := by simpa using (List.append_inj' last rfl).2
      have whole' : source = (more ++ ['\\']) ++ e.rest := by
        rw [whole, here]
        simp
      rcases before_of_leads leads whole' with empty | ⟨_, last⟩ | ⟨_, ch, x, last, leads', here'⟩
      · simp at empty
      · cases (List.append_inj' last rfl).2
      · obtain rfl : '\\' = ch := by simpa using (List.append_inj' last rfl).2
        have plain := startsSplice_of_leads leads'
        rw [here', here, newline] at plain
        cases plain

end Cursor

namespace Structural

open Cursor

/-! ## Another text behind the line break -/

/-- The same place in two sources that part behind a line break. -/
def SameFront (b₁ b₂ : List Char) (c₁ c₂ : Cursor) : Prop :=
  ∃ c : Cursor, c₁ = c.within 0 ('\n' :: b₁) ∧ c₂ = c.within 0 ('\n' :: b₂) ∧
    Sealed c.rest ('\n' :: b₁)

namespace SameFront

variable {b₁ b₂ : List Char} {c : Cursor}

theorem abreast {c₁ c₂ : Cursor} (h : SameFront b₁ b₂ c₁ c₂) :
    Abreast (SameFront b₁ b₂) (fun c => c.rest.length ≤ b₁.length) False c₁ c₂ := by
  obtain ⟨c, rfl, rfl, border⟩ := h
  cases here : c.next? with
  | none =>
    have empty := rest_eq_nil here
    have first : (c.within 0 ('\n' :: b₁)).next? = some ('\n', skipSplices (c.offset + 0 + 1) b₁) :=
      next?_eq_some_iff.2 ⟨b₁, by simp [within, empty], rfl⟩
    have second : (c.within 0 ('\n' :: b₂)).next? = some ('\n', skipSplices (c.offset + 0 + 1) b₂) :=
      next?_eq_some_iff.2 ⟨b₂, by simp [within, empty], rfl⟩
    exact .same first second (.inr ⟨rfl, skipSplices_length_le _ b₁⟩)
  | some r =>
    obtain ⟨ch, d⟩ := r
    exact .same (next?_within 0 border here) (next?_within 0 (border.exchange b₂) here)
      (.inl ⟨d, rfl, rfl, border.reaches (reaches_next here)⟩)

theorem raw {c₁ c₂ : Cursor} (h : SameFront b₁ b₂ c₁ c₂) :
    Option.Rel (fun d₁ d₂ => SameFront b₁ b₂ d₁ d₂ ∨ d₁.rest.length ≤ b₁.length)
      (Piece.skipRawString? c₁) (Piece.skipRawString? c₂) := by
  obtain ⟨c, rfl, rfl, border⟩ := h
  have other {b : List Char} {n : Nat}
      (opened : Literal.prefixedRawLength? (c.rest ++ '\n' :: b) = some n) (b' : List Char) :
      ∃ m, Literal.prefixedRawLength? (c.rest ++ '\n' :: b') = some m := by
    obtain ⟨m, alone⟩ := Literal.exists_prefixedRawLength?_of_newline opened
    exact Literal.exists_prefixedRawLength?_append alone ('\n' :: b')
  have read (b : List Char) : Piece.skipRawString? (c.within 0 ('\n' :: b)) =
      (Literal.prefixedRawLength? (c.rest ++ '\n' :: b)).map (c.within 0 ('\n' :: b)).jump := rfl
  rw [read, read]
  cases first : Literal.prefixedRawLength? (c.rest ++ '\n' :: b₁) with
  | none =>
    cases second : Literal.prefixedRawLength? (c.rest ++ '\n' :: b₂) with
    | none => exact .none
    | some m =>
      obtain ⟨n, opened⟩ := other second b₁
      rw [first] at opened
      cases opened
  | some n =>
    obtain ⟨m, second⟩ := other first b₂
    obtain ⟨taken, rest, whole, rfl, -⟩ := Literal.prefixedRawLength?_boundary first
    rw [second]
    refine .some ?_
    rcases Nat.lt_or_ge b₁.length rest.length with inside | past
    · -- it closes in front of the line break, where the two sources are still the same
      obtain ⟨more, rfl⟩ := List.suffix_of_suffix_length_le ⟨c.rest, rfl⟩ ⟨taken, whole.symm⟩
        (by simp only [List.length_cons]; omega)
      have split : c.rest = taken ++ more := List.append_cancel_right (by simpa using whole)
      rw [whole] at first
      have same := Literal.prefixedRawLength?_append first (by simp) (more ++ '\n' :: b₂)
      rw [split, List.append_assoc, same] at second
      cases second
      have reached : c.Reaches (c.jump (byteLength taken)) := by
        rw [jump, split, dropOctets_byteLength]
        exact .trans ⟨taken, split, rfl⟩ (reaches_skipSplices _ more)
      exact .inl ⟨c.jump (byteLength taken), Piece.jump_within split border 0,
        Piece.jump_within split (border.exchange b₂) 0, border.reaches reached⟩
    · -- it takes in the line break, so the first source is beyond what corresponds
      right
      have place : (c.within 0 ('\n' :: b₁)).rest = taken ++ rest := whole
      rw [jump, place, dropOctets_byteLength]
      exact Nat.le_trans (skipSplices_length_le _ rest) past

/-- Two sources that part behind a line break, read up to it. -/
def simulation (b₁ b₂ : List Char) : Simulation where
  alike := SameFront b₁ b₂
  beyond c := c.rest.length ≤ b₁.length
  returns := False
  offsets := Eq
  abreast := abreast
  onward {c d} h leads := by
    obtain ⟨taken, whole, -⟩ := leads.reaches
    rw [whole, List.length_append] at h
    omega
  raw := raw
  square h _ := by
    obtain ⟨c, rfl, rfl, -⟩ := h
    rfl

end SameFront

variable {front b₁ : List Char} {d : Draft}

/-- Where the loop stands at a line break, it stands there whatever follows. -/
theorem Visits.exchange (h : Visits (front ++ '\n' :: b₁) ⟨byteLength front, '\n' :: b₁⟩ d)
    (b₂ : List Char) : Visits (front ++ '\n' :: b₂) ⟨byteLength front, '\n' :: b₂⟩ d := by
  have border : Sealed front ('\n' :: b₁) := sealed_of_leads (Steps.leads h) rfl rfl
  have start : SameFront b₁ b₂ (.ofSource (front ++ '\n' :: b₁)) (.ofSource (front ++ '\n' :: b₂)) :=
    ⟨.ofSource front, ofSource_within border, ofSource_within (border.exchange b₂),
      sealed_ofSource border⟩
  rcases (SameFront.simulation b₁ b₂).run h start (.intro .nil) nofun with
    beyond | ⟨_, f, steps, ⟨c, here, rfl, -⟩, drafts⟩
  · exact absurd beyond (by simp [SameFront.simulation])
  · rw [← drafts.eq] at steps
    have place : c = ⟨byteLength front, []⟩ := by
      obtain ⟨offset, rest⟩ := c
      simp only [Cursor.within, Cursor.mk.injEq] at here
      obtain ⟨rfl, split⟩ := here
      have empty : rest = [] := by simpa using split
      rw [empty]
    rw [place] at steps
    exact steps

end Structural
end LambdaTally
