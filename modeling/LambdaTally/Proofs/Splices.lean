import LambdaTally.Proofs.Source.Logical
import LambdaTally.Proofs.Structural.Simulation
import LambdaTally.Proofs.Tally

/-!
# LambdaTally.Proofs.Splices

Where a source is joined over its line ends makes no difference. Two sources that deliver the same
logical characters reduce to the same text, and each bracket has in either table the offset where the
same logical character was written (`splices_transparent`).

Raw strings are kept out, because nothing is joined inside one: a splice there is part of the source
as it was written. So the sources may not hold `R"` side by side.
-/

namespace LambdaTally

open Structural Utf8 Cursor

/-! ## Reading side by side -/

/-- Two offsets at which the sources have the same logical character, this one. -/
def SameCharacter (source₁ source₂ : List Char) (ch : Char) (o₁ o₂ : Nat) : Prop :=
  ∃ k : Nat, (Cursor.ofSource source₁).deliveries[k]? = some (o₁, ch) ∧
    (Cursor.ofSource source₂).deliveries[k]? = some (o₂, ch)

/-- Places of the two sources with as many logical characters before them, and the same behind. -/
structure SamePlace (source₁ source₂ : List Char) (c₁ c₂ : Cursor) : Prop where
  before : ∃ front₁ front₂, (Cursor.ofSource source₁).deliveries = front₁ ++ c₁.deliveries ∧
    (Cursor.ofSource source₂).deliveries = front₂ ++ c₂.deliveries ∧ front₁.length = front₂.length
  behind : c₁.logical = c₂.logical
  no_raw₁ : ¬ ['R', '"'] <:+: c₁.rest
  no_raw₂ : ¬ ['R', '"'] <:+: c₂.rest

theorem Piece.skipRawString?_eq_none {c : Cursor} (h : ¬ ['R', '"'] <:+: c.rest) :
    Piece.skipRawString? c = none := by
  refine Option.map_eq_none_iff.2 ?_
  by_contra opened
  obtain ⟨n, length⟩ := Option.ne_none_iff_exists'.1 opened
  obtain ⟨e, -, raw, m, whole, opens, -⟩ := Literal.prefixedRawLength?_eq_some_iff.1 length
  obtain ⟨tail, rfl⟩ := Literal.exists_of_rawLength? opens
  exact h ⟨e, tail, by rw [whole]; simp⟩

namespace SamePlace

variable {source₁ source₂ : List Char} {c₁ c₂ d₁ : Cursor} {ch : Char}

theorem next_none (h : SamePlace source₁ source₂ c₁ c₂) (here : c₁.next? = none) :
    c₂.next? = none := by
  cases there : c₂.next? with
  | none => rfl
  | some r =>
    have behind := h.behind
    rw [logical_end here, logical_next there] at behind
    cases behind

theorem next (h : SamePlace source₁ source₂ c₁ c₂) (here : c₁.next? = some (ch, d₁)) :
    ∃ d₂, c₂.next? = some (ch, d₂) ∧ SamePlace source₁ source₂ d₁ d₂ := by
  have behind := h.behind
  rw [logical_next here] at behind
  cases there : c₂.next? with
  | none =>
    rw [logical_end there] at behind
    cases behind
  | some r =>
    obtain ⟨ch', d₂⟩ := r
    rw [logical_next there] at behind
    obtain ⟨rfl, after⟩ := List.cons.inj behind
    obtain ⟨front₁, front₂, whole₁, whole₂, length⟩ := h.before
    have no_raw {c d : Cursor} (reaches : c.Reaches d) (none_in : ¬ ['R', '"'] <:+: c.rest) :
        ¬ ['R', '"'] <:+: d.rest := by
      obtain ⟨taken, whole, -⟩ := reaches
      intro inside
      exact none_in (whole ▸ inside.trans (List.suffix_append taken d.rest).isInfix)
    refine ⟨d₂, rfl, ⟨front₁ ++ [(c₁.offset, ch)], front₂ ++ [(c₂.offset, ch)], ?_, ?_, ?_⟩, after,
      no_raw (reaches_next here) h.no_raw₁, no_raw (reaches_next there) h.no_raw₂⟩
    · rw [whole₁, deliveries_next here, List.append_assoc, List.singleton_append]
    · rw [whole₂, deliveries_next there, List.append_assoc, List.singleton_append]
    · simp [length]

/-- The next character of both, with its two offsets. -/
theorem sameCharacter (h : SamePlace source₁ source₂ c₁ c₂) (here : c₁.next? = some (ch, d₁)) :
    SameCharacter source₁ source₂ ch c₁.offset c₂.offset := by
  obtain ⟨d₂, there, -⟩ := h.next here
  obtain ⟨front₁, front₂, whole₁, whole₂, length⟩ := h.before
  refine ⟨front₁.length, ?_, ?_⟩
  · simp [whole₁, deliveries_next here]
  · simp [whole₂, length, deliveries_next there]

end SamePlace

/-- Two sources read by their logical characters. -/
def Simulation.logical (source₁ source₂ : List Char) : Simulation where
  alike := SamePlace source₁ source₂
  beyond _ := False
  returns := False
  offsets := SameCharacter source₁ source₂ '['
  abreast {c₁ c₂} h := by
    cases here : c₁.next? with
    | none => exact .ended here (h.next_none here)
    | some r =>
      obtain ⟨d₂, there, after⟩ := h.next here
      exact .same here there (.inl after)
  onward h _ := h
  raw h := by
    rw [Piece.skipRawString?_eq_none h.no_raw₁, Piece.skipRawString?_eq_none h.no_raw₂]
    exact .none
  square h here := h.sameCharacter here

/-- **Splices are transparent.** Two sources without `R"` that have the same logical characters have
the same structural text. Their tables list the same brackets, each at the offset that the same
logical character has in the source, and the sources have the same status and count. -/
theorem splices_transparent {source₁ source₂ : List Char} (no_raw₁ : ¬ ['R', '"'] <:+: source₁)
    (no_raw₂ : ¬ ['R', '"'] <:+: source₂)
    (same : (Cursor.ofSource source₁).logical = (Cursor.ofSource source₂).logical) :
    (Structural.ofSource source₁).text = (Structural.ofSource source₂).text ∧
      List.Forall₂ (SameSquare (SameCharacter source₁ source₂ '['))
        (Structural.ofSource source₁).squares (Structural.ofSource source₂).squares ∧
      ∀ sampling,
        (Outcome.ofSource sampling source₁).skipReason? =
            (Outcome.ofSource sampling source₂).skipReason? ∧
          (Outcome.ofSource sampling source₁).count? =
            (Outcome.ofSource sampling source₂).count? := by
  have inside (source : List Char) : (Cursor.ofSource source).rest <:+ source := by
    obtain ⟨taken, whole, -⟩ := reaches_ofSource source
    exact ⟨taken, whole.symm⟩
  have start : SamePlace source₁ source₂ (.ofSource source₁) (.ofSource source₂) :=
    ⟨⟨[], [], rfl, rfl, rfl⟩, same, fun h => no_raw₁ (h.trans (inside source₁).isInfix),
      fun h => no_raw₂ (h.trans (inside source₂).isInfix)⟩
  obtain ⟨text, squares⟩ :=
    (Simulation.logical source₁ source₂).ofSource (fun _ h => h) start nofun
  exact ⟨text, squares, Outcome.same_count text⟩

theorem splices_transparent_comment :
    (Structural.ofSource "/\\\n/[\n[]".toList).text =
        (Structural.ofSource "//\\\r\n[\n\\\n[]".toList).text ∧
      List.Forall₂ (SameSquare (SameCharacter "/\\\n/[\n[]".toList "//\\\r\n[\n\\\n[]".toList '['))
        [(1, 6)] [(1, 9)] := by
  have same : (Cursor.ofSource "/\\\n/[\n[]".toList).logical =
      (Cursor.ofSource "//\\\r\n[\n\\\n[]".toList).logical := by
    rw [logical_ofSource, logical_ofSource]
    decide
  obtain ⟨text, squares, -⟩ := splices_transparent (by decide) (by decide) same
  have first : (Structural.ofSource "/\\\n/[\n[]".toList).squares = [(1, 6)] := by decide +kernel
  have second : (Structural.ofSource "//\\\r\n[\n\\\n[]".toList).squares = [(1, 9)] := by
    decide +kernel
  rw [first, second] at squares
  exact ⟨text, squares⟩

end LambdaTally
