import LambdaTally.Proofs.Source.Opaque
import LambdaTally.Proofs.Structural.Steps
import Mathlib.Data.List.Forall2

/-!
# LambdaTally.Proofs.Opacity

What stands inside a comment or a literal has no influence on the structural text. Two sources that
differ in one such token only reduce to the same text, with the same brackets: those before the token
at the same offsets, those behind it moved by the difference of the tokens' lengths (`opacity`).

The past of the two runs is the same because the loop stands right in front of the token, and has read
there what the text before it reduces to (`Visits.past`). The token is one piece (`Opaque.read?_eq`)
and leaves the same in the draft. From there on the two sources are the same text at different offsets
(`reduceFrom_within`).
-/

namespace LambdaTally

open Structural Utf8 Cursor

/-- Entries for one bracket of the text: before a token of either source, or behind it. -/
def SameBracket (front token₁ token₂ : List Char) (entry₁ entry₂ : Nat × Nat) : Prop :=
  entry₁.1 = entry₂.1 ∧
    (entry₁.2 < byteLength front ∧ entry₂.2 = entry₁.2 ∨
      byteLength front + byteLength token₁ ≤ entry₁.2 ∧
        entry₂.2 + byteLength token₁ = entry₁.2 + byteLength token₂)

namespace Piece.Opaque

variable {kind : Piece} {token front rest : List Char} {c : Cursor} {d : Draft}

theorem sealed (h : Opaque kind token) (front rest : List Char) : Sealed front (token ++ rest) := by
  -- every token starts with a character that takes part in no splice
  obtain ⟨ch, more, rfl, plain⟩ : ∃ ch more, token = ch :: more ∧
      ch ≠ '\\' ∧ ch ≠ '\n' ∧ ch ≠ '\r' := by
    cases h with
    | blockComment => exact ⟨'/', _, rfl, by decide⟩
    | lineComment => exact ⟨'/', _, rfl, by decide⟩
    | string => exact ⟨'"', _, rfl, by decide⟩
    | rawString raw =>
      obtain ⟨ch, more, rfl, letter⟩ := exists_of_rawString raw
      refine ⟨ch, more, rfl, ?_, ?_, ?_⟩ <;>
        · rintro rfl
          exact absurd letter (by decide)
    | character => exact ⟨'\'', _, rfl, by decide⟩
    | escape => exact ⟨'\'', _, rfl, by decide⟩
  exact .of_head front plain (more ++ rest)

theorem squares_add (h : Opaque kind token) (d : Draft) : (d.add kind).squares = d.squares := by
  rcases d.squares_add kind with ⟨offset, rfl, -⟩ | same
  · cases h
  · exact same

/-- What a source with a token reduces to: the draft in front of it, and what the rest reduces to
behind a piece of this kind, with its brackets moved by all that stands before. -/
theorem ofSource_eq (h : Opaque kind token)
    (ends : kind = .lineComment → rest = [] ∨ rest.head? = some '\n')
    (visits : Visits (front ++ (token ++ rest)) c d) (here : c.offset = byteLength front)
    (no_word : d.word = .none) :
    Structural.ofSource (front ++ (token ++ rest)) =
      ((reduceFrom (skipSplices 0 rest) { d.add kind with squares := [] }).moved
        (byteLength front + byteLength token) d.squares).finish := by
  obtain ⟨rfl, -⟩ := visits.past here (h.sealed front rest)
  have read := h.read?_eq rest ends (byteLength front) d.lineStart
  rw [← no_word] at read
  rw [visits.ofSource_eq, reduceFrom_step read, reduceFrom_skipSplices, h.squares_add]

end Piece.Opaque

variable {token₁ token₂ : List Char} {kind : Piece} {c₁ c₂ : Cursor} {d₁ d₂ : Draft}

theorem opacity (front rest : List Char) (written₁ : Piece.Opaque kind token₁)
    (written₂ : Piece.Opaque kind token₂)
    (ends : kind = .lineComment → rest = [] ∨ rest.head? = some '\n')
    (visits₁ : Visits (front ++ token₁ ++ rest) c₁ d₁) (here₁ : c₁.offset = byteLength front)
    (no_word₁ : d₁.word = .none)
    (visits₂ : Visits (front ++ token₂ ++ rest) c₂ d₂) (here₂ : c₂.offset = byteLength front)
    (no_word₂ : d₂.word = .none) :
    (Structural.ofSource (front ++ token₁ ++ rest)).text =
        (Structural.ofSource (front ++ token₂ ++ rest)).text ∧
      List.Forall₂ (SameBracket front token₁ token₂)
        (Structural.ofSource (front ++ token₁ ++ rest)).squares
        (Structural.ofSource (front ++ token₂ ++ rest)).squares := by
  rw [List.append_assoc] at visits₁ visits₂ ⊢
  rw [List.append_assoc]
  have before := visits₁.before
  rw [here₁] at before
  obtain ⟨-, past₁⟩ := visits₁.past here₁ (written₁.sealed front rest)
  obtain ⟨-, past₂⟩ := visits₂.past here₂ (written₂.sealed front rest)
  rw [written₁.ofSource_eq ends visits₁ here₁ no_word₁,
    written₂.ofSource_eq ends visits₂ here₂ no_word₂, past₂, ← past₁]
  generalize reduceFrom (skipSplices 0 rest) { d₁.add kind with squares := [] } = later
  refine ⟨rfl, ?_⟩
  simp only [Draft.finish, Draft.moved, List.reverse_append, ← List.map_reverse]
  refine List.rel_append ?_ ?_
  · refine List.forall₂_same.2 fun entry member => ⟨rfl, .inl ⟨?_, rfl⟩⟩
    exact before entry (List.mem_reverse.1 member)
  · rw [List.forall₂_map_left_iff, List.forall₂_map_right_iff, List.forall₂_same]
    intro entry _
    refine ⟨rfl, .inr ?_⟩
    simp only [Structural.moved]
    omega

theorem opacity_string :
    (Structural.ofSource "a[\"[\"]b[0]".toList).text =
        (Structural.ofSource "a[\"\"]b[0]".toList).text ∧
      List.Forall₂ (SameBracket "a[".toList "\"[\"".toList "\"\"".toList)
        (Structural.ofSource "a[\"[\"]b[0]".toList).squares
        (Structural.ofSource "a[\"\"]b[0]".toList).squares := by
  have written₁ : Piece.Opaque .string "\"[\"".toList :=
    .string (.plain (by decide : '[' ≠ '"') (by decide) (by decide) .nil)
  have written₂ : Piece.Opaque .string "\"\"".toList := .string .nil
  have visits₁ : Visits "a[\"[\"]b[0]".toList ⟨2, "\"[\"]b[0]".toList⟩
      ⟨"[a".toList, 2, [(1, 1)], .none, false⟩ := .cons rfl (.cons rfl .refl)
  have visits₂ : Visits "a[\"\"]b[0]".toList ⟨2, "\"\"]b[0]".toList⟩
      ⟨"[a".toList, 2, [(1, 1)], .none, false⟩ := .cons rfl (.cons rfl .refl)
  exact opacity "a[".toList "]b[0]".toList written₁ written₂ (by decide) visits₁ rfl rfl visits₂ rfl
    rfl

end LambdaTally
