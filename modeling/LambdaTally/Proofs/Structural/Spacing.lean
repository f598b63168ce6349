import LambdaTally.Proofs.Source.Reach
import LambdaTally.Structural
import Mathlib.Data.List.Chain

/-!
# LambdaTally.Proofs.Structural.Spacing

The structural text of a source has no two blanks side by side: a draft writes a blank only where the
last character is none, and nothing but the space is ever written for one.
-/

namespace LambdaTally

open CharClass

/-- No blank of the text follows another. -/
def Spaced (text : List Char) : Prop :=
  text.IsChain fun a b => (isBlank a && isBlank b) = false

namespace Spaced

variable {text : List Char}

theorem nil : Spaced [] := List.isChain_nil

theorem cons {ch : Char} (h : Spaced text)
    (apart : ∀ next, text.head? = some next → isBlank next = true → isBlank ch = false) :
    Spaced (ch :: text) := by
  refine List.isChain_cons.2 ⟨?_, h⟩
  intro next hnext
  cases hb : isBlank next with
  | false => exact Bool.and_false _
  | true =>
    rw [apart next hnext hb]
    rfl

/-- A character that is no blank stands beside anything. -/
theorem cons_of_plain {ch : Char} (h : Spaced text) (plain : isBlank ch = false) :
    Spaced (ch :: text) := h.cons fun _ _ _ => plain

theorem tail {ch : Char} (h : Spaced (ch :: text)) : Spaced text := List.IsChain.tail h

theorem head?_tail {ch next : Char} (h : Spaced (ch :: text)) (blank : isBlank ch = true)
    (hnext : text.head? = some next) : isBlank next = false := by
  have apart := List.IsChain.rel_head? h hnext
  rwa [blank, Bool.true_and] at apart

theorem suffix {later : List Char} (h : Spaced text) (hs : later <:+ text) : Spaced later :=
  List.IsChain.suffix h hs

theorem reverse (h : Spaced text) : Spaced text.reverse := by
  refine List.isChain_reverse.2 (List.IsChain.imp ?_ h)
  intro a b apart
  rwa [Bool.and_comm]

end Spaced

namespace Structural

/-- A draft without two blanks side by side, that ends in a space if it ends in a blank. -/
structure Draft.Spaced (d : Draft) : Prop where
  spaced : LambdaTally.Spaced d.written
  single : ∀ ch, d.written.head? = some ch → isBlank ch = true → ch = ' '

namespace Draft.Spaced

variable {d : Draft}

theorem empty : Draft.empty.Spaced := ⟨.nil, by simp [Draft.empty]⟩

/-- Writing a character that is no blank. -/
theorem write (h : d.Spaced) {ch : Char} (plain : isBlank ch = false) (length : Nat)
    (squares : List (Nat × Nat)) (word : Word) (lineStart : Bool) :
    Draft.Spaced ⟨ch :: d.written, length, squares, word, lineStart⟩ := by
  refine ⟨h.spaced.cons_of_plain plain, ?_⟩
  rintro last ⟨⟩ blank
  rw [plain] at blank
  cases blank

theorem space (h : d.Spaced) : d.space.Spaced := by
  unfold Draft.space
  split
  · exact ⟨h.spaced, h.single⟩
  · rename_i no_space
    refine ⟨h.spaced.cons ?_, ?_⟩
    · intro last hlast blank
      rw [h.single last hlast blank] at hlast
      exact absurd hlast no_space
    · rintro last ⟨⟩ -
      rfl

theorem add (h : d.Spaced) {c : Cursor} {piece : Piece} (fits : piece.Fits c) :
    (d.add piece).Spaced := by
  have lineStart {e : Draft} (he : e.Spaced) (b : Bool) : Draft.Spaced { e with lineStart := b } :=
    ⟨he.spaced, he.single⟩
  have pushed {e : Draft} (he : e.Spaced) {ch : Char} (plain : isBlank ch = false) :
      (e.push ch).Spaced := he.write plain _ _ _ _
  cases piece with
  | newline => exact lineStart h.space _
  | blank => exact h.space
  | blockComment => exact h.space
  | directive => exact lineStart h _
  | lineComment => exact lineStart h _
  | string => exact lineStart (pushed (pushed h (by decide)) (by decide)) _
  | rawString => exact lineStart (pushed (pushed h (by decide)) (by decide)) _
  | character => exact lineStart (pushed (pushed h (by decide)) (by decide)) _
  | digitSeparator => exact h.write (by decide : isBlank '\'' = false) _ _ _ _
  | square offset => exact h.write (by decide : isBlank '[' = false) _ _ _ _
  | plain ch => exact lineStart (pushed h fits.2) _

end Draft.Spaced

theorem spaced_reduceFrom {c : Cursor} {d : Draft} (h : d.Spaced) : (reduceFrom c d).Spaced := by
  fun_induction reduceFrom c d with
  | case1 => exact h
  | case2 c d piece next hr ih => exact ih (h.add (Piece.read?_spec hr).2)

theorem spaced_ofSource (source : List Char) : LambdaTally.Spaced (ofSource source).text :=
  (spaced_reduceFrom Draft.Spaced.empty).spaced.reverse

end Structural
end LambdaTally
