import LambdaTally.Proofs.Source.Simulation
import LambdaTally.Proofs.Structural.Steps
import Mathlib.Data.List.Forall2

/-!
# LambdaTally.Proofs.Structural.Simulation

The loop on two sources read side by side. From related places and drafts a step on the one source is
answered by a step on the other, or by two where a carriage return stands before a line break
(`Simulation.step`), and so is a run (`Simulation.run`). Two sources that are related from start to end
reduce to the same text, with the same brackets at related offsets (`Simulation.ofSource`).
-/

namespace LambdaTally
namespace Structural

/-- The entries of one bracket of the text in two tables. -/
def SameSquare (offsets : Nat → Nat → Prop) (entry₁ entry₂ : Nat × Nat) : Prop :=
  entry₁.1 = entry₂.1 ∧ offsets entry₁.2 entry₂.2

/-- Drafts that differ in the offsets of their brackets only. -/
inductive Draft.Alike (offsets : Nat → Nat → Prop) : Draft → Draft → Prop where
  | intro {written : List Char} {length : Nat} {squares₁ squares₂ : List (Nat × Nat)} {word : Word}
      {lineStart : Bool} : List.Forall₂ (SameSquare offsets) squares₁ squares₂ →
      Alike offsets ⟨written, length, squares₁, word, lineStart⟩
        ⟨written, length, squares₂, word, lineStart⟩

namespace Draft.Alike

variable {offsets : Nat → Nat → Prop} {d₁ d₂ : Draft} {p₁ p₂ : Piece}

theorem refl (reflexive : ∀ o, offsets o o) (d : Draft) : Alike offsets d d :=
  .intro (List.forall₂_same.2 fun entry _ => ⟨rfl, reflexive entry.2⟩)

theorem push (h : Alike offsets d₁ d₂) (ch : Char) : Alike offsets (d₁.push ch) (d₂.push ch) := by
  cases h with
  | intro squares => exact .intro squares

theorem space (h : Alike offsets d₁ d₂) : Alike offsets d₁.space d₂.space := by
  cases h with
  | intro squares =>
    unfold Draft.space
    split <;> exact .intro squares

theorem square {o₁ o₂ : Nat} (h : Alike offsets d₁ d₂) (same : offsets o₁ o₂) :
    Alike offsets (d₁.square o₁) (d₂.square o₂) := by
  cases h with
  | intro squares => exact .intro (.cons ⟨rfl, same⟩ squares)

theorem lineStart (h : Alike offsets d₁ d₂) (b : Bool) :
    Alike offsets { d₁ with lineStart := b } { d₂ with lineStart := b } := by
  cases h with
  | intro squares => exact .intro squares

theorem add (h : Alike offsets d₁ d₂) (same : Piece.Alike offsets p₁ p₂) :
    Alike offsets (d₁.add p₁) (d₂.add p₂) := by
  cases same with
  | square offset => exact (h.square offset).lineStart _
  | other no_square =>
    cases p₁ with
    | newline => exact h.space.lineStart _
    | blank => exact h.space
    | blockComment => exact h.space
    | directive => exact h.lineStart _
    | lineComment => exact h.lineStart _
    | string => exact ((h.push _).push _).lineStart _
    | rawString => exact ((h.push _).push _).lineStart _
    | character => exact ((h.push _).push _).lineStart _
    | digitSeparator =>
      cases h with
      | intro squares => exact .intro squares
    | square offset => exact absurd rfl (no_square offset)
    | plain ch => exact (h.push ch).lineStart _

theorem lineStart_eq (h : Alike offsets d₁ d₂) : d₁.lineStart = d₂.lineStart := by
  cases h with
  | intro => rfl

theorem word_eq (h : Alike offsets d₁ d₂) : d₁.word = d₂.word := by
  cases h with
  | intro => rfl

theorem eq (h : Alike Eq d₁ d₂) : d₁ = d₂ := by
  cases h with
  | intro squares =>
    have same : ∀ {l₁ l₂ : List (Nat × Nat)}, List.Forall₂ (SameSquare Eq) l₁ l₂ → l₁ = l₂ :=
      fun h => List.forall₂_eq_eq_eq ▸ h.imp fun _ _ same => Prod.ext same.1 same.2
    rw [same squares]

/-- The structural texts of such drafts are the same, with the same brackets. -/
theorem finish (h : Alike offsets d₁ d₂) : d₁.finish.text = d₂.finish.text ∧
    List.Forall₂ (SameSquare offsets) d₁.finish.squares d₂.finish.squares := by
  cases h with
  | intro squares => exact ⟨rfl, List.rel_reverse squares⟩

end Draft.Alike

/-- A blank before a line break leaves nothing of its own. -/
theorem add_blank_newline (d : Draft) : (d.add .blank).add .newline = d.add .newline := by
  by_cases ends : d.written.head? = some ' ' <;> simp [Draft.add, Draft.space, ends]

theorem exists_steps (c : Cursor) (d : Draft) :
    ∃ e, Steps c d e (reduceFrom c d) ∧
      Piece.read? e (reduceFrom c d).lineStart (reduceFrom c d).word = none := by
  fun_induction reduceFrom c d with
  | case1 c d at_end => exact ⟨c, .refl, at_end⟩
  | case2 c d piece next hr ih =>
    obtain ⟨e, steps, at_end⟩ := ih
    exact ⟨e, .cons hr steps, at_end⟩

end Structural

namespace Simulation

open Structural

variable {m : Simulation} {c₁ c₂ e₁ : Cursor} {d₁ d₂ f₁ : Draft} {piece : Piece}

/-- A step on the one source is answered on the other, or leaves what corresponds to it. -/
theorem step (h : m.alike c₁ c₂) (drafts : Draft.Alike m.offsets d₁ d₂)
    (stays : m.returns → Piece.StaysOnLine c₁ d₁.lineStart d₁.word)
    (hr : Piece.read? c₁ d₁.lineStart d₁.word = some (piece, e₁)) :
    m.beyond e₁ ∨ ∃ e₂ f₂, Steps c₂ d₂ e₂ f₂ ∧ m.alike e₁ e₂ ∧
      Draft.Alike m.offsets (d₁.add piece) f₂ := by
  cases m.reading h stays with
  | ended here =>
    rw [hr] at here
    cases here
  | @same r₁ r₂ here there both =>
    rw [hr] at here
    cases here
    rw [drafts.lineStart_eq, drafts.word_eq] at there
    rcases both with ⟨pieces, behind | beyond⟩
    · exact .inr ⟨r₂.2, _, .single there, behind, drafts.add pieces⟩
    · exact .inl beyond
  | @returned d₁' x e₂ here there newline behind =>
    rw [hr] at here
    cases here
    rw [drafts.lineStart_eq, drafts.word_eq] at there
    refine .inr ⟨e₂, _, .cons there (.single (Piece.read?_newline newline)), behind, ?_⟩
    rw [add_blank_newline]
    exact drafts.add (.other nofun)

theorem run (steps : Steps c₁ d₁ e₁ f₁) (h : m.alike c₁ c₂) (drafts : Draft.Alike m.offsets d₁ d₂)
    (stays : m.returns → ∀ c d, Steps c₁ d₁ c d → Piece.StaysOnLine c d.lineStart d.word) :
    m.beyond e₁ ∨ ∃ e₂ f₂, Steps c₂ d₂ e₂ f₂ ∧ m.alike e₁ e₂ ∧ Draft.Alike m.offsets f₁ f₂ := by
  induction steps generalizing c₂ d₂ with
  | refl => exact .inr ⟨c₂, d₂, .refl, h, drafts⟩
  | cons hr later ih =>
    rcases m.step h drafts (fun returns => stays returns _ _ .refl) hr with
      beyond | ⟨x, y, first, behind, drafts'⟩
    · exact .inl (m.onward beyond later.leads)
    · rcases ih behind drafts' (fun returns c d steps => stays returns c d (.cons hr steps)) with
        beyond | ⟨e₂, f₂, rest, last⟩
      · exact .inl beyond
      · exact .inr ⟨e₂, f₂, first.trans rest, last⟩

theorem reduceFrom_alike (whole : ∀ c, ¬ m.beyond c) (h : m.alike c₁ c₂)
    (drafts : Draft.Alike m.offsets d₁ d₂)
    (stays : m.returns → ∀ c d, Steps c₁ d₁ c d → Piece.StaysOnLine c d.lineStart d.word) :
    Draft.Alike m.offsets (reduceFrom c₁ d₁) (reduceFrom c₂ d₂) := by
  obtain ⟨e₁, steps, at_end⟩ := exists_steps c₁ d₁
  rcases m.run steps h drafts stays with beyond | ⟨e₂, f₂, steps₂, last, drafts₂⟩
  · exact absurd beyond (whole e₁)
  · have at_end₂ : Piece.read? e₂ f₂.lineStart f₂.word = none := by
      rw [← drafts₂.lineStart_eq, ← drafts₂.word_eq]
      cases m.reading last (fun returns => stays returns _ _ steps) with
      | ended _ there => exact there
      | same here =>
        rw [at_end] at here
        cases here
      | returned here =>
        rw [at_end] at here
        cases here
    rwa [steps₂.reduceFrom_eq, reduceFrom_end at_end₂]

theorem ofSource {source₁ source₂ : List Char} (whole : ∀ c, ¬ m.beyond c)
    (h : m.alike (.ofSource source₁) (.ofSource source₂))
    (stays : m.returns → ∀ c d, Visits source₁ c d → Piece.StaysOnLine c d.lineStart d.word) :
    (Structural.ofSource source₁).text = (Structural.ofSource source₂).text ∧
      List.Forall₂ (SameSquare m.offsets) (Structural.ofSource source₁).squares
        (Structural.ofSource source₂).squares :=
  (m.reduceFrom_alike whole h (.intro .nil) stays).finish

end Simulation
end LambdaTally
