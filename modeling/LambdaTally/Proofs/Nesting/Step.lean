import LambdaTally.Nesting
import LambdaTally.Proofs.Nesting.Forest

/-!
# LambdaTally.Proofs.Nesting.Step

What one character does to the groups that are open, one equation for each sort of character, and
what of a state a change to its innermost group leaves alone. A property of leaves that every step and
the end of the pass guarantee holds of all leaves of a run (`Flattening.forall_mem_run`).
-/

namespace LambdaTally

theorem Bracket.sorts (ch : Char) :
    (∃ kind : Bracket, ch = kind.opening) ∨ (∃ kind : Bracket, ch = kind.closing) ∨
      Bracket.isBracket ch = false := by
  cases ho : Bracket.ofOpening? ch with
  | some kind => exact .inl ⟨kind, eq_opening_of_ofOpening? ho⟩
  | none =>
    cases hc : Bracket.ofClosing? ch with
    | some kind => exact .inr (.inl ⟨kind, eq_closing_of_ofClosing? hc⟩)
    | none => exact .inr (.inr (isBracket_eq_false ho hc))

namespace Group

@[simp] theorem push_kind (g : Group) (ch : Char) : (g.push ch).kind = g.kind := rfl
@[simp] theorem push_openedAt (g : Group) (ch : Char) : (g.push ch).openedAt = g.openedAt := rfl

@[simp] theorem collapse_kind (g child : Group) : (g.collapse child).kind = g.kind := by
  unfold collapse; split <;> rfl

@[simp] theorem collapse_openedAt (g child : Group) :
    (g.collapse child).openedAt = g.openedAt := by
  unfold collapse; split <;> rfl

end Group

namespace Nesting

/-- The state one character of `size` octets further on. -/
def moved (n : Nesting) (size : Nat) : Nesting := { n with position := n.position + size }

@[simp] theorem moved_position (n : Nesting) (k : Nat) :
    (n.moved k).position = n.position + k := rfl
@[simp] theorem moved_outermost (n : Nesting) (k : Nat) : (n.moved k).outermost = n.outermost := rfl
@[simp] theorem moved_pending (n : Nesting) (k : Nat) : (n.moved k).pending = n.pending := rfl

@[simp] theorem modifyTop_position (n : Nesting) (f : Group → Group) :
    (n.modifyTop f).position = n.position := by
  unfold modifyTop; split <;> rfl

@[simp] theorem modifyTop_squares (n : Nesting) (f : Group → Group) :
    (n.modifyTop f).squares = n.squares := by
  unfold modifyTop; split <;> rfl

theorem step_opening (n : Nesting) (kind : Bracket) :
    n.step kind.opening = .ok ((n.openGroup kind).moved 1, none) := by
  simp [step, moved]

theorem step_closing (n : Nesting) (kind : Bracket) :
    n.step kind.closing = (n.closeGroup kind).map fun r => (r.1.moved 1, r.2) := by
  simp [step, moved]

theorem step_plain (n : Nesting) {ch : Char} (plain : Bracket.isBracket ch = false) :
    n.step ch = .ok ((n.modifyTop (·.push ch)).moved ch.utf8Size, none) := by
  simp [step, moved, Bracket.ofOpening?_eq_none plain, Bracket.ofClosing?_eq_none plain]

/-- All that a step can do: open a group, close the innermost one, or write a character into it. -/
theorem step_cases {n m : Nesting} {ch : Char} {leaf : Option Leaf} (h : n.step ch = .ok (m, leaf)) :
    (∃ kind : Bracket, ch = kind.opening ∧ m = (n.openGroup kind).moved 1 ∧ leaf = none) ∨
      (∃ closed outer, ch = closed.kind.closing ∧ n.pending = closed :: outer ∧
        m = (({ n with pending := outer } : Nesting).modifyTop (·.collapse closed)).moved 1 ∧
        leaf = closed.leaf?) ∨
      (Bracket.isBracket ch = false ∧ m = (n.modifyTop (·.push ch)).moved ch.utf8Size ∧
        leaf = none) := by
  rcases Bracket.sorts ch with ⟨kind, rfl⟩ | ⟨kind, rfl⟩ | plain
  · rw [step_opening] at h
    cases h
    exact .inl ⟨kind, rfl, rfl, rfl⟩
  · rw [step_closing, closeGroup] at h
    split at h
    · cases h
    · rename_i closed outer hp
      split at h
      · rename_i same
        cases h
        exact .inr (.inl ⟨closed, outer, by rw [same], hp, rfl, rfl⟩)
      · cases h
  · rw [step_plain n plain] at h
    cases h
    exact .inr (.inr ⟨plain, rfl, rfl⟩)

/-- The brackets that are open, innermost first, each with its position. -/
def openers (n : Nesting) : List (Bracket × Nat) := n.pending.map fun g => (g.kind, g.openedAt)

@[simp] theorem openers_moved (n : Nesting) (k : Nat) : (n.moved k).openers = n.openers := rfl

theorem openers_modifyTop (n : Nesting) {f : Group → Group} (hk : ∀ g, (f g).kind = g.kind)
    (ho : ∀ g, (f g).openedAt = g.openedAt) : (n.modifyTop f).openers = n.openers := by
  unfold modifyTop openers
  split <;> simp [*]

@[simp] theorem openers_push (n : Nesting) (ch : Char) :
    (n.modifyTop (·.push ch)).openers = n.openers :=
  n.openers_modifyTop (fun g => g.push_kind ch) (fun g => g.push_openedAt ch)

@[simp] theorem openers_collapse (n : Nesting) (child : Group) :
    (n.modifyTop (·.collapse child)).openers = n.openers :=
  n.openers_modifyTop (fun g => g.collapse_kind child) (fun g => g.collapse_openedAt child)

@[simp] theorem openGroup_position (n : Nesting) (kind : Bracket) :
    (n.openGroup kind).position = n.position := by
  unfold openGroup; split <;> rfl

@[simp] theorem openers_openGroup (n : Nesting) (kind : Bracket) :
    (n.openGroup kind).openers = (kind, n.position) :: n.openers := by
  unfold openGroup; split <;> rfl

end Nesting

namespace Flattening

variable {I : Nesting → List Char → Prop} {P : Leaf → Prop}

/-- By induction on the text; the invariant is between the open groups and the text to come. -/
theorem forall_mem_run
    (step : ∀ {n ch rest m leaf}, I n (ch :: rest) → n.step ch = .ok (m, leaf) →
      I m rest ∧ ∀ l ∈ leaf, P l)
    (finish : ∀ {n leaf}, I n [] → n.finish = .ok leaf → ∀ l ∈ leaf, P l)
    {n : Nesting} {leaves : List Leaf} {text : List Char} (start : I n text)
    (so_far : ∀ leaf ∈ leaves, P leaf) :
    ∀ leaf ∈ (run n leaves text).leaves, P leaf := by
  have more {new : Option Leaf} {leaves : List Leaf} (hn : ∀ l ∈ new, P l)
      (so_far : ∀ leaf ∈ leaves, P leaf) : ∀ leaf ∈ new.toList ++ leaves, P leaf := by
    intro leaf hl
    rcases List.mem_append.1 hl with hl | hl
    · exact hn leaf (Option.mem_toList.1 hl)
    · exact so_far leaf hl
  induction text generalizing n leaves with
  | nil =>
    rw [run]
    split
    · rename_i last hf
      intro leaf hl
      exact more (finish start hf) so_far leaf (List.mem_reverse.1 hl)
    · exact fun leaf hl => so_far leaf (List.mem_reverse.1 hl)
  | cons ch text ih =>
    rw [run]
    split
    · rename_i m leaf hs
      obtain ⟨next, delivered⟩ := step start hs
      exact ih next (more delivered so_far)
    · exact fun leaf hl => so_far leaf (List.mem_reverse.1 hl)

end Flattening
end LambdaTally
