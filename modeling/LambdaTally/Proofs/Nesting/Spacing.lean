import LambdaTally.Proofs.Nesting.Postorder
import LambdaTally.Proofs.Structural.Spacing

/-!
# LambdaTally.Proofs.Nesting.Spacing

Leaves keep the spacing of the structural text: if that has no two blanks side by side, neither has
any leaf delivered from it, whether the pass gets to the end or not. A blank could come to stand
beside another only where a group between them vanishes, and then the blanks before it vanish too.
-/

namespace LambdaTally

open CharClass

/-- A collapsed group leaves the text without a blank at its end. -/
theorem Group.spaced_collapse {g : Group} (h : Spaced g.written) (child : Group) :
    Spaced (g.collapse child).written ∧
      ∀ last, (g.collapse child).written.head? = some last → isBlank last = false := by
  unfold collapse
  split
  · refine ⟨h.suffix (List.dropWhile_suffix _), ?_⟩
    intro last hlast
    have kept := List.head?_dropWhile_not isBlank g.written
    dsimp only at hlast
    rw [hlast] at kept
    simpa using kept
  · have plain : isBlank child.kind.opening = false ∧ isBlank child.kind.closing = false := by
      cases child.kind <;> exact ⟨by decide, by decide⟩
    refine ⟨(h.cons_of_plain plain.1).cons_of_plain plain.2, ?_⟩
    rintro last ⟨⟩
    exact plain.2

theorem Group.spaced_leaf {g : Group} (h : Spaced g.written) {leaf : Leaf} (hl : g.leaf? = some leaf) :
    Spaced leaf.text := by
  unfold leaf? at hl
  split at hl
  · cases hl
    exact h.reverse
  · cases hl

namespace Nesting

/-- No open group has two blanks side by side, nor will the innermost one if the next character of
the text goes into it. -/
structure Spaced (n : Nesting) (rest : List Char) : Prop where
  outermost : LambdaTally.Spaced n.outermost.written
  pending : ∀ g ∈ n.pending, LambdaTally.Spaced g.written
  ready : ∀ last next, n.top.written.head? = some last → rest.head? = some next →
    isBlank last = true → isBlank next = false

variable {n : Nesting} {rest : List Char}

theorem Spaced.top (h : n.Spaced rest) : LambdaTally.Spaced n.top.written := by
  unfold Nesting.top
  cases hp : n.pending with
  | nil => exact h.outermost
  | cons g outer => exact h.pending g (by simp [hp])

theorem Spaced.modifyTop {later : List Char} (h : n.Spaced rest) {f : Group → Group}
    (spaced : LambdaTally.Spaced (f n.top).written)
    (ready : ∀ last next, (f n.top).written.head? = some last → later.head? = some next →
      isBlank last = true → isBlank next = false) (size : Nat) :
    ((n.modifyTop f).moved size).Spaced later := by
  obtain ⟨position, outermost, pending, squares⟩ := n
  cases pending with
  | nil => exact ⟨spaced, by simp [Nesting.modifyTop], ready⟩
  | cons g outer =>
    refine ⟨h.outermost, ?_, ready⟩
    intro g' hg'
    rcases List.mem_cons.1 hg' with rfl | hg'
    · exact spaced
    · exact h.pending g' (List.mem_cons_of_mem _ hg')

theorem Spaced.openGroup {later : List Char} (h : n.Spaced rest) (kind : Bracket) (size : Nat) :
    ((n.openGroup kind).moved size).Spaced later := by
  have opened : (n.openGroup kind).outermost = n.outermost ∧
      ∃ openedAt origin, (n.openGroup kind).pending = .opened kind openedAt origin :: n.pending := by
    unfold Nesting.openGroup
    split
    · exact ⟨rfl, _, _, rfl⟩
    · exact ⟨rfl, _, _, rfl⟩
  obtain ⟨same, openedAt, origin, hp⟩ := opened
  refine ⟨?_, ?_, ?_⟩
  · rw [moved_outermost, same]
    exact h.outermost
  · rw [moved_pending, hp]
    exact List.forall_mem_cons.2 ⟨.nil, h.pending⟩
  · unfold Nesting.top
    rw [moved_pending, hp]
    intro last next hlast
    cases hlast

theorem Spaced.step {ch : Char} (h : n.Spaced (ch :: rest)) (spaced : LambdaTally.Spaced (ch :: rest))
    {m : Nesting} {leaf : Option Leaf} (hs : n.step ch = .ok (m, leaf)) :
    m.Spaced rest ∧ ∀ l ∈ leaf, LambdaTally.Spaced l.text := by
  rcases step_cases hs with ⟨kind, rfl, rfl, rfl⟩ | ⟨closed, outer, rfl, hp, rfl, rfl⟩ | ⟨-, rfl, rfl⟩
  · exact ⟨h.openGroup kind 1, by simp⟩
  · -- the group around the one that closes is as before
    have around : ({ n with pending := outer } : Nesting).Spaced [] :=
      ⟨h.outermost, fun g hg => h.pending g (hp ▸ List.mem_cons_of_mem _ hg),
        fun _ _ _ hnext => by cases hnext⟩
    have collapsed := Group.spaced_collapse around.top closed
    refine ⟨around.modifyTop collapsed.1 ?_ 1, ?_⟩
    · intro last next hlast _ blank
      rw [collapsed.2 last hlast] at blank
      cases blank
    · intro l hl
      exact Group.spaced_leaf (h.pending closed (hp ▸ List.mem_cons_self)) hl
  · refine ⟨h.modifyTop ?_ ?_ _, by simp⟩
    · refine h.top.cons ?_
      intro last hlast blank
      exact h.ready last ch hlast rfl blank
    · rintro last next ⟨⟩ hnext blank
      exact spaced.head?_tail blank hnext

end Nesting

theorem spaced_of_mem_leaves {s : Structural} (h : Spaced s.text) {leaf : Leaf}
    (hl : leaf ∈ s.flatten.leaves) : Spaced leaf.text := by
  have start : (Nesting.start s).Spaced s.text := by
    refine ⟨.nil, by simp [Nesting.start], ?_⟩
    intro last next hlast
    cases hlast
  refine Flattening.forall_mem_run (I := fun n text => n.Spaced text ∧ Spaced text)
    (P := fun leaf => Spaced leaf.text) ?_ ?_ ⟨start, h⟩ (by simp) leaf hl
  · rintro n ch rest m leaf ⟨open_groups, spaced⟩ hs
    obtain ⟨next, delivered⟩ := open_groups.step spaced hs
    exact ⟨⟨next, spaced.tail⟩, delivered⟩
  · rintro n leaf ⟨open_groups, -⟩ hf l hl
    unfold Nesting.finish at hf
    split at hf
    · cases hf
      exact Group.spaced_leaf open_groups.outermost hl
    · cases hf

end LambdaTally
