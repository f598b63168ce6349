import LambdaTally.Proofs.Pattern.Spans
import Mathlib.Data.List.Pairwise

/-!
# LambdaTally.Proofs.Pattern.Matches

The matches of a text, for any pattern: each starts at a place where the pattern has an end and stops
at the preferred one (`exists_place_of_mem`), they follow one another without overlap
(`pairwise_matchesFrom`), and no place where the pattern has an end lies outside them (`covered`).
-/

namespace LambdaTally
namespace Pattern

open Place Utf8

variable {pattern : Pattern} {p q : Place}

theorem mem_ends_of_firstEnd? (h : pattern.firstEnd? p = some q) : q ∈ pattern.ends p :=
  List.mem_of_mem_head? (Option.filter_eq_some_iff.1 h).1

theorem offset_lt_of_firstEnd? (h : pattern.firstEnd? p = some q) : p.offset < q.offset := by
  obtain ⟨text, hs⟩ := spans_of_mem_ends (mem_ends_of_firstEnd? h)
  have shorter : q.rest.length < p.rest.length := by
    simpa using (Option.filter_eq_some_iff.1 h).2
  have nonempty : text ≠ [] := by
    rintro rfl
    cases hs
    exact Nat.lt_irrefl _ shorter
  have := byteLength_pos nonempty
  rw [hs.offset_eq]
  omega

theorem exists_place_of_mem {m : Nat × Nat} (h : m ∈ pattern.matchesFrom p) :
    ∃ before start stop, p.Spans before start ∧ pattern.firstEnd? start = some stop ∧
      m = (start.offset, stop.offset) := by
  fun_induction matchesFrom pattern p with
  | case1 p q found ih =>
    rcases List.mem_cons.1 h with rfl | h
    · exact ⟨[], p, q, .nil, found, rfl⟩
    · obtain ⟨text, hs⟩ := spans_of_mem_ends (mem_ends_of_firstEnd? found)
      obtain ⟨before, start, stop, hb, hf, rfl⟩ := ih h
      exact ⟨text ++ before, start, stop, hs.trans hb, hf, rfl⟩
  | case2 p _ ch q next ih =>
    obtain ⟨before, start, stop, hb, hf, rfl⟩ := ih h
    exact ⟨ch :: before, start, stop, .cons next hb, hf, rfl⟩
  | case3 => cases h

theorem le_of_mem_matchesFrom {m : Nat × Nat} (h : m ∈ pattern.matchesFrom p) :
    p.offset ≤ m.1 ∧ m.1 < m.2 := by
  obtain ⟨before, start, stop, hb, hf, rfl⟩ := exists_place_of_mem h
  exact ⟨by rw [hb.offset_eq]; omega, offset_lt_of_firstEnd? hf⟩

theorem pairwise_matchesFrom (pattern : Pattern) (p : Place) :
    (pattern.matchesFrom p).Pairwise fun a b => a.2 ≤ b.1 := by
  fun_induction matchesFrom pattern p with
  | case1 p q found ih =>
    exact .cons (fun m hm => (le_of_mem_matchesFrom hm).1) ih
  | case2 _ _ _ _ _ ih => exact ih
  | case3 => exact .nil

/-- A match that starts in front of another stops there or before. -/
theorem le_of_lt {a b : Nat × Nat} (ha : a ∈ pattern.matchesFrom p) (hb : b ∈ pattern.matchesFrom p)
    (lt : a.1 < b.1) : a.2 ≤ b.1 := by
  let apart (a b : Nat × Nat) : Prop := a.2 ≤ b.1 ∨ b.2 ≤ a.1
  have : Std.Symm apart := ⟨fun _ _ => Or.symm⟩
  have pairwise : (pattern.matchesFrom p).Pairwise apart :=
    (pairwise_matchesFrom pattern p).imp Or.inl
  have other : a ≠ b := by
    rintro rfl
    exact Nat.lt_irrefl _ lt
  rcases pairwise.forall ha hb other with before | behind
  · exact before
  · have := (le_of_mem_matchesFrom hb).2
    omega

/-- Wherever the pattern has an end that takes text, one of the matches covers the place. -/
theorem covered {start stop : Place} {before : List Char} (hs : p.Spans before start)
    (hf : pattern.firstEnd? start = some stop) :
    ∃ m ∈ pattern.matchesFrom p, m.1 ≤ start.offset ∧ start.offset < m.2 := by
  fun_induction matchesFrom pattern p generalizing before with
  | case1 p q found ih =>
    have from_p : p.offset ≤ start.offset := by rw [hs.offset_eq]; omega
    rcases Nat.lt_or_ge start.offset q.offset with lt | ge
    · exact ⟨_, List.mem_cons_self, from_p, lt⟩
    · obtain ⟨text, hq⟩ := spans_of_mem_ends (mem_ends_of_firstEnd? found)
      obtain ⟨rest, -, hrest⟩ := hq.extend hs ge
      obtain ⟨m, hm, bounds⟩ := ih hrest
      exact ⟨m, List.mem_cons_of_mem _ hm, bounds⟩
  | case2 p none_here ch q next ih =>
    cases hs with
    | nil => rw [hf] at none_here; cases none_here
    | cons hn hrest =>
      rw [next] at hn
      cases hn
      exact ih hrest
  | case3 p none_here at_end =>
    cases hs with
    | nil => rw [hf] at none_here; cases none_here
    | cons hn => rw [at_end] at hn; cases hn

end Pattern
end LambdaTally
