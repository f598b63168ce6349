import LambdaTally.Proofs.Grammar.Reading
import LambdaTally.Proofs.Nesting.Cut
import LambdaTally.Proofs.Nesting.Failure
import LambdaTally.Proofs.Nesting.Postorder
import LambdaTally.Proofs.Pattern.Context
import LambdaTally.Proofs.Pattern.Matches
import Mathlib.Algebra.GroupWithZero.Nat

/-!
# LambdaTally.Proofs.Tally

How many lambda expressions a structural text holds, as a sum over the tree of its groups. Each group
counts for the matches in its own rendering (`Forest.own`); a group without another inside counts for
nothing, so it does not matter that the pass leaves it out (`tally_text`). The count of a source is the
tally of its structural text, so the offsets of its brackets have no part in it (`Outcome.same_count`).
-/

namespace LambdaTally

open Utf8

/-- The number of lambda expressions in the leaves of a text, taken as structural as it stands. -/
def tally (text : List Char) : Nat :=
  ((Structural.ofText text).flatten.leaves.map fun leaf => leaf.lambdas.length).sum

namespace Forest

/-- The lambda expressions that a content holds itself, not counting those inside its groups. -/
def own (f : Forest) : Nat := (Grammar.lambda.matchesIn (f.rendered [])).length

/-- The lambda expressions inside the groups of a content. -/
def nested : Forest → Nat
  | nil => 0
  | char _ _ rest => rest.nested
  | group _ inside rest => inside.nested + inside.own + rest.nested

variable {f : Forest}

theorem plain_of_not_hasGroup (h : f.hasGroup = false) :
    ∀ ch ∈ f.text, Bracket.isBracket ch = false := by
  induction f with
  | nil => simp [text]
  | char ch plain rest ih => exact List.forall_mem_cons.2 ⟨plain, ih h⟩
  | group => cases h

theorem rendered_of_not_hasGroup (h : f.hasGroup = false) (before : List Char) :
    f.rendered before = before ++ f.text := by
  induction f generalizing before with
  | nil => simp [rendered, text]
  | char ch plain rest ih => rw [rendered, ih h, text, List.append_assoc, List.singleton_append]
  | group => cases h

theorem own_of_not_hasGroup (h : f.hasGroup = false) : f.own = 0 := by
  rw [own, rendered_of_not_hasGroup h, List.nil_append, List.length_eq_zero_iff]
  refine List.eq_nil_iff_forall_not_mem.2 fun m hm => ?_
  obtain ⟨before, start, stop, hstart, first, -⟩ := Pattern.exists_place_of_mem hm
  obtain ⟨r, -, introduced, -⟩ :=
    Grammar.exists_introducer (Pattern.mem_ends_of_firstEnd? first)
  have whole : f.text = before ++ start.rest := hstart.rest_eq
  have square : '[' ∈ f.text := by simp [whole, introduced.rest_eq]
  have plain := plain_of_not_hasGroup h '[' square
  cases plain

/-! ## The tally of a tree -/

theorem sum_leavesOf (origin : Nat → Nat) (gs : List Placed) :
    ((leavesOf origin gs).map fun leaf => leaf.lambdas.length).sum =
      (gs.map fun g => g.content.own).sum := by
  have count (g : Placed) : (g.leaf origin).lambdas.length = g.content.own := by
    simp [Leaf.lambdas, Placed.leaf, own]
  induction gs with
  | nil => rfl
  | cons g gs ih =>
    rw [leavesOf_cons, List.map_append, List.sum_append_nat, ih, List.map_cons, List.sum_cons]
    by_cases h : g.content.hasGroup = true
    · simp [h, count]
    · rw [own_of_not_hasGroup (Bool.eq_false_iff.2 h)]
      simp [h]

theorem sum_groups (f : Forest) (position : Nat) :
    ((f.groups position).map fun g => g.content.own).sum = f.nested := by
  induction f generalizing position with
  | nil => rfl
  | char ch plain rest ih => exact ih _
  | group kind inside rest ihi ihr =>
    simp only [groups, nested, List.map_append, List.map_cons, List.sum_append_nat, List.sum_cons,
      ihi, ihr]
    omega

end Forest

theorem tally_text (f : Forest) : tally f.text = f.nested + f.own := by
  unfold tally
  rw [flatten_forest (Structural.tabled_ofText f.text) f rfl, Forest.sum_leavesOf,
    Forest.postorder, List.map_append, List.sum_append_nat, Forest.sum_groups]
  simp

theorem Forest.nested_eq (f : Forest) :
    f.nested = (f.contents.map fun g => tally g.text).sum := by
  induction f with
  | nil => rfl
  | char ch plain rest ih => exact ih
  | group kind inside rest _ ih => simp [nested, contents, tally_text, ih]

/-! ## The count of a source -/

theorem Structural.length_lambdas {s : Structural} (h : s.Tabled) (nested : WellNested s.text) :
    ∃ found, s.lambdas = .ok found ∧ found.length = tally s.text := by
  obtain ⟨f, hf⟩ := wellNested_iff_exists_forest.1 nested
  have leaves := flatten_forest h f hf
  refine ⟨s.flatten.leaves.flatMap Leaf.lambdas, by rw [lambdas, leaves], ?_⟩
  rw [leaves, ← hf, tally, flatten_forest (tabled_ofText f.text) f rfl, List.length_flatMap]
  exact (Forest.sum_leavesOf _ _).trans (Forest.sum_leavesOf _ _).symm

namespace Outcome

variable {source source₁ source₂ : List Char}

theorem count?_ofSource (sampling : Sampling) (nested : WellNested (Structural.ofSource source).text) :
    (ofSource sampling source).skipReason? = none ∧
      (ofSource sampling source).count? = some (tally (Structural.ofSource source).text) := by
  obtain ⟨found, lambdas, length⟩ :=
    Structural.length_lambdas (Structural.tabled_ofSource source) nested
  rw [ofSource, lambdas]
  exact ⟨rfl, congrArg some length⟩

theorem ofSource_malformed (sampling : Sampling)
    (broken : ¬ WellNested (Structural.ofSource source).text) :
    ofSource sampling source = .skipped .malformedBrackets := by
  rw [← verdict_wellNested_iff, ← failure_flatten] at broken
  obtain ⟨e, failure⟩ := Option.ne_none_iff_exists'.1 broken
  rw [ofSource, Structural.lambdas, failure]
  rfl

/-- Sources with the same structural text have the same status and the same count. -/
theorem same_count (same : (Structural.ofSource source₁).text = (Structural.ofSource source₂).text)
    (sampling : Sampling) :
    (ofSource sampling source₁).skipReason? = (ofSource sampling source₂).skipReason? ∧
      (ofSource sampling source₁).count? = (ofSource sampling source₂).count? := by
  by_cases nested : WellNested (Structural.ofSource source₂).text
  · obtain ⟨kept₂, count₂⟩ := count?_ofSource sampling nested
    rw [← same] at nested
    obtain ⟨kept₁, count₁⟩ := count?_ofSource sampling nested
    exact ⟨kept₁.trans kept₂.symm, by rw [count₁, count₂, same]⟩
  · have broken₂ := ofSource_malformed sampling nested
    rw [← same] at nested
    rw [ofSource_malformed sampling nested, broken₂]
    exact ⟨rfl, rfl⟩

end Outcome

/-! ## Statements and blocks -/

namespace Forest

theorem nested_append (f g : Forest) : (f ++ g).nested = f.nested + g.nested := by
  simp [nested_eq]

/-- A semicolon keeps the matches on its two sides apart. -/
theorem own_semicolon (f g : Forest) : (f ++ char ';' rfl g).own = f.own + g.own := by
  have apart : (f ++ char ';' rfl g).rendered [] = f.rendered [] ++ ';' :: g.rendered [] := by
    rw [rendered_append]
    exact rendered_cut (by decide) g (f.rendered []) []
  rw [own, apart, Pattern.matchesIn_append (by decide) (by decide)]
  simp [own]

/-- What one group leaves behind is no lambda expression. -/
theorem own_group (kind : Bracket) (f : Forest) : (group kind f nil).own = 0 := by
  have alone : (group kind f nil).rendered [] = kind.placeholder := by
    cases kind <;> rfl
  rw [own, alone]
  cases kind <;> decide +kernel

end Forest

/-- **Statements add up, and blocks do not count.** The tally of two well-nested texts with a
semicolon between them is the sum of theirs, and a pair of brackets around a text changes nothing. -/
theorem tally_statements {a b : List Char} (ha : WellNested a) (hb : WellNested b) :
    tally (a ++ [';'] ++ b) = tally a + tally b ∧
      ∀ kind : Bracket, tally ([kind.opening] ++ a ++ [kind.closing]) = tally a := by
  obtain ⟨f, rfl⟩ := wellNested_iff_exists_forest.1 ha
  obtain ⟨g, rfl⟩ := wellNested_iff_exists_forest.1 hb
  constructor
  · have joined : f.text ++ [';'] ++ g.text = (f ++ Forest.char ';' rfl g).text := by
      simp [Forest.text]
    have inside : (Forest.char ';' rfl g).nested = g.nested := rfl
    rw [joined, tally_text, tally_text, tally_text, Forest.own_semicolon, Forest.nested_append,
      inside]
    omega
  · intro kind
    have wrapped : [kind.opening] ++ f.text ++ [kind.closing] = (Forest.group kind f .nil).text := by
      simp [Forest.text]
    have inside : (Forest.group kind f .nil).nested = f.nested + f.own := rfl
    rw [wrapped, tally_text, tally_text, Forest.own_group, inside, Nat.add_zero]

theorem tally_statements_captures :
    WellNested "[x]\x7b[]()\x7b\x7d\x7d".toList ∧ WellNested "f([=]\x7b\x7d)".toList ∧
      tally "[x]\x7b[]()\x7b\x7d\x7d;f([=]\x7b\x7d)".toList = 3 ∧
      tally "([x]\x7b[]()\x7b\x7d\x7d)".toList = 2 := by
  have first : WellNested "[x]\x7b[]()\x7b\x7d\x7d".toList := by
    refine wellNested_iff_exists_forest.2 ⟨.group .square (.char 'x' rfl .nil)
      (.group .brace (.group .square .nil (.group .paren .nil (.group .brace .nil .nil))) .nil), rfl⟩
  have second : WellNested "f([=]\x7b\x7d)".toList := by
    refine wellNested_iff_exists_forest.2 ⟨.char 'f' rfl (.group .paren
      (.group .square (.char '=' rfl .nil) (.group .brace .nil .nil)) .nil), rfl⟩
  obtain ⟨sum, wrapped⟩ := tally_statements first second
  have two : tally "[x]\x7b[]()\x7b\x7d\x7d".toList = 2 := by decide +kernel
  have one : tally "f([=]\x7b\x7d)".toList = 1 := by decide +kernel
  exact ⟨first, second, sum.trans (by rw [two, one]), (wrapped .paren).trans two⟩

end LambdaTally
