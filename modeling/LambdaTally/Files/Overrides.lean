import LambdaTally.Files.Rules

/-!
# LambdaTally.Files.Overrides

The patterns of a command line that decide over files before any other rule does: a plain one
selects and one that starts with `!` drops. They are matched against paths from the first root.
-/

namespace LambdaTally

/-- What a rule says of an entry of a directory. -/
inductive Verdict where
  | keep
  | drop
  deriving DecidableEq, Repr

/-- The patterns, seen from the first root. -/
abbrev Overrides := RuleList

/-- A pattern that cannot be read. -/
structure BadGlob where
  text : List Char
  cause : GlobError
  deriving DecidableEq, Repr

namespace Overrides

/-- Reads patterns. -/
def readRules : List (List Char) → Except BadGlob Rules
  | [] => .ok []
  | text :: rest =>
    match Rule.ofLine false (Rule.trimLine text) with
    | .error e => .error ⟨Rule.trimLine text, e⟩
    | .ok rule =>
      match readRules rest with
      | .error e => .error e
      | .ok rules => .ok (rule.toList ++ rules)

/-- Reads the patterns of a command line. What is excluded is a pattern behind a `!`. -/
def read (root : Path) (includes excludes : List (List Char)) : Except BadGlob Overrides :=
  match readRules (includes ++ excludes.map ('!' :: ·)) with
  | .error e => .error e
  | .ok rules => .ok ⟨root, rules⟩

/-- Some pattern selects. -/
def selects (o : Overrides) : Bool := o.rules.any fun r => !r.negated

/-- What the patterns say of a path. As soon as one of them selects, files that none of them matches
are dropped. -/
def verdict? (o : Overrides) (path : Path) (isDirectory : Bool) : Option Verdict :=
  match o.deciding? path isDirectory with
  | some rule => some (if rule.negated then .drop else .keep)
  | none => if o.selects && !isDirectory then some .drop else none

end Overrides
end LambdaTally
