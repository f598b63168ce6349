import LambdaTally.Files.Filter
import LambdaTally.Report

/-!
# LambdaTally.Settings

Everything that a run can be told.
-/

namespace LambdaTally

/-- The forms in which a result is written. -/
inductive OutputFormat where
  | table
  | csv
  | tsv
  | json
  | jsonl
  | yaml
  deriving DecidableEq, Repr

/-- Every file and the totals, or just the totals. -/
inductive OutputMode where
  | full
  | totalOnly
  deriving DecidableEq, Repr

/-- How the files of a run are found. The two lists of globs override every other rule: files that
`includes` match are taken, and those that `excludes` match are left out. -/
structure WalkOptions where
  roots : List Path
  threads : Nat
  hidden : Bool
  gitIgnore : Bool
  maxDepth : Option Nat
  follow : Bool
  includes : List (List Char)
  excludes : List (List Char)
  deriving DecidableEq, Repr

def WalkOptions.default : WalkOptions :=
  { roots := [], threads := 1, hidden := false, gitIgnore := true, maxDepth := none
    follow := false, includes := [], excludes := [] }

/-- The settings of a run. `jobs` is shown in the table and has no bearing on the result. -/
structure Settings where
  walk : WalkOptions
  filter : Filter
  sampling : Sampling
  format : OutputFormat
  sortKey : SortKey
  descending : Bool
  mode : OutputMode
  samplesOut : Option Path
  summaryOut : Option Path
  jobs : Nat
  strict : Bool
  deriving DecidableEq, Repr

def Settings.default (jobs : Nat) : Settings :=
  { walk := .default, filter := .default, sampling := .default, format := .table, sortKey := .path
    descending := false, mode := .full, samplesOut := none, summaryOut := none, jobs := jobs
    strict := false }

/-- The version of the program. -/
def version : String := "0.3.0"

end LambdaTally
