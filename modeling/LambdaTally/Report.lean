import LambdaTally.Files.Path
import LambdaTally.Outcome

/-!
# LambdaTally.Report

What a run says about each file, and about all of them together.
-/

namespace LambdaTally

inductive FileStatus where
  | counted (count : Nat)
  | skipped (reason : SkipReason)
  deriving DecidableEq, Repr

namespace FileStatus

/-- The greatest count that a table of numbers shows. -/
def maxShown : Nat := 0x7FFFFFFFFFFFFFFF

/-- The count as a number of a table: -1 for a skipped file. -/
def countValue : FileStatus → Int
  | counted count => (min count maxShown : Nat)
  | skipped _ => -1

end FileStatus

/-- What is said about one file. -/
structure FileReport where
  path : Path
  status : FileStatus
  samples : List Sample
  deriving DecidableEq, Repr

namespace FileReport

def ofOutcome (path : Path) : Outcome → FileReport
  | .detected detection => ⟨path, .counted detection.count, detection.samples⟩
  | .skipped reason => ⟨path, .skipped reason, []⟩

def count? (r : FileReport) : Option Nat :=
  match r.status with
  | .counted count => some count
  | .skipped _ => none

end FileReport

/-- Totals over files; `files` counts the skipped ones too. -/
structure Summary where
  files : Nat
  countedFiles : Nat
  lambdas : Nat
  skippedFiles : Nat
  skippedDecode : Nat
  skippedMalformed : Nat
  deriving DecidableEq, Repr

namespace Summary

def empty : Summary := ⟨0, 0, 0, 0, 0, 0⟩

/-- The totals of a single file. -/
def ofReport (r : FileReport) : Summary :=
  match r.status with
  | .counted count => ⟨1, 1, count, 0, 0, 0⟩
  | .skipped .decodeError => ⟨1, 0, 0, 1, 1, 0⟩
  | .skipped .malformedBrackets => ⟨1, 0, 0, 1, 0, 1⟩

/-- The totals of two sets of files together. -/
def merge (a b : Summary) : Summary :=
  ⟨a.files + b.files, a.countedFiles + b.countedFiles, a.lambdas + b.lambdas,
    a.skippedFiles + b.skippedFiles, a.skippedDecode + b.skippedDecode,
    a.skippedMalformed + b.skippedMalformed⟩

def ofReports (reports : List FileReport) : Summary :=
  reports.foldl (fun total r => total.merge (ofReport r)) empty

/-- The totals that a table of key and value shows. -/
def rows (s : Summary) : List (String × Nat) :=
  [("lambdas", s.lambdas), ("skipped_files", s.skippedFiles), ("files", s.files)]

end Summary

/-- What reports are sorted by. -/
inductive SortKey where
  | path
  | count
  deriving DecidableEq, Repr

namespace FileReport

/-- The order of two reports. Descending order turns the key around; reports of equal count stand in
ascending order of path either way. -/
def compareBy (key : SortKey) (descending : Bool) (a b : FileReport) : Ordering :=
  let byPath := a.path.compare b.path
  match key with
  | .path => if descending then byPath.swap else byPath
  | .count =>
    let byCount := compare a.status.countValue b.status.countValue
    (if descending then byCount.swap else byCount).then byPath

/-- Sorts reports; those that compare equal keep their order. -/
def sort (key : SortKey) (descending : Bool) (reports : List FileReport) : List FileReport :=
  reports.mergeSort fun a b => (compareBy key descending a b).isLE

/-- Every sample of the reports, with the file it comes from. -/
def allSamples (reports : List FileReport) : List (Path × Sample) :=
  reports.flatMap fun r => r.samples.map fun s => (r.path, s)

end FileReport
end LambdaTally
