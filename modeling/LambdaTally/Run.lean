import LambdaTally.Files.Walk
import LambdaTally.Report

/-!
# LambdaTally.Run

A run: the files of a walk are read and counted, and their reports sorted. A file that cannot be read
is an error of its own beside the reports, or, on request, ends the run.
-/

namespace LambdaTally

/-- A file that could not be read. -/
structure ReadFailure where
  path : Path
  cause : SystemError
  deriving DecidableEq, Repr

def ReadFailure.message (e : ReadFailure) : List Char :=
  "Failed to read file '".toList ++ e.path.display ++ "': ".toList ++ e.cause.message.toList

/-- Why a run has no result. -/
inductive RunError where
  | walk (cause : WalkError)
  | read (cause : ReadFailure)
  deriving DecidableEq, Repr

def RunError.message : RunError → List Char
  | .walk cause => cause.message
  | .read cause => cause.message

/-- A file as it has been read. -/
structure LoadedFile where
  path : Path
  content : Except SystemError (List UInt8)

/-- Counts a file that has been read. -/
def LoadedFile.report (sampling : Sampling) (r : LoadedFile) : Except ReadFailure FileReport :=
  match r.content with
  | .ok octets => .ok (.ofOutcome r.path (.ofOctets sampling octets))
  | .error cause => .error ⟨r.path, cause⟩

/-- What a run finds. -/
structure RunResult where
  reports : List FileReport
  failures : List ReadFailure
  deriving DecidableEq, Repr

namespace RunResult

def summary (r : RunResult) : Summary := .ofReports r.reports

def sort (key : SortKey) (descending : Bool) (r : RunResult) : RunResult :=
  { r with reports := FileReport.sort key descending r.reports }

/-- Counts files and keeps going over those that could not be read. -/
def collect (sampling : Sampling) (files : List LoadedFile) : RunResult where
  reports := files.filterMap fun r => (r.report sampling).toOption
  failures := files.filterMap fun r =>
    match r.report sampling with
    | .ok _ => none
    | .error e => some e

/-- Counts files up to the first that could not be read. -/
def collectStrict (sampling : Sampling) (files : List LoadedFile) :
    Except ReadFailure RunResult :=
  match files.mapM (LoadedFile.report sampling) with
  | .ok reports => .ok ⟨reports, []⟩
  | .error e => .error e

/-- The result for files that have been read. -/
def ofFiles (settings : Settings) (files : List LoadedFile) : Except ReadFailure RunResult :=
  let collected :=
    if settings.strict then collectStrict settings.sampling files
    else .ok (collect settings.sampling files)
  collected.map (sort settings.sortKey settings.descending)

end RunResult

namespace FileTree

/-- Loads the file at a path. -/
def load (t : FileTree) (p : Path) : LoadedFile := ⟨p, t.read p⟩

/-- Counts the file at a path. -/
def report (t : FileTree) (sampling : Sampling) (p : Path) : Except ReadFailure FileReport :=
  (t.load p).report sampling

/-- The result of a run over a tree. -/
def run (t : FileTree) (settings : Settings) (repositories : Repositories := .standard) :
    Except RunError RunResult :=
  match t.walk settings.walk settings.filter repositories with
  | .error e => .error (.walk e)
  | .ok paths =>
    match RunResult.ofFiles settings (paths.map t.load) with
    | .error e => .error (.read e)
    | .ok result => .ok result

end FileTree
end LambdaTally
