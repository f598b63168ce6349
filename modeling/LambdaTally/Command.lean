import LambdaTally.CommandLine.Arguments
import LambdaTally.Output
import LambdaTally.Run

/-!
# LambdaTally.Command

The program: from the words of a command line to what it prints, the files it writes and the code
it ends with. The result is printed first; the side files, samples and totals, come after it, so a
side file that cannot be written takes nothing away from what has been printed.
-/

namespace LambdaTally
namespace Command

/-- The code of a run that did what it was asked for. -/
def success : Nat := 0

/-- The code of a run that failed. -/
def failure : Nat := 1

/-- The code of a command line that cannot be read. -/
def misuse : Nat := 2

/-- What is printed, and the files that are to be written after that. -/
structure Response where
  code : Nat
  output : List Char
  errors : List (List Char)
  sideFiles : List (Path × List Char)
  deriving DecidableEq, Repr

/-- The line for an error that ends the program. -/
def errorLine (message : List Char) : List Char := "Application Error: ".toList ++ message

/-- The line for a side file that cannot be written. -/
def sideFileLine (e : SystemError) : List Char :=
  errorLine ("IO error: ".toList ++ e.message.toList)

/-- The line for a file that could not be read. -/
def readFailureLine (e : ReadFailure) : List Char :=
  "Error processing ".toList ++ e.path.display ++ ": ".toList ++ e.message

/-- The answer to a command line that asks for no run. -/
def ofUsage : CommandLine.UsageError → Response
  | .displayVersion => ⟨success, "lambda_census ".toList ++ version.toList ++ ['\n'], [], []⟩
  | .displayHelp => ⟨success, "Usage: lambda_census [OPTIONS] [PATHS]...\n".toList, [], []⟩
  | _ => ⟨misuse, [], ["error: the command line cannot be read".toList], []⟩

/-- The side files that settings ask for, in the order in which they are written. -/
def sideFiles (settings : Settings) (reports : List FileReport) : List (Path × List Char) :=
  (settings.samplesOut.map fun path => (path, Samples.write reports)).toList ++
    (settings.summaryOut.map fun path =>
      (path, Delimited.totals [','] (.ofReports reports))).toList

/-- The answer to a run. -/
def ofRun (settings : Settings) : Except RunError RunResult → Response
  | .error e => ⟨failure, [], [errorLine e.message], []⟩
  | .ok result =>
    let written := Output.write settings.format settings.mode settings.jobs result.reports
    let failures := result.failures.map readFailureLine
    match written.failure with
    | some e => ⟨failure, written.text, failures ++ [errorLine e.message.toList], []⟩
    | none => ⟨success, written.text, failures, sideFiles settings result.reports⟩

/-- Reads the words of a command line: settings for a run, or an answer without one. -/
def read (processors : Nat) (words : List (List Char)) : Except Response Settings :=
  match CommandLine.Arguments.read words with
  | .ok arguments => .ok (arguments.settings processors)
  | .error e => .error (ofUsage e)

/-- Writes side files up to the first that cannot be written, and gives the reason for that. -/
def writeSideFiles (t : FileTree) : List (Path × List Char) → FileTree × Option SystemError
  | [] => (t, none)
  | (path, text) :: rest =>
    match t.write path (Utf8.encode text) with
    | .ok t => writeSideFiles t rest
    | .error e => (t, some e)

/-- The answer once side files have been written, up to one that could not be. -/
def Response.after (r : Response) : Option SystemError → Response
  | none => r
  | some e => { r with code := failure, errors := r.errors ++ [sideFileLine e] }

/-- The program over a tree of files: its answer, and the tree that it leaves. -/
def run (t : FileTree) (processors : Nat) (words : List (List Char))
    (repositories : Repositories := .standard) : Response × FileTree :=
  match read processors words with
  | .error response => (response, t)
  | .ok settings =>
    let response := ofRun settings (t.run settings repositories)
    let (t, failed) := writeSideFiles t response.sideFiles
    (response.after failed, t)

end Command
end LambdaTally
