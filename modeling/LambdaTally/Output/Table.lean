import LambdaTally.Report
import LambdaTally.Settings

/-!
# LambdaTally.Output.Table

The table for a reader: a heading, a row for each file with its count in front, and the totals.
-/

namespace LambdaTally
namespace Table

/-- The width of the column of counts. -/
def countWidth : Nat := 9

/-- A text at the right edge of the column of counts. -/
def column (text : List Char) : List Char :=
  List.replicate (countWidth - text.length) ' ' ++ text

/-- The blanks between the columns. -/
def gap : List Char := "      ".toList

def heading (jobs : Nat) : List Char :=
  "lambda_census v".toList ++ version.toList ++ " · parallel=".toList ++ Nat.toDigits 10 jobs ++
    "\n\n".toList

/-- A row: the count of the file, or a dash and the reason for which it is skipped. -/
def row (r : FileReport) : List Char :=
  (match r.status with
    | .counted count => column (Nat.toDigits 10 count) ++ gap ++ r.path.display
    | .skipped reason =>
      column ['-'] ++ gap ++ r.path.display ++ " (".toList ++ reason.name.toList ++ [')']) ++ ['\n']

def rows (reports : List FileReport) : List Char :=
  "  LAMBDAS      FILE\n".toList ++ List.replicate 46 '-' ++ ['\n'] ++ reports.flatMap row ++
    "---\n".toList

/-- The totals. The reasons for which files are skipped are told only if some are. -/
def totals (s : Summary) : List Char :=
  column (Nat.toDigits 10 s.lambdas) ++ gap ++ "TOTAL (".toList ++ Nat.toDigits 10 s.files ++
    " files, ".toList ++ Nat.toDigits 10 s.skippedFiles ++ " skipped)\n".toList ++
    if s.skippedFiles = 0 then []
    else
      "           skipped: decode_error=".toList ++ Nat.toDigits 10 s.skippedDecode ++
        ", malformed_brackets=".toList ++ Nat.toDigits 10 s.skippedMalformed ++ ['\n']

/-- The whole table. -/
def write (mode : OutputMode) (jobs : Nat) (reports : List FileReport) : List Char :=
  heading jobs ++ (if mode = .full then rows reports else []) ++ totals (.ofReports reports)

end Table
end LambdaTally
