import LambdaTally.Report
import LambdaTally.Settings

/-!
# LambdaTally.Output.Delimited

Tables for other programs: records of two fields, a heading first. A field is quoted only where
commas divide the fields.
-/

namespace LambdaTally
namespace Delimited

/-- A field in quotes; a quote inside it is written twice. -/
def quote (field : List Char) : List Char :=
  '"' :: field.flatMap (fun c => if c = '"' then ['"', '"'] else [c]) ++ ['"']

/-- A field that holds one of these is quoted. -/
def needsQuotes (c : Char) : Bool := c == ',' || c == '"' || c == '\n'

/-- A field as it is written between delimiters. -/
def field (delimiter text : List Char) : List Char :=
  if delimiter = [','] ∧ text.any needsQuotes then quote text else text

def record (delimiter first second : List Char) : List Char :=
  first ++ delimiter ++ second ++ ['\n']

/-- A whole number in decimal. -/
def integer : Int → List Char
  | .ofNat n => Nat.toDigits 10 n
  | .negSucc n => '-' :: Nat.toDigits 10 (n + 1)

/-- The totals, by name. -/
def totals (delimiter : List Char) (s : Summary) : List Char :=
  record delimiter "key".toList "value".toList ++
    s.rows.flatMap fun (key, value) => record delimiter key.toList (Nat.toDigits 10 value)

/-- The count of each file. -/
def counts (delimiter : List Char) (reports : List FileReport) : List Char :=
  record delimiter "path".toList "count".toList ++
    reports.flatMap fun r =>
      record delimiter (field delimiter r.path.display) (integer r.status.countValue)

/-- The count of each file, or just the totals. -/
def write (delimiter : List Char) (mode : OutputMode) (reports : List FileReport) : List Char :=
  match mode with
  | .full => counts delimiter reports
  | .totalOnly => totals delimiter (.ofReports reports)

end Delimited
end LambdaTally
