import LambdaTally.Interchange
import LambdaTally.Output.Written

/-!
# LambdaTally.Output.JsonLines

A result as lines of JSON: one for each report and a last one for the totals. Each line is an object
that says in its field `type` which of the two it is. The fields of an object are in the order of
their names.
-/

namespace LambdaTally
namespace JsonLines

/-- The line of an object. -/
def line (fields : List (List Char × Json)) : List Char :=
  (Json.object fields).sorted.compact ++ ['\n']

def totals (s : Summary) : List Char :=
  line (s.fields ++ [("type".toList, .ofString "total"), ("version".toList, .ofString version)])

/-- The line of a report. -/
def report? (r : FileReport) : Option (List Char) :=
  r.fields?.map fun fields => line (fields ++ [("type".toList, .ofString "file")])

/-- The lines of reports, and then what is written after them. -/
def writeReports (last : List Char) : List FileReport → Written
  | [] => .done last
  | r :: rest =>
    match report? r with
    | some text => (writeReports last rest).after text
    | none => ⟨[], some .jsonPath⟩

/-- Writes a result. -/
def write (mode : OutputMode) (reports : List FileReport) : Written :=
  writeReports (totals (.ofReports reports)) (if mode = .full then reports else [])

end JsonLines
end LambdaTally
