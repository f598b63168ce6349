import LambdaTally.Interchange
import LambdaTally.Output.Written

/-!
# LambdaTally.Output.JsonDocument

A result as one JSON document: version, reports and totals.
-/

namespace LambdaTally
namespace JsonDocument

/-- The document of a result, with or without its reports. -/
def ofReports (reports : Option (List Json)) (s : Summary) : Json :=
  .object ([("version".toList, .ofString version)] ++
    (reports.map fun reports => ("files".toList, .array reports)).toList ++
    [("summary".toList, s.toJson)])

/-- What stands before the first report of the document. -/
def opening : List Char :=
  '\x7b' :: Json.newline 1 ++ Json.quote "version".toList ++ ": ".toList ++
    Json.quote version.toList ++ ',' :: Json.newline 1 ++ Json.quote "files".toList ++ ": [".toList

/-- What stands of a report before its path. -/
def openingOfReport : List Char :=
  Json.newline 2 ++ '\x7b' :: Json.newline 3 ++ Json.quote "path".toList ++ ": ".toList

/-- What stands of the document before a path that is no text, after the reports before it. -/
def interrupted (reports : List Json) : List Char :=
  opening ++ Json.prettyItems 2 reports ++ (if reports = [] then [] else [',']) ++ openingOfReport

/-- Writes a result. -/
def write (mode : OutputMode) (reports : List FileReport) : Written :=
  let s := Summary.ofReports reports
  match mode with
  | .totalOnly => .done ((ofReports none s).pretty 0 ++ ['\n'])
  | .full =>
    match reports.mapM FileReport.toJson? with
    | some items => .done ((ofReports (some items) s).pretty 0 ++ ['\n'])
    | none =>
      let items := (reports.map FileReport.toJson?).takeWhile Option.isSome
      ⟨interrupted (items.filterMap id), some .jsonPath⟩

end JsonDocument
end LambdaTally
