import LambdaTally.Json.Field
import LambdaTally.Json.Reader
import LambdaTally.Number.Natural
import LambdaTally.Settings

/-!
# LambdaTally.Interchange

The JSON forms of what a run finds and of what it is told. An outcome says in its field `status`
which of the two it is, and has the fields of that one beside it. It is also read from an array that
starts with the status.
-/

namespace LambdaTally

namespace SkipReason

def cases : List (String × SkipReason) := [decodeError, malformedBrackets].map fun r => (r.name, r)

def toJson (r : SkipReason) : Json := .ofString r.name

def ofJson? : Json → Option SkipReason := Json.choice? cases

/-- Reads a reason inside an outcome, where an empty object does for null. -/
def ofTaggedJson? : Json → Option SkipReason
  | .object [(name, .object [])] => Json.caseOf? cases name
  | json => ofJson? json

/-- Reads the record of a skipped file. -/
def ofRecord? (json : Json) : Option SkipReason :=
  match json.record? ["reason"] with
  | some [reason] => ofTaggedJson? reason
  | _ => none

end SkipReason

namespace Sample

def toJson (s : Sample) : Json :=
  .object [("offset".toList, .natural s.offset), ("context".toList, .string s.context)]

def ofJson? (json : Json) : Option Sample :=
  match json.record? ["offset", "context"] with
  | some [offset, context] => do return ⟨← offset.nat? Natural.max64, ← context.text?⟩
  | _ => none

end Sample

namespace Detection

def fields (d : Detection) : List (List Char × Json) :=
  [("count".toList, .natural d.count), ("samples".toList, .array (d.samples.map Sample.toJson))]

def toJson (d : Detection) : Json := .object d.fields

def ofJson? (json : Json) : Option Detection :=
  match json.record? ["count", "samples"] with
  | some [count, samples] => do
    return ⟨← count.nat? Natural.max64, ← (← samples.items?).mapM Sample.ofJson?⟩
  | _ => none

end Detection

namespace Outcome

def toJson : Outcome → Json
  | detected detection => .object (("status".toList, .ofString "detected") :: detection.fields)
  | skipped reason =>
    .object [("status".toList, .ofString "skipped"), ("reason".toList, reason.toJson)]

/-- How many levels of arrays and objects an outcome may have. -/
def maxLevels : Nat := 127

/-- Reads the record of an outcome that has said which of the two it is. -/
def ofRecord? (status : List Char) (record : Json) : Option Outcome :=
  if status = "detected".toList then (Detection.ofJson? record).map detected
  else if status = "skipped".toList then (SkipReason.ofRecord? record).map skipped
  else none

def ofJson? (json : Json) : Option Outcome :=
  if json.isWithin maxLevels then
    (json.tagged? "status").bind fun (status, record) => ofRecord? status record
  else none

/-- Writes an outcome as JSON text. -/
def encode (o : Outcome) : List Char := o.toJson.compact

/-- Reads an outcome from JSON text. -/
def decode? (text : List Char) : Option Outcome := (Json.read? text).bind ofJson?

end Outcome

namespace Sampling

def ofJson? (json : Json) : Option Sampling :=
  match json.record? ["probability", "context_margin", "seed"] with
  | some [probability, margin, seed] => do
    return ⟨← probability.binary64?, ← margin.nat? Natural.max64,
      UInt64.ofNat (← seed.nat? Natural.max64)⟩
  | _ => none

end Sampling

namespace OutputFormat

def caseName : OutputFormat → String
  | table => "Table"
  | csv => "Csv"
  | tsv => "Tsv"
  | json => "Json"
  | jsonl => "Jsonl"
  | yaml => "Yaml"

def cases : List (String × OutputFormat) :=
  [table, csv, tsv, json, jsonl, yaml].map fun f => (f.caseName, f)

def toJson (f : OutputFormat) : Json := .ofString f.caseName

def ofJson? : Json → Option OutputFormat := Json.choice? cases

end OutputFormat

namespace OutputMode

def caseName : OutputMode → String
  | full => "Full"
  | totalOnly => "TotalOnly"

def cases : List (String × OutputMode) :=
  [full, totalOnly].map fun m => (m.caseName, m)

def toJson (m : OutputMode) : Json := .ofString m.caseName

def ofJson? : Json → Option OutputMode := Json.choice? cases

end OutputMode

namespace SortKey

def caseName : SortKey → String
  | path => "Path"
  | count => "Count"

def cases : List (String × SortKey) :=
  [path, count].map fun k => (k.caseName, k)

def toJson (k : SortKey) : Json := .ofString k.caseName

def ofJson? : Json → Option SortKey := Json.choice? cases

end SortKey

namespace Summary

def fields (s : Summary) : List (List Char × Json) :=
  [("files".toList, .natural s.files), ("counted_files".toList, .natural s.countedFiles),
   ("lambdas".toList, .natural s.lambdas), ("skipped_files".toList, .natural s.skippedFiles),
   ("skipped_decode".toList, .natural s.skippedDecode),
   ("skipped_malformed".toList, .natural s.skippedMalformed)]

def toJson (s : Summary) : Json := .object s.fields

end Summary

namespace FileReport

/-- What is said about a file beside its path. Samples are left out where there are none. -/
def detailFields (r : FileReport) : List (List Char × Json) :=
  (match r.status with
    | .counted count =>
      [("status".toList, .ofString "counted"), ("count".toList, .natural count)]
    | .skipped reason =>
      [("status".toList, .ofString "skipped"), ("reason".toList, reason.toJson)]) ++
  if r.samples = [] then []
  else [("samples".toList, .array (r.samples.map Sample.toJson))]

/-- The fields of a report. A path that is not UTF-8 has no JSON form. -/
def fields? (r : FileReport) : Option (List (List Char × Json)) :=
  r.path.text?.map fun path => ("path".toList, .string path) :: r.detailFields

def toJson? (r : FileReport) : Option Json := r.fields?.map .object

end FileReport
end LambdaTally
