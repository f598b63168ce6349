import LambdaTally.Output.Written
import LambdaTally.Output.YamlScalar
import LambdaTally.Settings

/-!
# LambdaTally.Output.YamlDocument

A result as one YAML document: version, reports and totals. Items of a list stand at the indent of
the key that they belong to.
-/

namespace LambdaTally
namespace YamlDocument

/-- A number under a key. -/
def number (key : String) (n : Nat) : List Char :=
  key.toList ++ ": ".toList ++ Nat.toDigits 10 n ++ ['\n']

/-- A word under a key, one that can stand plain. -/
def word (key value : String) : List Char :=
  key.toList ++ ": ".toList ++ value.toList ++ ['\n']

/-- A text under a key, further lines of it at an indent. -/
def text (indent : Nat) (key : String) (value : List Char) : List Char :=
  key.toList ++ ": ".toList ++ YamlScalar.write indent value

def sample (s : Sample) : List Char :=
  "  - ".toList ++ number "offset" s.offset ++ "    ".toList ++ text 6 "context" s.context

/-- A report with a given path. -/
def report (path : List Char) (r : FileReport) : List Char :=
  "- ".toList ++ text 4 "path" path ++
    (match r.status with
      | .counted count =>
        "  ".toList ++ word "status" "counted" ++ "  ".toList ++ number "count" count
      | .skipped reason =>
        "  ".toList ++ word "status" "skipped" ++ "  ".toList ++ word "reason" reason.name) ++
    if r.samples = [] then [] else "  samples:\n".toList ++ r.samples.flatMap sample

def report? (r : FileReport) : Option (List Char) := r.path.text?.map fun path => report path r

def summary (s : Summary) : List Char :=
  "summary:\n".toList ++ "  ".toList ++ number "files" s.files ++
    "  ".toList ++ number "counted_files" s.countedFiles ++
    "  ".toList ++ number "lambdas" s.lambdas ++
    "  ".toList ++ number "skipped_files" s.skippedFiles ++
    "  ".toList ++ number "skipped_decode" s.skippedDecode ++
    "  ".toList ++ number "skipped_malformed" s.skippedMalformed

/-- The list of reports. -/
def files (reports : List (List Char)) : List Char :=
  if reports = [] then "files: []\n".toList else "files:\n".toList ++ reports.flatten

/-- Writes a result. Nothing is written of one that has a path that is no text. -/
def write (mode : OutputMode) (reports : List FileReport) : Written :=
  let head := word "version" version
  let tail := summary (.ofReports reports)
  match mode with
  | .totalOnly => .done (head ++ tail)
  | .full =>
    match reports.mapM report? with
    | some items => .done (head ++ files items ++ tail)
    | none => ⟨[], some .yamlPath⟩

end YamlDocument
end LambdaTally
