import LambdaTally.Output.Delimited
import LambdaTally.Output.JsonDocument
import LambdaTally.Output.JsonLines
import LambdaTally.Output.Samples
import LambdaTally.Output.Table
import LambdaTally.Output.YamlDocument

/-!
# LambdaTally.Output

Writing a result in the format that was asked for.
-/

namespace LambdaTally
namespace Output

def write (format : OutputFormat) (mode : OutputMode) (jobs : Nat) (reports : List FileReport) :
    Written :=
  match format with
  | .table => .done (Table.write mode jobs reports)
  | .csv => .done (Delimited.write [','] mode reports)
  | .tsv => .done (Delimited.write ['\t'] mode reports)
  | .json => JsonDocument.write mode reports
  | .jsonl => JsonLines.write mode reports
  | .yaml => YamlDocument.write mode reports

end Output
end LambdaTally
