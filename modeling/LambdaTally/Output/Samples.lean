import LambdaTally.Report

/-!
# LambdaTally.Output.Samples

Samples for audit: the context of each one, between a line that says where it is from and a line
that ends it.
-/

namespace LambdaTally
namespace Samples

def one (path : Path) (s : Sample) : List Char :=
  "<sample path=\"".toList ++ path.display ++ "\" position=\"".toList ++ Nat.toDigits 10 s.offset ++
    "\">\n".toList ++ s.context ++ "\n</sample>\n".toList

/-- Writes every sample of the reports. -/
def write (reports : List FileReport) : List Char :=
  (FileReport.allSamples reports).flatMap fun (path, s) => one path s

end Samples
end LambdaTally
