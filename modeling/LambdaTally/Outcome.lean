import LambdaTally.Grammar
import LambdaTally.Sampling

/-!
# LambdaTally.Outcome

What the count of one file comes to. A file is counted if it is UTF-8 and its brackets pair up, and
skipped otherwise; nothing is kept of a skipped file.
-/

namespace LambdaTally

/-- Why a file is left out of the count. -/
inductive SkipReason where
  | decodeError
  | malformedBrackets
  deriving DecidableEq, Repr

/-- The name of a reason in every report. -/
def SkipReason.name : SkipReason → String
  | .decodeError => "decode_error"
  | .malformedBrackets => "malformed_brackets"

/-- The reason of a bracket that does not pair up. -/
def NestingError.skipReason (_ : NestingError) : SkipReason := .malformedBrackets

/-- The lambdas of a file: how many, and those kept for audit. -/
structure Detection where
  count : Nat
  samples : List Sample
  deriving DecidableEq, Repr

inductive Outcome where
  | detected (detection : Detection)
  | skipped (reason : SkipReason)
  deriving DecidableEq, Repr

namespace Outcome

/-- The number of lambdas of a counted file. -/
def count? : Outcome → Option Nat
  | detected detection => some detection.count
  | skipped _ => none

def isSkipped : Outcome → Bool
  | detected _ => false
  | skipped _ => true

def skipReason? : Outcome → Option SkipReason
  | detected _ => none
  | skipped reason => some reason

/-- The samples of a file; a skipped one has none. -/
def samples : Outcome → List Sample
  | detected detection => detection.samples
  | skipped _ => []

end Outcome

/-- The lambdas of a structural text, in the order of its leaves, or the bracket that does not pair
up. -/
def Structural.lambdas (s : Structural) : Except NestingError (List LambdaMatch) :=
  let flattening := s.flatten
  match flattening.failure with
  | none => .ok (flattening.leaves.flatMap Leaf.lambdas)
  | some e => .error e

namespace Outcome

/-- Counts the lambdas of a source. -/
def ofSource (sampling : Sampling) (source : List Char) : Outcome :=
  match (Structural.ofSource source).lambdas with
  | .error e => skipped e.skipReason
  | .ok lambdas =>
    let sampler := lambdas.foldl (fun sampler found => sampler.observe found.offset)
      (Sampler.start source sampling)
    detected ⟨lambdas.length, sampler.samples⟩

/-- Counts the lambdas of a file. -/
def ofOctets (sampling : Sampling) (octets : List UInt8) : Outcome :=
  match Utf8.decode? octets with
  | some source => ofSource sampling source
  | none => skipped .decodeError

end Outcome
end LambdaTally
