import LambdaTally.Sampling.Stream
import LambdaTally.Sampling.Window
import LambdaTally.Text.Utf8

/-!
# LambdaTally.Sampling

Audit samples: each lambda of a file is drawn with a small probability, and the lines around a drawn
one are kept. Draws come from a stream that the run seed and the content of the file fix, one draw
for each lambda, so the samples of a file never depend on another file or on the order of work.
-/

namespace LambdaTally

/-- A lambda kept for audit: the offset of its introducer in the source, and the lines around it. -/
structure Sample where
  offset : Nat
  context : List Char
  deriving DecidableEq, Repr

/-- How samples are taken: the probability for one lambda, how many lines are kept on either side,
and the seed of the run. -/
structure Sampling where
  probability : Binary64
  margin : Nat
  seed : UInt64
  deriving DecidableEq, Repr

namespace Sampling

/-- The probability unless another is asked for: one in a thousand. -/
def defaultProbability : Binary64 := .nearest false 1 1000

/-- The lines kept on either side unless another number is asked for. -/
def defaultMargin : Nat := 2

def default : Sampling := ⟨defaultProbability, defaultMargin, 0⟩

/-- No samples at all. -/
def disabled : Sampling := ⟨.zero false, defaultMargin, 0⟩

def withSeed (s : Sampling) (seed : UInt64) : Sampling := { s with seed := seed }

def withProbability (s : Sampling) (probability : Binary64) : Sampling :=
  { s with probability := probability }

/-- Samples are taken as soon as the probability is above zero. -/
def isEnabled (s : Sampling) : Bool := (Binary64.zero false).lt s.probability

end Sampling

/-- The sampler of one file. A disabled one has no stream and never draws. Samples are latest
first. -/
structure Sampler where
  source : List Char
  sampling : Sampling
  stream : Option Stream
  kept : List Sample

namespace Sampler

def start (source : List Char) (sampling : Sampling) : Sampler :=
  let stream :=
    if sampling.isEnabled then
      some (Stream.ofContent sampling.seed ⟨(Utf8.encode source).toArray⟩)
    else none
  ⟨source, sampling, stream, []⟩

/-- Draws once for the lambda at `offset`, and keeps it if the draw is below the probability. -/
def observe (s : Sampler) (offset : Nat) : Sampler :=
  match s.stream with
  | none => s
  | some stream =>
    let (draw, stream) := stream.drawUnit
    if draw.lt s.sampling.probability then
      { s with
        stream := some stream
        kept := ⟨offset, Window.around s.source offset s.sampling.margin⟩ :: s.kept }
    else { s with stream := some stream }

/-- The samples kept, in the order of the draws. -/
def samples (s : Sampler) : List Sample := s.kept.reverse

end Sampler
end LambdaTally
