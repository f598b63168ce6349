import LambdaTally.Number.Binary64
import LambdaTally.Sampling.ContentHash

/-!
# LambdaTally.Sampling.Stream

The stream of random draws of one file: a linear register of 64 bits, moved by three shifts. Zero
is the one state that never moves, so a stream never starts there.
-/

namespace LambdaTally

/-- A random stream, by the state of its register. -/
structure Stream where
  state : UInt64
  deriving DecidableEq, Repr

namespace Stream

/-- The state that stands in for a seed of zero. -/
def zeroSeed : UInt64 := 0x9E3779B97F4A7C15

/-- The stream of a seed. -/
def ofSeed (seed : UInt64) : Stream := ⟨if seed = 0 then zeroSeed else seed⟩

/-- The stream of a run seed and a content, told apart from the streams of other contents by its
hash. -/
def ofContent (seed : UInt64) (content : ByteArray) : Stream :=
  ofSeed (seed ^^^ ContentHash.hash content)

/-- One move of the register. -/
def step (x : UInt64) : UInt64 :=
  let x := x ^^^ (x <<< 13)
  let x := x ^^^ (x >>> 7)
  x ^^^ (x <<< 17)

/-- The stream after one draw. The word drawn is its state. -/
def next (s : Stream) : Stream := ⟨step s.state⟩

/-- The draw that a state stands for, in units of `2 ^ -53`. -/
def unitNumerator (word : UInt64) : Nat := (word >>> 11).toNat

/-- The draw that a state stands for, as a number in `[0, 1)`. -/
def unit (word : UInt64) : Binary64 := .nearest false (unitNumerator word) (Nat.pow 2 53)

/-- Draws a word of 64 bits. -/
def drawWord (s : Stream) : UInt64 × Stream := (s.next.state, s.next)

/-- Draws a number in `[0, 1)`. -/
def drawUnit (s : Stream) : Binary64 × Stream := (unit s.next.state, s.next)

end Stream
end LambdaTally
