import LambdaTally.Nesting

/-!
# LambdaTally.Nesting.LeafStream

The leaves of a structural text one call at a time. A call goes on where the last one stopped, up to
the next leaf; after the last leaf, or after the bracket that does not pair up, there is nothing
more to come.
-/

namespace LambdaTally

/-- A pass through a structural text between two calls. -/
structure LeafStream where
  nesting : Nesting
  rest : List Char
  finished : Bool
  deriving DecidableEq, Repr

namespace LeafStream

/-- Before the first call. -/
def start (s : Structural) : LeafStream := ⟨.start s, s.text, false⟩

/-- Goes on through a text up to the next leaf. -/
def advance (n : Nesting) : List Char → Option (Except NestingError Leaf) × LeafStream
  | [] =>
    match n.finish with
    | .ok leaf => (leaf.map .ok, ⟨n, [], true⟩)
    | .error e => (some (.error e), ⟨n, [], true⟩)
  | ch :: rest =>
    match n.step ch with
    | .ok (m, some leaf) => (some (.ok leaf), ⟨m, rest, false⟩)
    | .ok (m, none) => advance m rest
    | .error e => (some (.error e), ⟨n, rest, true⟩)

/-- One call: its answer, and the stream after it. -/
def next (l : LeafStream) : Option (Except NestingError Leaf) × LeafStream :=
  if l.finished then (none, l) else advance l.nesting l.rest

/-- What the call after `k` others answers. -/
def call (l : LeafStream) : Nat → Option (Except NestingError Leaf)
  | 0 => l.next.1
  | k + 1 => l.next.2.call k

end LeafStream

/-- Everything that a pass delivers, in order: the leaves, and the bracket that ended it early. -/
def Flattening.items (f : Flattening) : List (Except NestingError Leaf) :=
  f.leaves.map .ok ++ (f.failure.map .error).toList

end LambdaTally
