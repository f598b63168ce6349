import LambdaTally.Bracket
import LambdaTally.Structural

/-!
# LambdaTally.Nesting

Bracket nesting, resolved from the inside out in one pass. A group is the text between two brackets
with every group directly inside it replaced by its placeholder; the whole text is the content of
one outermost brace group that no bracket of the text opens or closes. A group that holds another
is a `Leaf`, delivered when it closes; the outermost one comes last.

`flatten` delivers the leaves up to the first bracket that does not pair up, and that bracket.
-/

namespace LambdaTally

/-- The first bracket that does not pair up. Positions are octets of the structural text. -/
inductive NestingError where
  | unexpectedClose (found : Bracket) (position : Nat)
  | mismatched (opened found : Bracket) (position openedAt : Nat)
  | unclosed (opened : Bracket) (openedAt pending : Nat)
  deriving DecidableEq, Repr

/-- The text of a nesting error. -/
def NestingError.message : NestingError → String
  | .unexpectedClose found position =>
    s!"unexpected '{found.closing}' at {position}: no bracket is open"
  | .mismatched opened found position openedAt =>
    s!"'{found.closing}' at {position} does not close '{opened.opening}' opened at {openedAt}"
  | .unclosed opened openedAt pending =>
    s!"{pending} bracket(s) left open at end of input, innermost '{opened.opening}' at {openedAt}"

/-- A group that holds other groups: its kind, its text, and for each `[]` left in the text its
position and the offset in the source of its `[`, in ascending order. -/
structure Leaf where
  kind : Bracket
  text : List Char
  origins : List (Nat × Nat)
  deriving DecidableEq, Repr

/-- The offset in the source of the `[]` at a position of the leaf's text. -/
def Leaf.originAt? (leaf : Leaf) (position : Nat) : Option Nat := leaf.origins.lookup position

/-- A group that is still open, its text and its origins written latest first. `openedAt` is the
position of its bracket in the structural text, `origin` the offset of a `[` in the source. -/
structure Group where
  kind : Bracket
  openedAt : Nat
  origin : Nat
  written : List Char
  length : Nat
  origins : List (Nat × Nat)
  hasChild : Bool
  deriving DecidableEq, Repr

namespace Group

def opened (kind : Bracket) (openedAt origin : Nat) : Group :=
  ⟨kind, openedAt, origin, [], 0, [], false⟩

def push (g : Group) (ch : Char) : Group :=
  { g with written := ch :: g.written, length := g.length + ch.utf8Size }

/-- What stands before `word` at the end of a text written latest first. The word must be whole:
no character of a name may stand right before it. -/
def stripWord? (word : String) (written : List Char) : Option (List Char) :=
  if word.toList.reverse.isPrefixOf written then
    let before := written.drop word.length
    if before.head?.any CharClass.isNameChar then none else some before
  else none

/-- The text, written latest first, ends in `operator`, `operator new` or `operator delete`: a `[]`
after it belongs to the name of an operator. -/
def endsInOperator (written : List Char) : Bool :=
  let text := written.dropWhile CharClass.isBlank
  let head :=
    match (stripWord? "new" text).or (stripWord? "delete" text) with
    | some before => before.dropWhile CharClass.isBlank
    | none => text
  (stripWord? "operator" head).isSome

/-- Takes in a group that has closed. A square group after the name of an operator leaves nothing,
nor do the blanks before it; any other leaves its placeholder. -/
def collapse (g child : Group) : Group :=
  if child.kind = .square ∧ endsInOperator g.written = true then
    let text := g.written.dropWhile CharClass.isBlank
    { g with written := text, length := Utf8.byteLength text, hasChild := true }
  else
    { g with
      written := child.kind.placeholder.reverse ++ g.written
      length := g.length + 2
      origins :=
        if child.kind = .square then (g.length, child.origin) :: g.origins else g.origins
      hasChild := true }

/-- The group as a leaf, if it holds another group. -/
def leaf? (g : Group) : Option Leaf :=
  if g.hasChild then some ⟨g.kind, g.written.reverse, g.origins.reverse⟩ else none

end Group

/-- The groups open at a position: the outermost one, and the others, innermost first. `squares`
are the source offsets of the `[` still to come. -/
structure Nesting where
  position : Nat
  outermost : Group
  pending : List Group
  squares : List Nat
  deriving DecidableEq, Repr

namespace Nesting

/-- Before the first character of a structural text. -/
def start (s : Structural) : Nesting :=
  ⟨0, .opened .brace 0 0, [], s.squares.map Prod.snd⟩

/-- Changes the innermost open group. -/
def modifyTop (n : Nesting) (f : Group → Group) : Nesting :=
  match n.pending with
  | [] => { n with outermost := f n.outermost }
  | top :: rest => { n with pending := f top :: rest }

/-- Opens a group. -/
def openGroup (n : Nesting) (kind : Bracket) : Nesting :=
  match kind, n.squares with
  | .square, origin :: squares =>
    { n with pending := .opened kind n.position origin :: n.pending, squares := squares }
  | _, _ => { n with pending := .opened kind n.position n.position :: n.pending }

/-- Closes the innermost group, which the outermost one is not. -/
def closeGroup (n : Nesting) (kind : Bracket) : Except NestingError (Nesting × Option Leaf) :=
  match n.pending with
  | [] => .error (.unexpectedClose kind n.position)
  | top :: rest =>
    if top.kind = kind then
      .ok (({ n with pending := rest } : Nesting).modifyTop (·.collapse top), top.leaf?)
    else .error (.mismatched top.kind kind n.position top.openedAt)

/-- Takes in a character; a group that closes with it may be a leaf. -/
def step (n : Nesting) (ch : Char) : Except NestingError (Nesting × Option Leaf) :=
  let moved := fun (m : Nesting) => { m with position := m.position + ch.utf8Size }
  match Bracket.ofOpening? ch, Bracket.ofClosing? ch with
  | some kind, _ => .ok (moved (n.openGroup kind), none)
  | none, some kind => (n.closeGroup kind).map fun (m, leaf) => (moved m, leaf)
  | none, none => .ok (moved (n.modifyTop (·.push ch)), none)

/-- At the end of the text every group but the outermost must have closed. -/
def finish (n : Nesting) : Except NestingError (Option Leaf) :=
  match n.pending with
  | [] => .ok n.outermost.leaf?
  | top :: rest => .error (.unclosed top.kind top.openedAt (rest.length + 1))

end Nesting

/-- What a structural text falls into: its leaves, innermost first, and the bracket that ended the
pass early, if any. -/
structure Flattening where
  leaves : List Leaf
  failure : Option NestingError
  deriving DecidableEq, Repr

namespace Flattening

/-- Goes on through a text, with the leaves so far latest first. -/
def run (n : Nesting) (leaves : List Leaf) : List Char → Flattening
  | [] =>
    match n.finish with
    | .ok leaf => ⟨(leaf.toList ++ leaves).reverse, none⟩
    | .error e => ⟨leaves.reverse, some e⟩
  | ch :: rest =>
    match n.step ch with
    | .ok (m, leaf) => run m (leaf.toList ++ leaves) rest
    | .error e => ⟨leaves.reverse, some e⟩

/-- The number of leaves of a text whose brackets all pair up. -/
def count (f : Flattening) : Except NestingError Nat :=
  match f.failure with
  | none => .ok f.leaves.length
  | some e => .error e

end Flattening

/-- The leaves of a structural text. -/
def Structural.flatten (s : Structural) : Flattening := .run (.start s) [] s.text

end LambdaTally
