import LambdaTally.Source.Piece

/-!
# LambdaTally.Structural

Structural text: a source reduced to what its brackets need. Comments and directives are gone,
literals are empty, and every run of blanks is one space. Beside the text stands, for each `[` in
it, the offset where that bracket was written.

`ofSource` reduces a source; `ofText` takes a text as structural as it stands.
-/

namespace LambdaTally

/-- A structural text. `squares` pairs the position of each `[` of the text with the offset of that
bracket in the source, in ascending order. -/
structure Structural where
  text : List Char
  squares : List (Nat × Nat)
  deriving DecidableEq, Repr

namespace Structural

/-- The offset in the source of the `[` at a position of the text. -/
def originOf? (s : Structural) (position : Nat) : Option Nat := s.squares.lookup position

/-- The positions of `[` in a text, on from a position. -/
def squarePositions : (position : Nat) → List Char → List Nat
  | _, [] => []
  | position, ch :: rest =>
    if ch = '[' then position :: squarePositions (position + ch.utf8Size) rest
    else squarePositions (position + ch.utf8Size) rest

/-- A text that is already structural: each `[` was written where it stands. -/
def ofText (text : List Char) : Structural :=
  ⟨text, (squarePositions 0 text).map fun position => (position, position)⟩

/-- Structural text being written, latest character and latest bracket first. `lineStart` says that
nothing but blanks has stood on the source line, `word` what the last character belongs to. -/
structure Draft where
  written : List Char
  length : Nat
  squares : List (Nat × Nat)
  word : Word
  lineStart : Bool
  deriving DecidableEq, Repr

namespace Draft

def empty : Draft := ⟨[], 0, [], .none, true⟩

/-- Writes a character. -/
def push (d : Draft) (ch : Char) : Draft :=
  { d with
    written := ch :: d.written
    length := d.length + ch.utf8Size
    word := d.word.after ch }

/-- Writes a space, unless the text ends in one. -/
def space (d : Draft) : Draft :=
  if d.written.head? = some ' ' then { d with word := .none }
  else { d with written := ' ' :: d.written, length := d.length + 1, word := .none }

/-- Writes the quote inside a number; the number goes on after it. -/
def digitSeparator (d : Draft) : Draft :=
  { d with written := '\'' :: d.written, length := d.length + 1 }

/-- Writes a `[` that the source has at `offset`. -/
def square (d : Draft) (offset : Nat) : Draft :=
  { d with squares := (d.length, offset) :: d.squares }.push '['

/-- What a piece of source leaves in the structural text. Literals leave their quotes; a block
comment counts as a blank, so what follows it still stands at the start of its line. -/
def add (d : Draft) : Piece → Draft
  | .newline => { d.space with lineStart := true }
  | .blank => d.space
  | .blockComment => d.space
  | .directive => { d with lineStart := false }
  | .lineComment => { d with lineStart := false }
  | .string => { (d.push '"').push '"' with lineStart := false }
  | .rawString => { (d.push '"').push '"' with lineStart := false }
  | .character => { (d.push '\'').push '\'' with lineStart := false }
  | .digitSeparator => { d.digitSeparator with lineStart := false }
  | .square offset => { d.square offset with lineStart := false }
  | .plain ch => { d.push ch with lineStart := false }

def finish (d : Draft) : Structural := ⟨d.written.reverse, d.squares.reverse⟩

end Draft

/-- Writes what the source from the cursor on leaves. -/
def reduceFrom (c : Cursor) (d : Draft) : Draft :=
  match _h : Piece.read? c d.lineStart d.word with
  | none => d
  | some (piece, next) => reduceFrom next (d.add piece)
termination_by c.rest.length
decreasing_by exact Piece.read?_length_lt _h

/-- The structural text of a source. -/
def ofSource (source : List Char) : Structural :=
  (reduceFrom (.ofSource source) .empty).finish

end Structural
end LambdaTally
