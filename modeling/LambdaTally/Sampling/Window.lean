/-!
# LambdaTally.Sampling.Window

The lines around a place in a source: the line of the place, and up to `margin` lines on either
side, as one stretch of the source. A line that the source does not have counts for nothing.

The source is split at the place into what stands before it, latest character first, and what
stands after it; the window takes lines from both parts away from the place.
-/

namespace LambdaTally
namespace Window

/-- Splits a text before the first character that starts at or after `offset` octets. What stands
before comes latest first, on top of `before`. -/
def split (before : List Char) : (offset : Nat) → List Char → List Char × List Char
  | 0, text => (before, text)
  | _ + 1, [] => (before, [])
  | offset + 1, ch :: rest => split (ch :: before) (offset + 1 - ch.utf8Size) rest

/-- The characters up to the line break that follows `breaks` others. -/
def takeLines : (breaks : Nat) → List Char → List Char
  | _, [] => []
  | 0, ch :: rest => if ch = '\n' then [] else ch :: takeLines 0 rest
  | breaks + 1, ch :: rest =>
    if ch = '\n' then ch :: takeLines breaks rest else ch :: takeLines (breaks + 1) rest

/-- The lines around an offset of a source. -/
def around (source : List Char) (offset margin : Nat) : List Char :=
  let (before, after) := split [] offset source
  (takeLines margin before).reverse ++ takeLines margin after

end Window
end LambdaTally
