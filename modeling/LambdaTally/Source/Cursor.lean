import LambdaTally.Text.Utf8

/-!
# LambdaTally.Source.Cursor

A place in a source text. A line splice (a backslash right before a line break, with or without a
carriage return) joins two lines and is no part of the program: a cursor never stands before one,
so its characters are the logical ones, while its offset still counts octets of the text as
written.

`next?` delivers one logical character and the cursor after it; `next?_length_lt` says that this
uses up source, which is what every scanner's termination rests on.
-/

namespace LambdaTally

/-- A place in a source: the offset of the place, and the source from there on. -/
structure Cursor where
  offset : Nat
  rest : List Char
  deriving DecidableEq, Repr

namespace Cursor

/-- The place after any splices that stand at `offset`. -/
def skipSplices (offset : Nat) : List Char → Cursor
  | '\\' :: '\n' :: rest => skipSplices (offset + 2) rest
  | '\\' :: '\r' :: '\n' :: rest => skipSplices (offset + 3) rest
  | rest => ⟨offset, rest⟩

/-- The start of a source. -/
def ofSource (source : List Char) : Cursor := skipSplices 0 source

/-- The logical character at the cursor, and the place after it. -/
def next? (c : Cursor) : Option (Char × Cursor) :=
  match c.rest with
  | [] => none
  | ch :: rest => some (ch, skipSplices (c.offset + ch.utf8Size) rest)

/-- Text without its first `n` octets; a character that starts among them goes as a whole. -/
def dropOctets : Nat → List Char → List Char
  | 0, text => text
  | _ + 1, [] => []
  | n + 1, ch :: rest => dropOctets (n + 1 - ch.utf8Size) rest

/-- The place `n` octets of the text as written further on. -/
def jump (c : Cursor) (n : Nat) : Cursor := skipSplices (c.offset + n) (dropOctets n c.rest)

theorem skipSplices_length_le (offset : Nat) (rest : List Char) :
    (skipSplices offset rest).rest.length ≤ rest.length := by
  fun_induction skipSplices offset rest with
  | case1 offset rest ih => simp only [List.length_cons]; omega
  | case2 offset rest ih => simp only [List.length_cons]; omega
  | case3 => exact Nat.le_refl _

theorem next?_length_lt {c d : Cursor} {ch : Char} (h : c.next? = some (ch, d)) :
    d.rest.length < c.rest.length := by
  unfold next? at h
  split at h
  · cases h
  · rename_i rest hr
    cases h
    have := skipSplices_length_le (c.offset + ch.utf8Size) rest
    rw [hr, List.length_cons]
    omega

theorem dropOctets_length_le (n : Nat) (text : List Char) :
    (dropOctets n text).length ≤ text.length := by
  induction text generalizing n with
  | nil => cases n <;> simp [dropOctets]
  | cons ch rest ih =>
    cases n with
    | zero => simp [dropOctets]
    | succ n => exact Nat.le_trans (ih _) (by simp)

theorem dropOctets_length_lt {n : Nat} (hn : 0 < n) {ch : Char} (rest : List Char) :
    (dropOctets n (ch :: rest)).length < (ch :: rest).length := by
  cases n with
  | zero => omega
  | succ n =>
    have := dropOctets_length_le (n + 1 - ch.utf8Size) rest
    simp only [dropOctets, List.length_cons]
    omega

end Cursor
end LambdaTally
