import LambdaTally.Proofs.Source.Reach

/-!
# LambdaTally.Proofs.Source.Logical

The logical characters of a source: those that reading on from its start delivers (`Cursor.deliveries`),
which are the ones that are left when a single pass takes out the splices (`logical_ofSource`).
-/

namespace LambdaTally
namespace Cursor

open Utf8

variable {c d : Cursor} {ch : Char}

/-- What reading on character by character delivers: each one with the offset where it stands. -/
def deliveries (c : Cursor) : List (Nat × Char) :=
  match _h : c.next? with
  | none => []
  | some (ch, d) => (c.offset, ch) :: deliveries d
termination_by c.rest.length
decreasing_by exact next?_length_lt _h

/-- The logical characters from the place on. -/
def logical (c : Cursor) : List Char := c.deliveries.map Prod.snd

theorem deliveries_end (h : c.next? = none) : c.deliveries = [] := by
  rw [deliveries]
  split
  · rfl
  · rename_i found
    rw [h] at found
    cases found

theorem deliveries_next (h : c.next? = some (ch, d)) :
    c.deliveries = (c.offset, ch) :: d.deliveries := by
  rw [deliveries]
  split
  · rename_i none_here
    rw [h] at none_here
    cases none_here
  · rename_i found
    rw [h] at found
    cases found
    rfl

theorem logical_end (h : c.next? = none) : c.logical = [] := by
  rw [logical, deliveries_end h]
  rfl

theorem logical_next (h : c.next? = some (ch, d)) : c.logical = ch :: d.logical := by
  rw [logical, deliveries_next h]
  rfl

theorem logical_of_reads {chars : List Char} (h : c.Reads chars d) :
    c.logical = chars ++ d.logical := by
  induction h with
  | nil => rfl
  | cons next _ ih => rw [logical_next next, ih, List.cons_append]

/-- The logical characters of a source are what one pass that takes out its splices leaves. -/
theorem logical_ofSource (source : List Char) :
    (Cursor.ofSource source).logical = unspliced source := by
  have reads := reads_unspliced (.nil source) 0
  rw [List.append_nil] at reads
  have at_end : (skipSplices (0 + byteLength source) []).next? = none := rfl
  rw [Cursor.ofSource, logical_of_reads reads, logical_end at_end, List.append_nil]

end Cursor
end LambdaTally
