import LambdaTally.Proofs.Source.Locality
import LambdaTally.Proofs.Structural.SquareTable

/-!
# LambdaTally.Proofs.Structural.Steps

Runs of the loop that reduces a source. `Steps` is the loop from one place and draft to another, and
`reduceFrom` is what it ends with (`Steps.reduceFrom_eq`). A run on a source is a run on the source
among others, up to a place where either all that follows is left over (`Steps.of_within`) or a line
break still comes (`Steps.within`). The rest of a source gives the same text wherever it stands, with
the offsets of its brackets moved (`reduceFrom_within`).
-/

namespace LambdaTally
namespace Structural

open Cursor

variable {c e g : Cursor} {d f : Draft} {piece : Piece} {source behind : List Char} {k : Nat}

theorem reduceFrom_end (h : Piece.read? c d.lineStart d.word = none) : reduceFrom c d = d := by
  rw [reduceFrom]
  split
  · rfl
  · rename_i found
    rw [h] at found
    cases found

theorem reduceFrom_step (h : Piece.read? c d.lineStart d.word = some (piece, e)) :
    reduceFrom c d = reduceFrom e (d.add piece) := by
  rw [reduceFrom]
  split
  · rename_i none_here
    rw [h] at none_here
    cases none_here
  · rename_i found
    rw [h] at found
    cases found
    rfl

/-- The loop comes from one place and draft to another. -/
inductive Steps : Cursor → Draft → Cursor → Draft → Prop where
  | refl {c : Cursor} {d : Draft} : Steps c d c d
  | cons {c e g : Cursor} {d f : Draft} {piece : Piece} :
      Piece.read? c d.lineStart d.word = some (piece, e) → Steps e (d.add piece) g f →
      Steps c d g f

namespace Steps

theorem single (h : Piece.read? c d.lineStart d.word = some (piece, e)) :
    Steps c d e (d.add piece) := .cons h .refl

theorem trans {h : Cursor} {i : Draft} (first : Steps c d e f) (later : Steps e f h i) :
    Steps c d h i := by
  induction first with
  | refl => exact later
  | cons hr _ ih => exact .cons hr (ih later)

theorem reduceFrom_eq (h : Steps c d e f) : reduceFrom c d = reduceFrom e f := by
  induction h with
  | refl => rfl
  | cons hr _ ih => rw [reduceFrom_step hr, ih]

theorem leads (h : Steps c d e f) : c.Leads e := by
  induction h with
  | refl => exact .refl _
  | cons hr _ ih => exact (Piece.read?_spec hr).1.trans ih

theorem length_le (h : Steps c d e f) : e.rest.length ≤ c.rest.length := by
  induction h with
  | refl => exact Nat.le_refl _
  | cons hr _ ih => exact Nat.le_trans ih (Nat.le_of_lt (Piece.read?_length_lt hr))

theorem traced (h : Steps c d e f) (before : d.Traced source c) : f.Traced source e := by
  induction h with
  | refl => exact before
  | cons hr _ ih => exact ih (before.add hr)

end Steps

theorem shift_zero (piece : Piece) : piece.shift 0 = piece := by
  cases piece <;> rfl

/-- A run among others that leaves all that follows is a run on the source alone. -/
theorem Steps.of_within (sealed : Sealed c.rest behind) (h : Steps (c.within 0 behind) d g f)
    (keeps : behind.length ≤ g.rest.length) :
    ∃ e, Steps c d e f ∧ g = e.within 0 behind := by
  generalize start : c.within 0 behind = a at h
  induction h generalizing c with
  | refl => exact ⟨c, .refl, start.symm⟩
  | @cons a e g d f piece hr later ih =>
    subst start
    have left : behind.length ≤ e.rest.length := Nat.le_trans keeps later.length_le
    have nonempty : c.rest ≠ [] := by
      intro empty
      have shorter := Piece.read?_length_lt hr
      simp only [Cursor.within, empty, List.nil_append] at shorter
      omega
    obtain ⟨⟨p, x⟩, here, placed⟩ := Piece.read?_of_within sealed nonempty hr left
    cases placed
    rw [shift_zero] at ih later
    obtain ⟨y, steps, rfl⟩ :=
      ih (sealed.reaches (Piece.read?_spec here).1.reaches) keeps rfl
    exact ⟨y, .cons here steps, rfl⟩

/-- A run on the source alone, with a line break still to come, is a run among others. -/
theorem Steps.within (sealed : Sealed c.rest behind) (h : Steps c d e f) (lined : e.Lined) :
    Steps (c.within 0 behind) d (e.within 0 behind) f := by
  induction h with
  | refl => exact .refl
  | @cons c x e d f piece hr later ih =>
    have leads := (Piece.read?_spec hr).1
    have there := Piece.read?_within (k := 0) sealed hr (lined.of_leads later.leads)
    have steps := ih (sealed.reaches leads.reaches) lined
    rw [← shift_zero piece] at steps
    exact .cons there steps

/-! ## The rest of a source -/

/-- The entry of a bracket in a source that starts further back. -/
def moved (k : Nat) (entry : Nat × Nat) : Nat × Nat := (entry.1, entry.2 + k)

/-- The draft with brackets found further on, and others before them. -/
def Draft.moved (k : Nat) (earlier : List (Nat × Nat)) (d : Draft) : Draft :=
  { d with squares := d.squares.map (Structural.moved k) ++ earlier }

variable {earlier : List (Nat × Nat)}

theorem Draft.moved_space (k : Nat) (earlier : List (Nat × Nat)) (d : Draft) :
    (d.moved k earlier).space = d.space.moved k earlier := by
  by_cases ends : d.written.head? = some ' '
  · have ends' : (d.moved k earlier).written.head? = some ' ' := ends
    rw [Draft.space, Draft.space, if_pos ends, if_pos ends']
    rfl
  · have ends' : ¬ (d.moved k earlier).written.head? = some ' ' := ends
    rw [Draft.space, Draft.space, if_neg ends, if_neg ends']
    rfl

theorem Draft.moved_add (k : Nat) (earlier : List (Nat × Nat)) (d : Draft) (piece : Piece) :
    (d.moved k earlier).add (piece.shift k) = (d.add piece).moved k earlier := by
  cases piece with
  | newline => simp only [Piece.shift, Draft.add, moved_space]; rfl
  | blank => exact moved_space k earlier d
  | blockComment => exact moved_space k earlier d
  | _ => rfl

/-- What a source reduces to from a place on does not depend on where the source starts and on the
brackets before, but for the offsets. -/
theorem reduceFrom_within (c : Cursor) (d : Draft) (k : Nat) (earlier : List (Nat × Nat)) :
    reduceFrom (c.within k []) (d.moved k earlier) = (reduceFrom c d).moved k earlier := by
  fun_induction reduceFrom c d with
  | case1 c d at_end =>
    refine reduceFrom_end ?_
    rw [Piece.read?_moved]
    exact Option.map_eq_none_iff.2 at_end
  | case2 c d piece next hr ih =>
    have there : Piece.read? (c.within k []) (d.moved k earlier).lineStart
        (d.moved k earlier).word = some (piece.shift k, next.within k []) := by
      change Piece.read? (c.within k []) d.lineStart d.word = _
      rw [Piece.read?_moved, hr]
      rfl
    rw [reduceFrom_step there, Draft.moved_add, ih]

theorem reduceFrom_skipSplices (offset : Nat) (rest : List Char) (d : Draft) :
    reduceFrom (skipSplices offset rest) d =
      (reduceFrom (skipSplices 0 rest) { d with squares := [] }).moved offset d.squares := by
  have place : skipSplices offset rest = (skipSplices 0 rest).within offset [] := by
    have moved := skipSplices_within (.nil rest) 0 offset
    rwa [Nat.zero_add, List.append_nil] at moved
  rw [place, ← reduceFrom_within]
  rfl

/-! ## A whole source -/

/-- In its run on the source the loop stands at the place with the draft written. -/
def Visits (source : List Char) (c : Cursor) (d : Draft) : Prop := Steps (.ofSource source) .empty c d

theorem ofSource_within {source behind : List Char} (sealed : Sealed source behind) :
    Cursor.ofSource (source ++ behind) = (Cursor.ofSource source).within 0 behind :=
  skipSplices_within sealed 0 0

theorem reaches_ofSource (source : List Char) :
    (⟨0, source⟩ : Cursor).Reaches (.ofSource source) := reaches_skipSplices 0 source

theorem sealed_ofSource (sealed : Sealed source behind) :
    Sealed (Cursor.ofSource source).rest behind := by
  have start : Sealed (⟨0, source⟩ : Cursor).rest behind := sealed
  exact start.reaches (reaches_ofSource source)

namespace Visits

theorem ofSource_eq (h : Visits source c d) : ofSource source = (reduceFrom c d).finish :=
  congrArg Draft.finish (Steps.reduceFrom_eq h)

theorem reaches (h : Visits source c d) : (⟨0, source⟩ : Cursor).Reaches c :=
  (reaches_ofSource source).trans (Steps.leads h).reaches

theorem before (h : Visits source c d) : ∀ entry ∈ d.squares, entry.2 < c.offset :=
  (Steps.traced h ⟨reaches_ofSource source, by simp [Draft.empty], by simp [Draft.empty],
    by simp [Draft.empty]⟩).before

/-- Where the loop stands right behind a text, it has written what the text reduces to, whatever
follows. -/
theorem past {front behind : List Char} (h : Visits (front ++ behind) c d)
    (here : c.offset = Utf8.byteLength front) (sealed : Sealed front behind) :
    c = ⟨Utf8.byteLength front, behind⟩ ∧ d = reduceFrom (.ofSource front) .empty := by
  have rest : c.rest = behind := by
    obtain ⟨taken, whole, offset⟩ := h.reaches
    have same : Utf8.byteLength taken = Utf8.byteLength front := by simpa [here] using offset.symm
    have whole : front ++ behind = taken ++ c.rest := whole
    rw [← dropOctets_byteLength taken c.rest, ← whole, same, dropOctets_byteLength]
  have place : c = ⟨Utf8.byteLength front, behind⟩ := by rw [← here, ← rest]
  rw [Visits, ofSource_within sealed] at h
  obtain ⟨e, steps, rfl⟩ :=
    Steps.of_within (sealed_ofSource sealed) h (Nat.le_of_eq (congrArg _ rest.symm))
  have ended : e.rest = [] := by simpa [Cursor.within] using rest
  have at_end : e.next? = none := by simp [next?, ended]
  exact ⟨place, by rw [steps.reduceFrom_eq, reduceFrom_end (Piece.read?_end at_end)]⟩

end Visits
end Structural
end LambdaTally
