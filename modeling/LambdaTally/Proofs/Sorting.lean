import LambdaTally.Proofs.Files.PathOrder
import LambdaTally.Report

/-!
# LambdaTally.Proofs.Sorting

Sorted reports. Every order that reports are sorted by is a total preorder, and it tells two of them
apart as soon as their paths have different components. So the sorted list depends on the list before
sorting only where spellings of one path differ (`map_sort_eq_of_perm`).
-/

namespace LambdaTally
namespace FileReport

open Std
open scoped List

variable {key : SortKey} {descending : Bool}

instance : TransCmp (compareBy key descending) := by
  have by_path : TransCmp fun a b : FileReport => a.path.compare b.path := transCmp_comp path
  have by_count : TransCmp fun a b : FileReport => compare a.status.countValue b.status.countValue :=
    transCmp_comp fun r : FileReport => r.status.countValue
  cases key with
  | path =>
    cases descending with
    | false => exact by_path
    | true => exact transCmp_swap fun a b : FileReport => a.path.compare b.path
  | count =>
    cases descending with
    | false =>
      exact inferInstanceAs (TransCmp (compareLex
        (fun a b : FileReport => compare a.status.countValue b.status.countValue)
        fun a b : FileReport => a.path.compare b.path))
    | true =>
      have turned := transCmp_swap fun a b : FileReport =>
        compare a.status.countValue b.status.countValue
      exact inferInstanceAs (TransCmp (compareLex
        (fun a b : FileReport => (compare a.status.countValue b.status.countValue).swap)
        fun a b : FileReport => a.path.compare b.path))

theorem components_of_compareBy {a b : FileReport} (h : compareBy key descending a b = .eq) :
    a.path.components = b.path.components := by
  rw [← Path.compare_eq_iff]
  cases key with
  | path => cases descending <;> simpa [compareBy] using h
  | count => exact (Ordering.then_eq_eq.1 h).2

theorem compareBy_total (a b : FileReport) :
    ((compareBy key descending a b).isLE || (compareBy key descending b a).isLE) = true := by
  have turned : compareBy key descending b a = (compareBy key descending a b).swap :=
    OrientedCmp.eq_swap
  rw [turned]
  cases compareBy key descending a b <;> rfl

theorem pairwise_sort (key : SortKey) (descending : Bool) (reports : List FileReport) :
    (sort key descending reports).Pairwise fun a b => (compareBy key descending a b).isLE :=
  List.pairwise_mergeSort (fun _ _ _ => TransCmp.isLE_trans) compareBy_total reports

/-- Reports that compare equal keep their order, and so do any that stand in order already. -/
theorem sublist_sort {some_reports reports : List FileReport} (part : some_reports <+ reports)
    (ordered : some_reports.Pairwise fun a b => (compareBy key descending a b).isLE) :
    some_reports <+ sort key descending reports :=
  List.sublist_mergeSort (fun _ _ _ => TransCmp.isLE_trans) compareBy_total ordered part

/-- Reports in order stay as they are, those that compare equal among them. -/
theorem sort_of_pairwise {reports : List FileReport}
    (ordered : reports.Pairwise fun a b => (compareBy key descending a b).isLE) :
    sort key descending reports = reports := List.mergeSort_of_pairwise ordered

theorem sort_perm (key : SortKey) (descending : Bool) (reports : List FileReport) :
    sort key descending reports ~ reports := List.mergeSort_perm reports _

/-- What is seen of sorted reports does not depend on their order before, if the order of reports
depends on nothing else and if reports of one path are seen alike. -/
theorem map_sort_eq_of_perm {α : Type} {see : FileReport → α} {one other : List FileReport}
    (same : one ~ other)
    (ordered : ∀ a b a' b', see a = see a' → see b = see b' →
      compareBy key descending a b = compareBy key descending a' b')
    (alike : ∀ a ∈ one, ∀ b ∈ one, a.path.components = b.path.components → see a = see b) :
    (sort key descending one).map see = (sort key descending other).map see := by
  let upto (x y : α) : Prop := ∀ a b, see a = x → see b = y → (compareBy key descending a b).isLE
  have sorted (reports : List FileReport) :
      ((sort key descending reports).map see).Pairwise upto := by
    refine List.pairwise_map.2 ((pairwise_sort key descending reports).imp ?_)
    intro a b below a' b' ha hb
    rw [ordered a' b' a b ha hb]
    exact below
  refine List.Perm.eq_of_pairwise ?_ (sorted one) (sorted other) ?_
  · intro x y hx hy below above
    obtain ⟨a, ha, rfl⟩ := List.mem_map.1 hx
    obtain ⟨b, hb, rfl⟩ := List.mem_map.1 hy
    have tie := OrientedCmp.isLE_antisymm (below a b rfl rfl) (above b a rfl rfl)
    refine alike a ((sort_perm _ _ _).subset ha) b ?_ (components_of_compareBy tie)
    exact same.symm.subset ((sort_perm _ _ _).subset hb)
  · exact ((sort_perm _ _ _).trans (same.trans (sort_perm _ _ _).symm)).map see

/-- Sorted reports do not depend on their order before, if no two of them have the same path under
two spellings. -/
theorem sort_eq_of_perm {one other : List FileReport} (same : one ~ other)
    (alike : ∀ a ∈ one, ∀ b ∈ one, a.path.components = b.path.components → a = b) :
    sort key descending one = sort key descending other := by
  have sorted : (sort key descending one).map id = (sort key descending other).map id := by
    refine map_sort_eq_of_perm same ?_ alike
    rintro a b a' b' rfl rfl
    rfl
  simpa using sorted

end FileReport
end LambdaTally
