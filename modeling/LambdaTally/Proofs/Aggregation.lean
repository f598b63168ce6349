import LambdaTally.Number.Natural
import LambdaTally.Report
import Mathlib.Algebra.BigOperators.Group.List.Basic
import Mathlib.Algebra.GroupWithZero.Nat
import Mathlib.Data.List.Perm.Basic

/-!
# LambdaTally.Proofs.Aggregation

Totals over reports. Totals are merged two at a time, and nothing says which two, in which order, or
whether empty ones are among them: a `Merging` is one way to do it. Merging is associative and
commutative, so all mergings of the same reports come to the same. The totals of counted and of skipped
files add up to those of all files, which merging keeps (`Balanced`), so the number of files and the
number of lambdas bound every total, and no sum on the way is greater than the last one
(`totals_of_merging`).
-/

namespace LambdaTally

open scoped List

namespace Summary

/-- The six totals. -/
def parts (s : Summary) : List Nat :=
  [s.files, s.countedFiles, s.lambdas, s.skippedFiles, s.skippedDecode, s.skippedMalformed]

/-- The totals of two sets of files together, if none of the six sums goes past a bound. -/
def merge? (bound : Nat) (a b : Summary) : Option Summary :=
  if (a.merge b).parts.all (· ≤ bound) then some (a.merge b) else none

/-- A file is counted or skipped, and skipped for one of two reasons. -/
structure Balanced (s : Summary) : Prop where
  files : s.files = s.countedFiles + s.skippedFiles
  skipped : s.skippedFiles = s.skippedDecode + s.skippedMalformed

variable {a b : Summary} {reports more : List FileReport}

theorem balanced_empty : Balanced empty := ⟨rfl, rfl⟩

theorem balanced_ofReport (r : FileReport) : Balanced (ofReport r) := by
  unfold ofReport
  split <;> exact ⟨rfl, rfl⟩

theorem Balanced.merge (ha : a.Balanced) (hb : b.Balanced) : (a.merge b).Balanced := by
  obtain ⟨files, skipped⟩ := ha
  obtain ⟨files', skipped'⟩ := hb
  constructor
  · simp only [Summary.merge]
    omega
  · simp only [Summary.merge]
    omega

/-- Balanced totals fit as soon as the files and the lambdas do. -/
theorem Balanced.parts_le {bound : Nat} (h : a.Balanced) (files : a.files ≤ bound)
    (lambdas : a.lambdas ≤ bound) : a.parts.all (· ≤ bound) = true := by
  obtain ⟨all, skipped⟩ := h
  simp only [parts, List.all_cons, List.all_nil, Bool.and_true, Bool.and_eq_true, decide_eq_true_eq]
  omega

theorem merge_assoc (a b c : Summary) : (a.merge b).merge c = a.merge (b.merge c) := by
  simp only [Summary.merge, Nat.add_assoc]

theorem merge_comm (a b : Summary) : a.merge b = b.merge a := by
  simp only [Summary.merge, Nat.add_comm]

theorem merge_empty (a : Summary) : a.merge empty = a := rfl

theorem empty_merge (a : Summary) : empty.merge a = a := (merge_comm empty a).trans (merge_empty a)

theorem foldl_merge (total : Summary) (reports : List FileReport) :
    reports.foldl (fun total r => total.merge (ofReport r)) total = total.merge (ofReports reports) := by
  induction reports generalizing total with
  | nil => rfl
  | cons r reports ih =>
    rw [ofReports, List.foldl_cons, List.foldl_cons, ih, ih (empty.merge _), merge_assoc, empty_merge]

theorem ofReports_cons (r : FileReport) (reports : List FileReport) :
    ofReports (r :: reports) = (ofReport r).merge (ofReports reports) := by
  rw [ofReports, List.foldl_cons, foldl_merge, empty_merge]

theorem ofReports_append (reports more : List FileReport) :
    ofReports (reports ++ more) = (ofReports reports).merge (ofReports more) := by
  rw [ofReports, List.foldl_append, foldl_merge]
  rfl

theorem ofReports_perm (h : reports ~ more) : ofReports reports = ofReports more := by
  induction h with
  | nil => rfl
  | cons r _ ih => rw [ofReports_cons, ofReports_cons, ih]
  | swap r r' rest =>
    rw [ofReports_cons, ofReports_cons, ofReports_cons, ofReports_cons, ← merge_assoc, ← merge_assoc,
      merge_comm (ofReport r')]
  | trans _ _ ih ih' => rw [ih, ih']

theorem balanced_ofReports (reports : List FileReport) : (ofReports reports).Balanced := by
  induction reports with
  | nil => exact balanced_empty
  | cons r reports ih =>
    rw [ofReports_cons]
    exact (balanced_ofReport r).merge ih

theorem files_ofReports (reports : List FileReport) : (ofReports reports).files = reports.length := by
  induction reports with
  | nil => rfl
  | cons r reports ih =>
    have one : (ofReport r).files = 1 := by
      unfold ofReport
      split <;> rfl
    rw [ofReports_cons, Summary.merge, one, ih, List.length_cons, Nat.add_comm]

/-- The lambdas of the counted files among some reports, all together. -/
def lambdasOf (reports : List FileReport) : Nat := (reports.filterMap FileReport.count?).sum

theorem lambdasOf_append (reports more : List FileReport) :
    lambdasOf (reports ++ more) = lambdasOf reports + lambdasOf more := by
  rw [lambdasOf, List.filterMap_append, List.sum_append]
  rfl

theorem lambdasOf_perm (h : reports ~ more) : lambdasOf reports = lambdasOf more :=
  (h.filterMap _).sum_eq

theorem lambdas_ofReports (reports : List FileReport) :
    (ofReports reports).lambdas = lambdasOf reports := by
  induction reports with
  | nil => rfl
  | cons r reports ih =>
    have own : (ofReport r).lambdas = lambdasOf [r] := by
      obtain ⟨path, status, samples⟩ := r
      cases status with
      | counted count => rfl
      | skipped reason => cases reason <;> rfl
    rw [ofReports_cons, Summary.merge, own, ih, ← lambdasOf_append]
    rfl

end Summary

/-- A way to merge the totals of reports, with empty totals anywhere among them. -/
inductive Merging where
  | nothing
  | one (r : FileReport)
  | both (left right : Merging)

namespace Merging

/-- The reports in the order in which they stand. -/
def reports : Merging → List FileReport
  | nothing => []
  | one r => [r]
  | both left right => left.reports ++ right.reports

/-- What the merging comes to, if no sum on the way goes past a bound. -/
def total? (bound : Nat) : Merging → Option Summary
  | nothing => some .empty
  | one r => some (.ofReport r)
  | both left right => do (← left.total? bound).merge? bound (← right.total? bound)

theorem total?_eq {bound : Nat} (merging : Merging)
    (lambdas : Summary.lambdasOf merging.reports ≤ bound) (files : merging.reports.length ≤ bound) :
    merging.total? bound = some (.ofReports merging.reports) := by
  induction merging with
  | nothing => rfl
  | one r => rw [total?, reports, Summary.ofReports_cons]; rfl
  | both left right ihl ihr =>
    rw [reports] at lambdas files ⊢
    have lambdas_split := Summary.lambdasOf_append left.reports right.reports
    have files_split : (left.reports ++ right.reports).length = _ := List.length_append
    have merged := Summary.ofReports_append left.reports right.reports
    -- The parts of a sum are no greater than the sum.
    have one := ihl (by omega) (by omega)
    have other := ihr (by omega) (by omega)
    have fits : ((Summary.ofReports left.reports).merge (.ofReports right.reports)).parts.all
        (· ≤ bound) = true := by
      rw [← merged]
      refine (Summary.balanced_ofReports _).parts_le ?_ ?_
      · rwa [Summary.files_ofReports]
      · rwa [Summary.lambdas_ofReports]
    rw [total?, one, other, merged]
    exact if_pos fits

end Merging

/-- **Totals do not depend on how they are put together.** However the totals of some reports are
merged, in any order and with empty totals anywhere, no sum goes past a bound that holds for the number
of reports and for all lambdas together, and what comes out is the same. (With words of 64 bits the
number of reports is no condition: a list that fits in memory has fewer.) The files are then the
reports, each counted or skipped, for one of two reasons, and the lambdas are those of the counted
files. -/
theorem totals_of_merging (bound : Nat) {reports : List FileReport} (merging : Merging)
    (same : merging.reports ~ reports) (files : reports.length ≤ bound)
    (lambdas : (reports.filterMap FileReport.count?).sum ≤ bound) :
    let total := Summary.ofReports reports
    merging.total? bound = some total ∧
      total.files = reports.length ∧
      total.files = total.countedFiles + total.skippedFiles ∧
      total.skippedFiles = total.skippedDecode + total.skippedMalformed ∧
      total.lambdas = (reports.filterMap FileReport.count?).sum := by
  intro total
  have balanced := Summary.balanced_ofReports reports
  refine ⟨?_, Summary.files_ofReports reports, balanced.files, balanced.skipped,
    Summary.lambdas_ofReports reports⟩
  rw [merging.total?_eq, Summary.ofReports_perm same]
  · rwa [Summary.lambdasOf_perm same]
  · rwa [same.length_eq]

/-- Four reports merged from both ends, with as many lambdas as a word of 64 bits can hold. -/
theorem totals_of_merging_full :
    let counted (count : Nat) : FileReport := ⟨.ofString "a.cpp", .counted count, []⟩
    let skipped (reason : SkipReason) : FileReport := ⟨.ofString "b.cpp", .skipped reason, []⟩
    let reports := [counted (Natural.max64 - 1), skipped .decodeError, counted 1,
      skipped .malformedBrackets]
    let merging : Merging := .both
      (.both (.one (skipped .malformedBrackets)) (.both .nothing (.one (counted (Natural.max64 - 1)))))
      (.both (.one (counted 1)) (.one (skipped .decodeError)))
    merging.reports ~ reports ∧ reports.length ≤ Natural.max64 ∧
      (reports.filterMap FileReport.count?).sum ≤ Natural.max64 ∧
      merging.total? Natural.max64 = some ⟨4, 2, Natural.max64, 2, 1, 1⟩ := by
  intro counted skipped reports merging
  have same : merging.reports ~ reports := by decide +kernel
  have files : reports.length ≤ Natural.max64 := by decide +kernel
  have lambdas : (reports.filterMap FileReport.count?).sum ≤ Natural.max64 := by decide +kernel
  obtain ⟨total, -⟩ := totals_of_merging Natural.max64 merging same files lambdas
  exact ⟨same, files, lambdas, total.trans (by decide +kernel)⟩

end LambdaTally
