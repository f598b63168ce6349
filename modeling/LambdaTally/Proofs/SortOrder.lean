import LambdaTally.Proofs.Sorting
import LambdaTally.Run

/-!
# LambdaTally.Proofs.SortOrder

The order in which a run shows its reports. Paths stand by their components, counts by their value and
then by path, and what neither tells apart stays as it stood (`sort_order`). If no two reports have the
same path, there is one such order of them, so nothing is left of the order in which they came.

The order of paths is stated without comparing (`Path.UpTo`): one list of components is a beginning of
the other, or it is less where they first differ.
-/

namespace LambdaTally

open Std
open scoped List

theorem compareLex_eq_lt_iff {α : Type} {cmp : α → α → Ordering} [LawfulEqCmp cmp]
    {as bs : List α} : List.compareLex cmp as bs = .lt ↔ List.Lex (fun a b => cmp a b = .lt) as bs := by
  induction as generalizing bs with
  | nil => cases bs <;> simp [List.compareLex]
  | cons a as ih =>
    cases bs with
    | nil => simp [List.compareLex]
    | cons b bs =>
      rw [List.compareLex_cons_cons, Ordering.then_eq_lt, LawfulEqCmp.compare_eq_iff_eq, ih]
      constructor
      · rintro (less | ⟨rfl, later⟩)
        · exact .rel less
        · exact .cons later
      · rintro (_ | less | later)
        · exact .inl less
        · exact .inr ⟨rfl, later⟩

/-- The order of components: by sort, and names by their octets. -/
def Component.Below (a b : Component) : Prop :=
  a.rank < b.rank ∨ a.rank = b.rank ∧ List.Lex (· < ·) a.octets b.octets

theorem Component.compare_eq_lt_iff {a b : Component} : a.compare b = .lt ↔ a.Below b := by
  have octets : (fun x y => compareOctet x y = .lt) = fun x y : UInt8 => x < y :=
    funext₂ fun x y => propext (Nat.compare_eq_lt.trans UInt8.lt_iff_toNat_lt.symm)
  rw [compare_eq, Ordering.then_eq_lt, Nat.compare_eq_lt, Nat.compare_eq_eq, compareOctets_eq,
    compareLex_eq_lt_iff, octets, Below]

namespace Path

/-- Ascending order of paths, component by component. -/
def UpTo (p q : Path) : Prop :=
  p.components = q.components ∨ List.Lex Component.Below p.components q.components

theorem isLE_compare_iff {p q : Path} : (p.compare q).isLE ↔ p.UpTo q := by
  have less : p.compare q = .lt ↔ List.Lex Component.Below p.components q.components := by
    rw [Path.compare, compareComponents_eq, compareLex_eq_lt_iff]
    exact iff_of_eq (congrArg (List.Lex · _ _) (funext₂ fun a b => propext Component.compare_eq_lt_iff))
  rw [Ordering.isLE_iff_eq_lt_or_eq_eq, less, compare_eq_iff, UpTo, or_comm]

theorem isLE_compare_swap_iff {p q : Path} : (p.compare q).swap.isLE ↔ q.UpTo p := by
  have turned : q.compare p = (p.compare q).swap := OrientedCmp.eq_swap
  rw [← turned, isLE_compare_iff]

end Path

namespace FileReport

/-- What sorting promises of a report and one behind it. -/
def InOrder : (key : SortKey) → (descending : Bool) → (a b : FileReport) → Prop
  | .path, false, a, b => a.path.UpTo b.path
  | .path, true, a, b => b.path.UpTo a.path
  | .count, false, a, b =>
    a.status.countValue ≤ b.status.countValue ∧ (b.count? = none → a.count? = none) ∧
      (a.status.countValue = b.status.countValue → a.path.UpTo b.path)
  | .count, true, a, b =>
    b.status.countValue ≤ a.status.countValue ∧ (a.count? = none → b.count? = none) ∧
      (a.status.countValue = b.status.countValue → a.path.UpTo b.path)

/-- Reports that have the same key and, as components, the same path. -/
def Ties (key : SortKey) (a b : FileReport) : Prop :=
  a.path.components = b.path.components ∧
    (key = .count → a.status.countValue = b.status.countValue)

instance (key : SortKey) (a b : FileReport) : Decidable (Ties key a b) :=
  inferInstanceAs (Decidable (_ ∧ _))

variable {key : SortKey} {descending : Bool} {a b : FileReport}

theorem count?_eq_none_iff {r : FileReport} : r.count? = none ↔ r.status.countValue < 0 := by
  obtain ⟨path, status, samples⟩ := r
  cases status with
  | counted count => simp [count?, FileStatus.countValue]
  | skipped reason => simp [count?, FileStatus.countValue]

/-- What is no greater than the value of a skipped report is one of a skipped report. -/
theorem count?_of_le (le : a.status.countValue ≤ b.status.countValue) (skipped : b.count? = none) :
    a.count? = none := by
  rw [count?_eq_none_iff] at skipped ⊢
  omega

/-- Of two numbers in order the next comparison counts only if they are equal. -/
theorem le_of_isLE_then {x y : Int} {next : Ordering} (h : ((compare x y).then next).isLE) :
    x ≤ y ∧ (x = y → next.isLE) := by
  rcases Ordering.isLE_then_iff_or.1 h with less | ⟨equal, later⟩
  · have less := Int.compare_eq_lt.1 less
    exact ⟨less.le, fun same => absurd same less.ne⟩
  · exact ⟨(Int.compare_eq_eq.1 equal).le, fun _ => later⟩

theorem inOrder_of_compareBy (h : (compareBy key descending a b).isLE) : InOrder key descending a b := by
  cases key with
  | path =>
    cases descending with
    | false => exact Path.isLE_compare_iff.1 h
    | true => exact Path.isLE_compare_swap_iff.1 h
  | count =>
    cases descending with
    | false =>
      obtain ⟨le, by_path⟩ := le_of_isLE_then h
      exact ⟨le, count?_of_le le, fun same => Path.isLE_compare_iff.1 (by_path same)⟩
    | true =>
      have turned : ((compare b.status.countValue a.status.countValue).then
          (a.path.compare b.path)).isLE := by
        rw [← Int.compare_swap]
        exact h
      obtain ⟨le, by_path⟩ := le_of_isLE_then turned
      exact ⟨le, count?_of_le le, fun same => Path.isLE_compare_iff.1 (by_path same.symm)⟩

theorem compareBy_eq_iff : compareBy key descending a b = .eq ↔ Ties key a b := by
  have counts : (if descending then (compare a.status.countValue b.status.countValue).swap
      else compare a.status.countValue b.status.countValue) = .eq ↔
      a.status.countValue = b.status.countValue := by
    cases descending <;> simp
  have paths : (if descending then (a.path.compare b.path).swap else a.path.compare b.path) = .eq ↔
      a.path.components = b.path.components := by
    cases descending <;> simp [Path.compare_eq_iff]
  cases key with
  | path => exact paths.trans ⟨fun same => ⟨same, nofun⟩, And.left⟩
  | count =>
    refine Ordering.then_eq_eq.trans ((and_congr counts Path.compare_eq_iff).trans ?_)
    exact ⟨fun ⟨same, path⟩ => ⟨path, fun _ => same⟩, fun ⟨path, same⟩ => ⟨same rfl, path⟩⟩

/-- Reports that tie with one stand in the order in which they stood. -/
theorem filter_ties_sort (a : FileReport) (reports : List FileReport) :
    (sort key descending reports).filter (Ties key a) = reports.filter (Ties key a) := by
  have ordered : (reports.filter (Ties key a)).Pairwise fun b c =>
      (compareBy key descending b c).isLE := by
    refine List.pairwise_of_forall_mem_list fun b hb c hc => ?_
    have ties_b : Ties key a b := by simpa using List.of_mem_filter hb
    have ties_c : Ties key a c := by simpa using List.of_mem_filter hc
    have tie : compareBy key descending b c = .eq := compareBy_eq_iff.2
      ⟨ties_b.1.symm.trans ties_c.1, fun count => (ties_b.2 count).symm.trans (ties_c.2 count)⟩
    rw [tie]
    rfl
  have kept := (sublist_sort (List.filter_sublist (l := reports)) ordered).filter (Ties key a)
  rw [List.filter_filter] at kept
  simp only [Bool.and_self] at kept
  exact (kept.eq_of_length ((sort_perm key descending reports).filter _).length_eq.symm).symm

/-- Descending order of paths is ascending order from behind, if no path comes twice. -/
theorem sort_path_descending {reports : List FileReport}
    (distinct : (reports.map fun r => r.path.components).Nodup) :
    sort .path true reports = (sort .path false reports).reverse := by
  have ordered : (sort .path false reports).reverse.Pairwise fun a b =>
      (compareBy .path true a b).isLE := by
    refine List.pairwise_reverse.2 ((pairwise_sort .path false reports).imp fun {a b} below => ?_)
    exact Path.isLE_compare_swap_iff.2 (Path.isLE_compare_iff.1 below)
  have same : reports ~ (sort .path false reports).reverse :=
    ((List.reverse_perm _).trans (sort_perm .path false reports)).symm
  have alike : ∀ a ∈ reports, ∀ b ∈ reports, a.path.components = b.path.components → a = b :=
    fun _ ha _ hb => List.inj_on_of_nodup_map distinct ha hb
  rw [sort_eq_of_perm same alike, sort_of_pairwise ordered]

end FileReport

namespace RunResult

open FileReport

variable {r : RunResult} {key : SortKey} {descending : Bool}

/-- Sorts a result by one order after the other. -/
def sortAll (orders : List (SortKey × Bool)) (r : RunResult) : RunResult :=
  orders.foldl (fun r order => r.sort order.1 order.2) r

theorem sortAll_perm (orders : List (SortKey × Bool)) (r : RunResult) :
    (r.sortAll orders).reports ~ r.reports := by
  induction orders generalizing r with
  | nil => exact .refl _
  | cons order orders ih => exact (ih _).trans (sort_perm order.1 order.2 r.reports)

/-- Whatever the reports, they are compared by a total preorder, and sorting them leaves the same reports,
in order, and in their old order where they tie. Sorting once more changes nothing. If no two paths are the
same, neither the order that the reports had nor any sorting before this one makes a difference, and
descending order of paths is the reverse of ascending order. -/
theorem sort_order (r : RunResult) (key : SortKey) (descending : Bool) :
    (∀ a, compareBy key descending a a = .eq) ∧
    (∀ a b, compareBy key descending b a = (compareBy key descending a b).swap) ∧
    (∀ a b c, (compareBy key descending a b).isLE → (compareBy key descending b c).isLE →
      (compareBy key descending a c).isLE) ∧
    (r.sort key descending).reports ~ r.reports ∧
    (r.sort key descending).reports.Pairwise (InOrder key descending) ∧
    (∀ a, (r.sort key descending).reports.filter (Ties key a) = r.reports.filter (Ties key a)) ∧
    (r.sort key descending).sort key descending = r.sort key descending ∧
    ((r.reports.map fun f => f.path.components).Nodup →
      (∀ s orders, s.reports ~ r.reports →
        ((sortAll orders s).sort key descending).reports = (r.sort key descending).reports) ∧
      (r.sort .path true).reports = (r.sort .path false).reports.reverse) := by
  refine ⟨fun _ => ReflCmp.compare_self, fun _ _ => OrientedCmp.eq_swap, fun _ _ _ => TransCmp.isLE_trans,
    sort_perm _ _ _, ?_, fun a => filter_ties_sort a r.reports, ?_, fun distinct => ⟨?_, ?_⟩⟩
  · exact (pairwise_sort key descending r.reports).imp inOrder_of_compareBy
  · rw [sort, sort]
    exact congrArg (RunResult.mk · r.failures) (sort_of_pairwise (pairwise_sort key descending r.reports))
  · intro s orders same
    refine (sort_eq_of_perm ((sortAll_perm orders s).trans same).symm ?_).symm
    exact fun _ ha _ hb => List.inj_on_of_nodup_map distinct ha hb
  · exact sort_path_descending distinct

/-- Equal counts stand in the order of their paths behind the greater one, and the skipped file last,
also if the paths have been sorted downwards before. -/
theorem sort_order_descending :
    let b : FileReport := ⟨.ofString "b.cpp", .counted 1, []⟩
    let z : FileReport := ⟨.ofString "z.cpp", .skipped .malformedBrackets, []⟩
    let c : FileReport := ⟨.ofString "c.cpp", .counted 9, []⟩
    let a : FileReport := ⟨.ofString "a.cpp", .counted 1, []⟩
    let r : RunResult := ⟨[b, z, c, a], []⟩
    (r.reports.map fun f => f.path.components).Nodup ∧
      (r.sort .count true).reports = [c, a, b, z] ∧
      ((sortAll [(.path, true)] r).sort .count true).reports = [c, a, b, z] := by
  intro b z c a r
  have distinct : (r.reports.map fun f => f.path.components).Nodup := by decide +kernel
  have ranked : FileReport.sort .count true [c, a, b, z] = [c, a, b, z] :=
    sort_of_pairwise (by decide +kernel)
  have same : [c, a, b, z] ~ [b, z, c, a] := by decide +kernel
  obtain ⟨-, -, -, -, -, -, -, later⟩ := sort_order r .count true
  have sorted := ((later distinct).1 ⟨[c, a, b, z], []⟩ [] same).symm.trans ranked
  exact ⟨distinct, sorted, ((later distinct).1 r [(.path, true)] (.refl _)).trans sorted⟩

end RunResult
end LambdaTally
