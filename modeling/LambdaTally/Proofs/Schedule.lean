import LambdaTally.Proofs.Collection
import LambdaTally.Proofs.Files.Found
import LambdaTally.Proofs.Files.Lookup
import LambdaTally.Proofs.Sorting

/-!
# LambdaTally.Proofs.Schedule

The order in which the files of a walk are worked on. Reports of one file say the same under all
spellings of its path, so the sorted reports are the same in every order up to those spellings
(`schedule_independent`). Two spellings of one path tie, and then the order shows
(`schedule_spellings`).
-/

namespace LambdaTally

open scoped List

namespace FileReport

variable {key : SortKey} {descending : Bool} {a b a' b' : FileReport}

/-- What a report says, with the components of its path in the place of their spelling. -/
def seen (r : FileReport) : List Component × FileStatus × List Sample :=
  (r.path.components, r.status, r.samples)

theorem compareBy_seen (ha : a.seen = a'.seen) (hb : b.seen = b'.seen) :
    compareBy key descending a b = compareBy key descending a' b' := by
  simp only [seen, Prod.mk.injEq] at ha hb
  simp only [compareBy, Path.compare, ha.1, ha.2.1, hb.1, hb.2.1]

end FileReport

namespace FileTree

variable {t : FileTree} {settings : Settings} {sampling : Sampling} {p q : Path} {r r' : FileReport}

/-- Reports under two spellings of one path say the same. -/
theorem seen_of_report (same : p.components = q.components) (h : t.report sampling p = .ok r)
    (h' : t.report sampling q = .ok r') : r.seen = r'.seen := by
  obtain ⟨octets, read, rfl⟩ := report_eq_ok_iff.1 h
  obtain ⟨octets', read', rfl⟩ := report_eq_ok_iff.1 h'
  rw [read_unique same read read']
  cases Outcome.ofOctets sampling octets' <;> simp [FileReport.ofOutcome, FileReport.seen, same]

/-- The reports of the files at some paths. -/
def reportsOf (t : FileTree) (sampling : Sampling) (paths : List Path) : List FileReport :=
  (RunResult.collect sampling (paths.map t.load)).reports

theorem mem_reportsOf {paths : List Path} (h : r ∈ t.reportsOf sampling paths) :
    r.path ∈ paths ∧ t.report sampling r.path = .ok r := by
  obtain ⟨p, listed, report⟩ := mem_reports_iff.1 h
  rw [path_of_report report]
  exact ⟨listed, report⟩

theorem reportsOf_perm (t : FileTree) (sampling : Sampling) {paths order : List Path}
    (h : order ~ paths) : t.reportsOf sampling order ~ t.reportsOf sampling paths :=
  (RunResult.collect_perm sampling (h.map t.load)).1

theorem seen_of_mem {paths : List Path} (h : r ∈ t.reportsOf sampling paths)
    (h' : r' ∈ t.reportsOf sampling paths) (same : r.path.components = r'.path.components) :
    r.seen = r'.seen :=
  seen_of_report same (mem_reportsOf h).2 (mem_reportsOf h').2

/-- Where no path is spelled in two ways, reports of the same components are the same. -/
theorem eq_of_mem {paths : List Path}
    (spelled : ∀ p ∈ paths, ∀ q ∈ paths, p.components = q.components → p = q)
    (h : r ∈ t.reportsOf sampling paths) (h' : r' ∈ t.reportsOf sampling paths)
    (same : r.path.components = r'.path.components) : r = r' := by
  obtain ⟨listed, report⟩ := mem_reportsOf h
  obtain ⟨listed', report'⟩ := mem_reportsOf h'
  rw [spelled r.path listed r'.path listed' same, report'] at report
  exact (Except.ok.inj report).symm

/-- The result for files that were worked on in some order. -/
theorem ofFiles_lenient (t : FileTree) (settings : Settings) (lenient : settings.strict = false) (order : List Path) :
    ∃ result, RunResult.ofFiles settings (order.map t.load) = .ok result ∧
      result.reports = FileReport.sort settings.sortKey settings.descending
        (t.reportsOf settings.sampling order) := by
  refine ⟨(RunResult.collect settings.sampling (order.map t.load)).sort settings.sortKey
    settings.descending, ?_, rfl⟩
  rw [RunResult.ofFiles, lenient]
  rfl

end FileTree

/-- **The order in which files are worked on does not show.** A run that goes on over unreadable files
gives, for every order of the files that its walk delivers, the same list of reports up to the
spelling of paths; it gives the very same list if the walk delivers no two spellings of one path. -/
theorem schedule_independent (t : FileTree) (settings : Settings) (repositories : Repositories)
    (lenient : settings.strict = false) {paths order : List Path}
    (walked : t.walk settings.walk settings.filter repositories = .ok paths)
    (delivered : order ~ paths) :
    ∃ result inOrder, t.run settings repositories = .ok result ∧
      RunResult.ofFiles settings (order.map t.load) = .ok inOrder ∧
      inOrder.reports.map FileReport.seen = result.reports.map FileReport.seen ∧
      ((∀ p ∈ paths, ∀ q ∈ paths, p.components = q.components → p = q) →
        inOrder.reports = result.reports) := by
  obtain ⟨result, collected, reports⟩ := t.ofFiles_lenient settings lenient paths
  obtain ⟨inOrder, collected', reports'⟩ := t.ofFiles_lenient settings lenient order
  have same := t.reportsOf_perm settings.sampling delivered
  refine ⟨result, inOrder, ?_, collected', ?_, ?_⟩
  · rw [FileTree.run_of_walk walked, collected]
    rfl
  · rw [reports, reports']
    refine FileReport.map_sort_eq_of_perm same ?_ ?_
    · intro a b a' b'
      exact FileReport.compareBy_seen
    · intro a ha b hb
      exact FileTree.seen_of_mem (same.subset ha) (same.subset hb)
  · intro spelled
    rw [reports, reports']
    refine FileReport.sort_eq_of_perm same ?_
    intro a ha b hb
    exact FileTree.eq_of_mem spelled (same.subset ha) (same.subset hb)

section Overlaps

/-- A directory `src` with a lambda in `a.cpp` and none in `sub/b.cpp`. -/
def FileTree.sources : FileTree where
  root :=
    let entry (name : String) (node : Node) : FileName × Node := (Utf8.encode name.toList, node)
    .directory [entry "src" (.directory [
      entry "a.cpp" (.ofOctets (Utf8.encode "[]\x7b\x7d".toList)),
      entry "sub" (.directory [entry "b.cpp" (.ofOctets [])])])]
  here := []

/-- The settings of a run over some roots, without samples. -/
def Settings.over (roots : List String) : Settings :=
  { Settings.default 1 with
    walk := { WalkOptions.default with roots := roots.map .ofString }
    sampling := .disabled }

/-- Overlapping roots deliver a file twice, under one spelling. -/
theorem schedule_independent_overlap :
    let settings := Settings.over ["src", "src/sub"]
    let paths : List Path := ["src/a.cpp", "src/sub/b.cpp", "src/sub/b.cpp"].map .ofString
    settings.strict = false ∧
      FileTree.sources.walk settings.walk settings.filter = .ok paths ∧ paths.reverse ~ paths ∧
      ∃ result inOrder, FileTree.sources.run settings = .ok result ∧
        RunResult.ofFiles settings (paths.reverse.map FileTree.sources.load) = .ok inOrder ∧
        inOrder.reports = result.reports := by
  intro settings paths
  have walked : FileTree.sources.walk settings.walk settings.filter = .ok paths := by
    decide +kernel
  have delivered : paths.reverse ~ paths := List.reverse_perm paths
  obtain ⟨result, inOrder, run, collected, -, same⟩ :=
    schedule_independent FileTree.sources settings .standard rfl walked delivered
  exact ⟨rfl, walked, delivered, result, inOrder, run, collected, same (by decide +kernel)⟩

/-- Two spellings of one path tie, so the file that is delivered first stays first. -/
theorem schedule_spellings :
    let settings := Settings.over ["src/a.cpp", "src//a.cpp"]
    let paths : List Path := ["src/a.cpp", "src//a.cpp"].map .ofString
    FileTree.sources.walk settings.walk settings.filter = .ok paths ∧ paths.reverse ~ paths ∧
      ∃ result inOrder,
        RunResult.ofFiles settings (paths.map FileTree.sources.load) = .ok result ∧
        RunResult.ofFiles settings (paths.reverse.map FileTree.sources.load) = .ok inOrder ∧
        result.reports ≠ inOrder.reports := by
  intro settings paths
  obtain ⟨result, collected, reports⟩ :=
    FileTree.sources.ofFiles_lenient settings rfl paths
  obtain ⟨inOrder, collected', reports'⟩ :=
    FileTree.sources.ofFiles_lenient settings rfl paths.reverse
  refine ⟨by decide +kernel, List.reverse_perm _, result, inOrder, collected, collected', ?_⟩
  rw [reports, reports', FileReport.sort_of_pairwise (by decide +kernel),
    FileReport.sort_of_pairwise (by decide +kernel)]
  decide +kernel

end Overlaps
end LambdaTally
