import LambdaTally.Run
import Mathlib.Data.List.Basic
import Mathlib.Data.List.Perm.Basic

/-!
# LambdaTally.Proofs.Collection

How the results of single files are put together. A lenient run keeps a report or a failure of every
file it is given, a strict one stops at a failure (`collectStrict_eq`). So both tell apart the same
file systems, whatever the order in which files are worked on (`strict_agrees_with_lenient`): all that
fails a strict run is a file that cannot be read, never what is in one.
-/

namespace LambdaTally

open scoped List

namespace LoadedFile

variable {sampling : Sampling} {file : LoadedFile} {report : FileReport} {e : ReadFailure}

theorem path_of_report (h : file.report sampling = .ok report) : report.path = file.path := by
  unfold LoadedFile.report at h
  split at h
  · rename_i octets _
    rw [← Except.ok.inj h]
    cases Outcome.ofOctets sampling octets <;> rfl
  · cases h

theorem path_of_failure (h : file.report sampling = .error e) : e.path = file.path := by
  unfold LoadedFile.report at h
  split at h
  · cases h
  · rw [← Except.error.inj h]

end LoadedFile

namespace RunResult

/-- The paths of the files that a result accounts for. -/
def processed (r : RunResult) : List Path :=
  r.reports.map FileReport.path ++ r.failures.map ReadFailure.path

section Cons

variable {sampling : Sampling} {file : LoadedFile}

theorem collect_cons_ok {report : FileReport} (h : file.report sampling = .ok report)
    (files : List LoadedFile) :
    collect sampling (file :: files) =
      { collect sampling files with reports := report :: (collect sampling files).reports } := by
  simp [collect, h, Except.toOption]

theorem collect_cons_error {e : ReadFailure} (h : file.report sampling = .error e)
    (files : List LoadedFile) :
    collect sampling (file :: files) =
      { collect sampling files with failures := e :: (collect sampling files).failures } := by
  simp [collect, h, Except.toOption]

end Cons

theorem collect_perm {files files' : List LoadedFile} (sampling : Sampling) (h : files' ~ files) :
    (collect sampling files').reports ~ (collect sampling files).reports ∧
      (collect sampling files').failures ~ (collect sampling files).failures :=
  ⟨h.filterMap _, h.filterMap _⟩

theorem mem_reports_collect {sampling : Sampling} {files : List LoadedFile} {r : FileReport} :
    r ∈ (collect sampling files).reports ↔ ∃ file ∈ files, file.report sampling = .ok r := by
  rw [collect, List.mem_filterMap]
  refine exists_congr fun file => and_congr_right fun _ => ?_
  cases file.report sampling <;> simp [Except.toOption]

theorem mem_failures_collect {sampling : Sampling} {files : List LoadedFile} {e : ReadFailure} :
    e ∈ (collect sampling files).failures ↔ ∃ file ∈ files, file.report sampling = .error e := by
  rw [collect, List.mem_filterMap]
  refine exists_congr fun file => and_congr_right fun _ => ?_
  cases file.report sampling <;> simp

/-- A lenient run accounts for every file once. -/
theorem processed_collect (sampling : Sampling) (files : List LoadedFile) :
    (collect sampling files).processed ~ files.map LoadedFile.path := by
  induction files with
  | nil => exact .nil
  | cons file files ih =>
    rw [List.map_cons]
    cases report : file.report sampling with
    | ok found =>
      rw [collect_cons_ok report, processed, List.map_cons, LoadedFile.path_of_report report]
      exact ih.cons _
    | error e =>
      rw [collect_cons_error report, processed, List.map_cons, LoadedFile.path_of_failure report]
      exact List.perm_middle.trans (ih.cons _)

theorem mapM_report_eq (sampling : Sampling) (files : List LoadedFile) :
    files.mapM (LoadedFile.report sampling) =
      match (collect sampling files).failures with
      | [] => .ok (collect sampling files).reports
      | e :: _ => .error e := by
  induction files with
  | nil => rfl
  | cons file files ih =>
    rw [List.mapM_cons, ih]
    cases report : file.report sampling with
    | error e =>
      rw [collect_cons_error report]
      rfl
    | ok found =>
      rw [collect_cons_ok report]
      dsimp only
      cases (collect sampling files).failures <;> rfl

/-- To count files up to the first failure is to count them all, if there is no failure. -/
theorem collectStrict_eq (sampling : Sampling) (files : List LoadedFile) :
    collectStrict sampling files =
      match (collect sampling files).failures with
      | [] => .ok (collect sampling files)
      | e :: _ => .error e := by
  rw [collectStrict, mapM_report_eq]
  obtain ⟨reports, failures⟩ := collect sampling files
  cases failures <;> rfl

/-- A strict run over files in some order against a lenient one over the same files. -/
theorem collectStrict_of_perm (sampling : Sampling) {files files' : List LoadedFile}
    (h : files' ~ files) :
    ((collect sampling files).failures = [] ∧ ∃ result, collectStrict sampling files' = .ok result ∧
      result.reports ~ (collect sampling files).reports ∧ result.failures = []) ∨
    ∃ e ∈ (collect sampling files).failures, collectStrict sampling files' = .error e := by
  obtain ⟨reports, failures⟩ := collect_perm sampling h
  rw [collectStrict_eq]
  cases found : (collect sampling files').failures with
  | nil =>
    rw [found] at failures
    exact .inl ⟨failures.symm.eq_nil, _, rfl, reports, found⟩
  | cons e rest =>
    rw [found] at failures
    exact .inr ⟨e, failures.subset List.mem_cons_self, rfl⟩

end RunResult

namespace FileTree

variable {t : FileTree} {sampling : Sampling} {p : Path} {r : FileReport} {e : ReadFailure}

theorem report_eq_ok_iff : t.report sampling p = .ok r ↔
    ∃ octets, t.read p = .ok octets ∧ r = .ofOutcome p (.ofOctets sampling octets) := by
  unfold report LoadedFile.report load
  cases t.read p with
  | error e => simp
  | ok octets => simp [eq_comm]

theorem report_eq_error_iff : t.report sampling p = .error e ↔
    ∃ cause, t.read p = .error cause ∧ e = ⟨p, cause⟩ := by
  unfold report LoadedFile.report load
  cases t.read p with
  | error e => simp [eq_comm]
  | ok octets => simp

theorem path_of_report (h : t.report sampling p = .ok r) : r.path = p :=
  LoadedFile.path_of_report h

theorem path_of_failure (h : t.report sampling p = .error e) : e.path = p :=
  LoadedFile.path_of_failure h

theorem mem_reports_iff {paths : List Path} :
    r ∈ (RunResult.collect sampling (paths.map t.load)).reports ↔
      ∃ p ∈ paths, t.report sampling p = .ok r := by
  simp [RunResult.mem_reports_collect, FileTree.report]

theorem mem_failures_iff {paths : List Path} :
    e ∈ (RunResult.collect sampling (paths.map t.load)).failures ↔
      ∃ p ∈ paths, t.report sampling p = .error e := by
  simp [RunResult.mem_failures_collect, FileTree.report]

end FileTree

/-- **Strict and lenient runs agree.** A lenient run accounts for every file it is given once, with
what comes of that file. A strict run over the same files, in any order, ends with one of the failures
of the lenient run if there are any, and with its reports if there are none. A file that can be read
fails neither run: what is wrong with its text is said in its report. -/
theorem strict_agrees_with_lenient (t : FileTree) (sampling : Sampling) {paths order : List Path}
    (delivered : order ~ paths) :
    let lenient := RunResult.collect sampling (paths.map t.load)
    let strict := RunResult.collectStrict sampling (order.map t.load)
    lenient.processed ~ paths ∧
    (∀ r ∈ lenient.reports, t.report sampling r.path = .ok r) ∧
    (∀ e ∈ lenient.failures, t.report sampling e.path = .error e) ∧
    ((∃ e, strict = .error e) ↔ lenient.failures ≠ []) ∧
    (∀ e, strict = .error e → e ∈ lenient.failures) ∧
    (lenient.failures = [] → ∃ result, strict = .ok result ∧
      result.reports ~ lenient.reports ∧ result.failures = []) ∧
    ((∃ e, strict = .error e) ↔ ∃ p ∈ paths, ∃ cause, t.read p = .error cause) ∧
    ∀ p ∈ paths, ∀ octets reason, t.read p = .ok octets →
      Outcome.ofOctets sampling octets = .skipped reason →
        ⟨p, .skipped reason, []⟩ ∈ lenient.reports := by
  intro lenient strict
  have reported {r : FileReport} : r ∈ lenient.reports ↔ ∃ p ∈ paths, t.report sampling p = .ok r :=
    FileTree.mem_reports_iff
  have failed {e : ReadFailure} : e ∈ lenient.failures ↔ ∃ p ∈ paths, t.report sampling p = .error e :=
    FileTree.mem_failures_iff
  have ends := RunResult.collectStrict_of_perm sampling (delivered.map t.load)
  have fails : (∃ e, strict = .error e) ↔ lenient.failures ≠ [] := by
    obtain ⟨none, result, ok, -⟩ | ⟨e, member, error⟩ := ends
    · exact ⟨fun ⟨e, error⟩ => (nomatch error.symm.trans ok), fun some => absurd none some⟩
    · exact ⟨fun _ => List.ne_nil_of_mem member, fun _ => ⟨e, error⟩⟩
  refine ⟨?_, ?_, ?_, fails, ?_, ?_, ?_, ?_⟩
  · have processed := RunResult.processed_collect sampling (paths.map t.load)
    rwa [List.map_map, show LoadedFile.path ∘ t.load = id from rfl, List.map_id] at processed
  · intro r member
    obtain ⟨p, -, report⟩ := reported.1 member
    rwa [FileTree.path_of_report report]
  · intro e member
    obtain ⟨p, -, report⟩ := failed.1 member
    rwa [FileTree.path_of_failure report]
  · intro e error
    obtain ⟨-, result, ok, -⟩ | ⟨e', member, error'⟩ := ends
    · cases error.symm.trans ok
    · cases error.symm.trans error'
      exact member
  · intro none
    obtain ⟨-, same⟩ | ⟨e, member, -⟩ := ends
    · exact same
    · rw [none] at member
      cases member
  · rw [fails]
    constructor
    · intro some
      obtain ⟨e, member⟩ := List.exists_mem_of_ne_nil _ some
      obtain ⟨p, listed, failure⟩ := failed.1 member
      obtain ⟨cause, read, -⟩ := FileTree.report_eq_error_iff.1 failure
      exact ⟨p, listed, cause, read⟩
    · rintro ⟨p, listed, cause, read⟩
      have failure : t.report sampling p = .error ⟨p, cause⟩ :=
        FileTree.report_eq_error_iff.2 ⟨cause, read, rfl⟩
      exact List.ne_nil_of_mem (failed.2 ⟨p, listed, failure⟩)
  · intro p member octets reason read skipped
    exact reported.2 ⟨p, member, FileTree.report_eq_ok_iff.2 ⟨octets, read, by rw [skipped]; rfl⟩⟩

section Mixed

/-- A file with a lambda, one that is not UTF-8, one with an open bracket and one that cannot be
read. -/
def FileTree.mixed : FileTree where
  root :=
    let entry (name : String) (node : Node) : FileName × Node := (Utf8.encode name.toList, node)
    .directory [entry "a.cpp" (.ofOctets (Utf8.encode "[]\x7b\x7d".toList)),
      entry "b.cpp" (.ofOctets [0xFF]), entry "c.cpp" (.ofOctets [0x7B]),
      entry "d.cpp" (.file 0 (.error .inputOutput))]
  here := []

/-- The file that cannot be read fails a strict run, and the two that are skipped do not. -/
theorem strict_agrees_with_lenient_mixed :
    let paths : List Path := ["a.cpp", "b.cpp", "c.cpp", "d.cpp"].map .ofString
    let lenient := RunResult.collect .disabled (paths.map FileTree.mixed.load)
    paths.reverse ~ paths ∧ lenient.processed ~ paths ∧
      (∃ e ∈ lenient.failures, RunResult.collectStrict .disabled
        (paths.reverse.map FileTree.mixed.load) = .error e) ∧
      ⟨.ofString "b.cpp", .skipped .decodeError, []⟩ ∈ lenient.reports ∧
      ⟨.ofString "c.cpp", .skipped .malformedBrackets, []⟩ ∈ lenient.reports := by
  intro paths lenient
  have delivered : paths.reverse ~ paths := List.reverse_perm paths
  obtain ⟨processed, -, -, -, among, -, unreadable, skipped⟩ :=
    strict_agrees_with_lenient FileTree.mixed .disabled delivered
  have fails : FileTree.mixed.read (.ofString "d.cpp") = .error .inputOutput := by decide +kernel
  obtain ⟨e, error⟩ := unreadable.2 ⟨.ofString "d.cpp", by decide +kernel, _, fails⟩
  refine ⟨delivered, processed, ⟨e, among e error, error⟩, ?_, ?_⟩
  · exact skipped _ (by decide +kernel) [0xFF] _ (by decide +kernel) (by decide +kernel)
  · exact skipped _ (by decide +kernel) [0x7B] _ (by decide +kernel) (by decide +kernel)

end Mixed
end LambdaTally
