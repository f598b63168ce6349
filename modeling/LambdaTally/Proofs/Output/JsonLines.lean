import LambdaTally.Output
import LambdaTally.Proofs.Json.Fields
import LambdaTally.Proofs.Json.Sorted
import LambdaTally.Proofs.RoundTrip
import LambdaTally.Proofs.Text.Decoding

/-!
# LambdaTally.Proofs.Output.JsonLines

Reading back a result that is written as lines of JSON. The reader knows nothing of how a line is
written. It asks an object for its fields by name, each of which must be there exactly once, so no field of
a line gets in the way of another; numbers may be of any size.

A line is a plain document on one line (`IsPlain`), and its fields are those of the report or of the
totals, with a `type` and in some other order, which is nothing to the reader.
-/

namespace LambdaTally

open Json

/-! ## The reader -/

namespace Json

def natural? : Json → Option Nat
  | number ⟨false, n, [], none⟩ => some n
  | _ => none

/-- The natural number in the only field with a name. -/
def count? (name : String) (fields : List (List Char × Json)) : Option Nat :=
  (only? name fields).bind natural?

def onlyText? (name : String) (fields : List (List Char × Json)) : Option (List Char) :=
  (only? name fields).bind text?

end Json

namespace Sample

/-- Reads a sample, whose offset may be of any size. -/
def ofFields? (fields : List (List Char × Json)) : Option Sample := do
  return ⟨← count? "offset" fields, ← onlyText? "context" fields⟩

def ofObject? : Json → Option Sample
  | object fields => ofFields? fields
  | _ => none

end Sample

namespace FileStatus

def ofFields? (fields : List (List Char × Json)) : Option FileStatus := do
  let status ← onlyText? "status" fields
  if status = "counted".toList then
    return counted (← count? "count" fields)
  else if status = "skipped".toList then
    return skipped (← SkipReason.ofJson? (← only? "reason" fields))
  else none

end FileStatus

namespace FileReport

/-- Reads the samples among the fields: none, if there is no such field. -/
def samplesOf? (fields : List (List Char × Json)) : Option (List Sample) :=
  if fields.any (·.1 == "samples".toList) then
    (only? "samples" fields).bind fun json => json.items?.bind (List.mapM Sample.ofObject?)
  else some []

def ofFields? (fields : List (List Char × Json)) : Option FileReport := do
  return ⟨.ofText (← onlyText? "path" fields), ← FileStatus.ofFields? fields, ← samplesOf? fields⟩

end FileReport

namespace Summary

def ofFields? (fields : List (List Char × Json)) : Option Summary := do
  return ⟨← count? "files" fields, ← count? "counted_files" fields, ← count? "lambdas" fields,
    ← count? "skipped_files" fields, ← count? "skipped_decode" fields,
    ← count? "skipped_malformed" fields⟩

end Summary

namespace JsonLines

/-- What a line is about. -/
inductive Entry where
  | file (report : FileReport)
  | total (summary : Summary)
  deriving DecidableEq, Repr

namespace Entry

def ofFields? (fields : List (List Char × Json)) : Option Entry := do
  let type ← onlyText? "type" fields
  if type = "file".toList then return file (← FileReport.ofFields? fields)
  else if type = "total".toList then return total (← Summary.ofFields? fields)
  else none

/-- Reads a line. -/
def read? (line : List Char) : Option Entry :=
  match Json.read? line with
  | some (object fields) => ofFields? fields
  | _ => none

end Entry
end JsonLines

/-! ## The order of fields -/

section Order

variable {fields others : List (List Char × Json)}

theorem Json.count?_perm (name : String) (h : fields.Perm others) : count? name fields = count? name others := by
  rw [count?, count?, only?_perm name h]

theorem Json.onlyText?_perm (name : String) (h : fields.Perm others) :
    onlyText? name fields = onlyText? name others := by
  rw [onlyText?, onlyText?, only?_perm name h]

theorem Sample.ofFields?_perm (h : fields.Perm others) : ofFields? fields = ofFields? others := by
  simp only [ofFields?, count?_perm _ h, onlyText?_perm _ h]

theorem FileStatus.ofFields?_perm (h : fields.Perm others) : ofFields? fields = ofFields? others := by
  simp only [ofFields?, count?_perm _ h, onlyText?_perm _ h, only?_perm _ h]

theorem FileReport.ofFields?_perm (h : fields.Perm others) : ofFields? fields = ofFields? others := by
  have samples : samplesOf? fields = samplesOf? others := by
    simp only [samplesOf?, only?_perm _ h, h.any_eq]
  simp only [ofFields?, onlyText?_perm _ h, FileStatus.ofFields?_perm h, samples]

theorem Summary.ofFields?_perm (h : fields.Perm others) : ofFields? fields = ofFields? others := by
  simp only [ofFields?, count?_perm _ h]

theorem JsonLines.Entry.ofFields?_perm (h : fields.Perm others) : ofFields? fields = ofFields? others := by
  simp only [ofFields?, onlyText?_perm _ h, FileReport.ofFields?_perm h, Summary.ofFields?_perm h]

end Order

/-! ## What is written -/

namespace Sample

theorem isPlain_toJson (s : Sample) : IsPlain s.toJson := by
  refine .object ?_
  simp only [List.forall_mem_cons]
  exact ⟨.natural _, .string _, List.forall_mem_nil _⟩

theorem ofObject?_sorted (s : Sample) : ofObject? s.toJson.sorted = some s := by
  have order := sortedFields_perm [("offset".toList, natural s.offset), ("context".toList, string s.context)]
  rw [toJson, Json.sorted, ofObject?, ofFields?_perm order]
  rfl

end Sample

namespace FileReport

/-- The fields of a line about a file. -/
def lineFields (text : List Char) (r : FileReport) : List (List Char × Json) :=
  ("path".toList, .string text) :: r.detailFields ++ [("type".toList, .ofString "file")]

variable (text : List Char) (r : FileReport)

theorem isPlain_detailFields : ∀ field ∈ r.detailFields, IsPlain field.2 := by
  obtain ⟨path, status, samples⟩ := r
  refine List.forall_mem_append.2 ⟨?_, ?_⟩
  · cases status with
    | counted count =>
      simp only [List.forall_mem_cons]
      exact ⟨.string _, .natural _, List.forall_mem_nil _⟩
    | skipped reason =>
      simp only [List.forall_mem_cons]
      exact ⟨.string _, .string _, List.forall_mem_nil _⟩
  · split
    · exact List.forall_mem_nil _
    · refine List.forall_mem_singleton.2 (.array ?_)
      exact List.forall_mem_map.2 fun s _ => s.isPlain_toJson

theorem isPlain_lineFields : ∀ field ∈ r.lineFields text, IsPlain field.2 :=
  List.forall_mem_append.2
    ⟨List.forall_mem_cons.2 ⟨.string _, r.isPlain_detailFields⟩, List.forall_mem_singleton.2 (.string _)⟩

theorem samplesOf?_sorted {samples : List Sample} {fields : List (List Char × Json)}
    (found : fields.any (·.1 == "samples".toList) = true)
    (row : only? "samples" fields = some (array (samples.map Sample.toJson)).sorted) :
    samplesOf? fields = some samples := by
  rw [samplesOf?, if_pos found, row, Json.sorted, sortedItems_eq_map, List.map_map]
  exact mapM_map_some fun s _ => s.ofObject?_sorted

theorem type_lineFields : onlyText? "type" (sortedValues (r.lineFields text)) = some "file".toList := by
  obtain ⟨path, status, samples⟩ := r
  cases status <;> cases samples <;> rfl

theorem path_lineFields : onlyText? "path" (sortedValues (r.lineFields text)) = some text := by
  obtain ⟨path, status, samples⟩ := r
  cases status <;> cases samples <;> rfl

theorem status_lineFields : FileStatus.ofFields? (sortedValues (r.lineFields text)) = some r.status := by
  obtain ⟨path, status, samples⟩ := r
  cases status with
  | counted count => cases samples <;> rfl
  | skipped reason => cases samples <;> cases reason <;> rfl

theorem samples_lineFields : samplesOf? (sortedValues (r.lineFields text)) = some r.samples := by
  obtain ⟨path, status, samples⟩ := r
  cases samples with
  | nil => cases status <;> rfl
  | cons s samples => cases status <;> exact samplesOf?_sorted rfl rfl

end FileReport

namespace JsonLines

theorem ofFields?_file {text : List Char} {r : FileReport} (utf8 : r.path = .ofText text) :
    Entry.ofFields? (sortedValues (r.lineFields text)) = some (.file r) := by
  obtain ⟨path, status, samples⟩ := r
  obtain rfl : path = .ofText text := utf8
  simp [Entry.ofFields?, FileReport.ofFields?, FileReport.type_lineFields, FileReport.path_lineFields,
    FileReport.status_lineFields, FileReport.samples_lineFields]

/-- The fields of the line of totals. -/
def totalFields (s : Summary) : List (List Char × Json) :=
  s.fields ++ [("type".toList, .ofString "total"), ("version".toList, .ofString version)]

theorem isPlain_totalFields (s : Summary) : ∀ field ∈ totalFields s, IsPlain field.2 := by
  simp only [totalFields, Summary.fields, List.cons_append, List.nil_append, List.forall_mem_cons]
  exact ⟨.natural _, .natural _, .natural _, .natural _, .natural _, .natural _, .string _, .string _,
    List.forall_mem_nil _⟩

theorem ofFields?_total (s : Summary) : Entry.ofFields? (sortedValues (totalFields s)) = some (.total s) :=
  rfl

/-! ## Lines -/

/-- The line of plain fields, which ends where it should and is read as the fields say. -/
theorem exists_line {fields : List (List Char × Json)} (plain : ∀ field ∈ fields, IsPlain field.2) :
    ∃ text, line fields = text ++ ['\n'] ∧ '\n' ∉ text ∧
      Entry.read? text = Entry.ofFields? (sortedValues fields) := by
  have sorted : IsPlain (object fields).sorted := (IsPlain.object plain).sorted
  refine ⟨_, rfl, sorted.newline_notMem, ?_⟩
  rw [Entry.read?, sorted.readsBack.read?, Json.sorted]
  exact Entry.ofFields?_perm (sortedFields_perm fields)

theorem exists_report {r : FileReport} (utf8 : ∃ text, r.path = .ofText text) :
    ∃ text, report? r = some (text ++ ['\n']) ∧ '\n' ∉ text ∧ Entry.read? text = some (.file r) := by
  obtain ⟨path, named⟩ := utf8
  obtain ⟨text, written, single, read⟩ := exists_line (r.isPlain_lineFields path)
  have known : r.path.text? = some path := by
    rw [named]
    exact Utf8.decode?_encode path
  refine ⟨text, ?_, single, by rw [read, ofFields?_file named]⟩
  rw [report?, FileReport.fields?, known, ← written]
  rfl

theorem exists_reports {reports : List FileReport} (utf8 : ∀ r ∈ reports, ∃ text, r.path = .ofText text)
    (last : List Char) :
    ∃ lines : List (List Char), writeReports last reports = .done (lines.flatMap (· ++ ['\n']) ++ last) ∧
      (∀ text ∈ lines, '\n' ∉ text) ∧ lines.map Entry.read? = (reports.map Entry.file).map some := by
  induction reports with
  | nil => exact ⟨[], rfl, List.forall_mem_nil _, rfl⟩
  | cons r reports ih =>
    obtain ⟨first, others⟩ := List.forall_mem_cons.1 utf8
    obtain ⟨text, written, single, read⟩ := exists_report first
    obtain ⟨lines, behind, singles, reads⟩ := ih others
    refine ⟨text :: lines, ?_, List.forall_mem_cons.2 ⟨single, singles⟩, ?_⟩
    · rw [writeReports, written, List.flatMap_cons]
      simp only [behind, Written.after, Written.done, List.append_assoc]
    · simp only [List.map_cons, read, reads]

end JsonLines

/-- **Lines of JSON.** For reports whose paths are UTF-8, a result is written as one line for each report
that is listed and one for the totals, each ended by a line feed and without one inside. Read one by one,
the lines give back the reports in order and then the totals over all reports. -/
theorem json_lines (mode : OutputMode) (jobs : Nat) (reports : List FileReport)
    (utf8 : ∀ r ∈ reports, ∃ text, r.path = .ofText text) :
    let listed := if mode = .full then reports else []
    let entries := listed.map JsonLines.Entry.file ++ [.total (.ofReports reports)]
    ∃ lines : List (List Char),
      (Output.write .jsonl mode jobs reports).result = .ok (lines.flatMap (· ++ ['\n'])) ∧
        lines.length = listed.length + 1 ∧ (∀ line ∈ lines, '\n' ∉ line) ∧
        lines.map JsonLines.Entry.read? = entries.map some := by
  intro listed entries
  have named : ∀ r ∈ listed, ∃ text, r.path = .ofText text := by
    intro r member
    refine utf8 r ?_
    simp only [listed] at member
    split at member
    · exact member
    · cases member
  obtain ⟨total, closing, single, read⟩ :=
    JsonLines.exists_line (JsonLines.isPlain_totalFields (.ofReports reports))
  obtain ⟨lines, written, singles, reads⟩ :=
    JsonLines.exists_reports named (JsonLines.totals (.ofReports reports))
  refine ⟨lines ++ [total], ?_, ?_, ?_, ?_⟩
  · have text : Output.write .jsonl mode jobs reports =
        JsonLines.writeReports (JsonLines.totals (.ofReports reports)) listed := rfl
    rw [text, written]
    have ended : JsonLines.totals (.ofReports reports) = total ++ ['\n'] := closing
    simp [Written.result, Written.done, ended]
  · have same := congrArg List.length reads
    simpa using same
  · exact List.forall_mem_append.2 ⟨singles, List.forall_mem_singleton.2 single⟩
  · rw [List.map_append, reads, List.map_append, List.map_singleton, read, JsonLines.ofFields?_total]
    simp

theorem json_lines_escaped :
    let reports : List FileReport :=
      [⟨.ofString "a \"b\"\n/é.cpp", .counted 2, [⟨12, "[] \x7b\n\t'\\x01'\n\x7d".toList⟩]⟩,
        ⟨.ofString "\"type\":\"total\"", .skipped .malformedBrackets, []⟩]
    let entries := reports.map JsonLines.Entry.file ++ [.total ⟨2, 1, 2, 1, 0, 1⟩]
    (∀ r ∈ reports, ∃ text, r.path = .ofText text) ∧
      ∃ lines : List (List Char),
        (Output.write .jsonl .full 1 reports).result = .ok (lines.flatMap (· ++ ['\n'])) ∧
          lines.length = 3 ∧ (∀ line ∈ lines, '\n' ∉ line) ∧
          lines.map JsonLines.Entry.read? = entries.map some := by
  intro reports entries
  have utf8 : ∀ r ∈ reports, ∃ text, r.path = .ofText text := by
    simp only [reports, List.forall_mem_cons]
    exact ⟨⟨_, rfl⟩, ⟨_, rfl⟩, List.forall_mem_nil _⟩
  exact ⟨utf8, json_lines .full 1 reports utf8⟩

end LambdaTally
