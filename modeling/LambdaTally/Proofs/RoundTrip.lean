import LambdaTally.Interchange
import LambdaTally.Proofs.Json.Fields

/-!
# LambdaTally.Proofs.RoundTrip

Outcomes go through JSON and back. What is written of an outcome whose numbers are words is read as that
outcome again, with its fields in any order (`Outcome.decode?_perm`) or with their values alone in theirs
(`Outcome.decode?_values`); and whatever text is read as an outcome, its numbers are words
(`Outcome.isWords_of_decode?`), so the outcome survives being written anew.
-/

namespace LambdaTally

open Json

/-- Readings that undo a way of writing undo it for a whole row. -/
theorem mapM_map_some {α β : Type} {write : α → β} {read : β → Option α} {values : List α}
    (undone : ∀ a ∈ values, read (write a) = some a) : (values.map write).mapM read = some values := by
  induction values with
  | nil => rfl
  | cons a values ih =>
    obtain ⟨first, others⟩ := List.forall_mem_cons.1 undone
    rw [List.map_cons, List.mapM_cons, first, ih others]
    rfl

/-- What is known of every reading is known of all that a row of readings gives. -/
theorem forall_mem_of_mapM {α β : Type} {read : β → Option α} {P : α → Prop}
    (known : ∀ b a, read b = some a → P a) {items : List β} {values : List α}
    (h : items.mapM read = some values) : ∀ a ∈ values, P a := by
  induction items generalizing values with
  | nil =>
    cases h
    exact List.forall_mem_nil _
  | cons b items ih =>
    rw [List.mapM_cons] at h
    simp only [Option.bind_eq_bind, Option.bind_eq_some_iff, Option.pure_def, Option.some.injEq] at h
    obtain ⟨a, first, values, others, rfl⟩ := h
    exact List.forall_mem_cons.2 ⟨known b a first, ih others⟩

namespace Sample

variable {s : Sample}

theorem readsBack_toJson (s : Sample) : ReadsBack s.toJson := by
  refine ReadsBack.object ?_
  simp only [List.forall_mem_cons]
  exact ⟨readsBack_natural _, readsBack_string _, List.forall_mem_nil _⟩

theorem ofJson?_toJson (h : s.offset ≤ Natural.max64) : ofJson? s.toJson = some s := by
  have record : s.toJson.record? ["offset", "context"] = some [natural s.offset, string s.context] := rfl
  have offset : (natural s.offset).nat? Natural.max64 = some s.offset := nat?_eq_some_iff.2 ⟨rfl, h⟩
  rw [ofJson?, record]
  simp only [offset]
  rfl

theorem isWithin_toJson (levels : Nat) (h : s.offset ≤ Natural.max64) :
    s.toJson.isWithin (levels + 1) = true := by
  have offset := isWithin_natural levels h
  simp [toJson, isWithin, fieldsAreWithin, offset]

theorem offset_le_of_ofJson? {json : Json} (h : ofJson? json = some s) : s.offset ≤ Natural.max64 := by
  unfold ofJson? at h
  split at h
  · simp only [Option.bind_eq_bind, Option.bind_eq_some_iff, Option.pure_def, Option.some.injEq] at h
    obtain ⟨offset, read, context, -, rfl⟩ := h
    exact (nat?_eq_some_iff.1 read).2
  · cases h

end Sample

namespace Detection

variable {d : Detection}

/-- Its numbers are numbers of 64 bits. -/
structure IsWords (d : Detection) : Prop where
  count : d.count ≤ Natural.max64
  offset : ∀ s ∈ d.samples, s.offset ≤ Natural.max64

theorem readsBack_fields (d : Detection) : ∀ field ∈ d.fields, ReadsBack field.2 := by
  simp only [fields, List.forall_mem_cons]
  refine ⟨readsBack_natural _, ReadsBack.array ?_, List.forall_mem_nil _⟩
  exact List.forall_mem_map.2 fun s _ => Sample.readsBack_toJson s

/-- A detection is read from any record with its values. -/
theorem ofJson?_of_record {json : Json} (h : d.IsWords)
    (record : json.record? ["count", "samples"] = some (d.fields.map Prod.snd)) :
    ofJson? json = some d := by
  have values : d.fields.map Prod.snd = [natural d.count, array (d.samples.map Sample.toJson)] := rfl
  have count : (natural d.count).nat? Natural.max64 = some d.count := nat?_eq_some_iff.2 ⟨rfl, h.count⟩
  have samples : (d.samples.map Sample.toJson).mapM Sample.ofJson? = some d.samples :=
    mapM_map_some fun s member => Sample.ofJson?_toJson (h.offset s member)
  rw [ofJson?, record, values]
  simp only [count, items?, Option.bind_eq_bind, Option.bind_some, samples]
  rfl

theorem isWords_of_ofJson? {json : Json} (h : ofJson? json = some d) : d.IsWords := by
  unfold ofJson? at h
  split at h
  · simp only [Option.bind_eq_bind, Option.bind_eq_some_iff, Option.pure_def, Option.some.injEq] at h
    obtain ⟨count, read, items, -, samples, row, rfl⟩ := h
    exact ⟨(nat?_eq_some_iff.1 read).2, forall_mem_of_mapM (fun _ _ => Sample.offset_le_of_ofJson?) row⟩
  · cases h

theorem ofJson?_perm {fields others : List (List Char × Json)} (h : fields.Perm others) :
    ofJson? (object fields) = ofJson? (object others) := by
  rw [ofJson?, ofJson?, record?_perm _ h]

end Detection

theorem SkipReason.ofRecord?_perm {fields others : List (List Char × Json)} (h : fields.Perm others) :
    ofRecord? (object fields) = ofRecord? (object others) := by
  rw [ofRecord?, ofRecord?, record?_perm _ h]

namespace Outcome

variable {o : Outcome}

/-- Its numbers are numbers of 64 bits. -/
def IsWords : Outcome → Prop
  | detected d => d.IsWords
  | skipped _ => True

/-- The fields of an outcome, in the order in which they are written. -/
def fields : Outcome → List (List Char × Json)
  | detected d => ("status".toList, .ofString "detected") :: d.fields
  | skipped reason => [("status".toList, .ofString "skipped"), ("reason".toList, reason.toJson)]

theorem toJson_eq (o : Outcome) : o.toJson = object o.fields := by
  cases o <;> rfl

theorem readsBack_fields (o : Outcome) : ∀ field ∈ o.fields, ReadsBack field.2 := by
  cases o with
  | detected d =>
    exact List.forall_mem_cons.2 ⟨readsBack_string _, d.readsBack_fields⟩
  | skipped reason =>
    simp only [fields, List.forall_mem_cons]
    exact ⟨readsBack_string _, readsBack_string _, List.forall_mem_nil _⟩

theorem isWithin_toJson (h : o.IsWords) : o.toJson.isWithin maxLevels = true := by
  cases o with
  | skipped reason => cases reason <;> rfl
  | detected d =>
    have words : d.IsWords := h
    have count := isWithin_natural 126 words.count
    have samples : areWithin 125 (d.samples.map Sample.toJson) = true := by
      rw [areWithin_eq_all, List.all_map, List.all_eq_true]
      exact fun s member => Sample.isWithin_toJson 124 (words.offset s member)
    simp [toJson, Detection.fields, maxLevels, isWithin, fieldsAreWithin, ofString, count, samples]

theorem isWithin_values (h : o.IsWords) :
    isWithin maxLevels (array (o.fields.map Prod.snd)) = true := by
  have within := isWithin_toJson h
  rw [toJson_eq, isWithin, fieldsAreWithin_eq_all] at within
  rw [isWithin, areWithin_eq_all, List.all_map]
  exact within

theorem ofRecord?_detected {record : Json} {d : Detection} (h : Detection.ofJson? record = some d) :
    ofRecord? "detected".toList record = some (detected d) := by
  rw [ofRecord?, if_pos rfl, h]
  rfl

theorem ofJson?_toJson (h : o.IsWords) : ofJson? o.toJson = some o := by
  cases o with
  | skipped reason => cases reason <;> rfl
  | detected d =>
    have tagged : (detected d).toJson.tagged? "status" =
        some ("detected".toList, object d.fields) := rfl
    rw [ofJson?, if_pos (isWithin_toJson h), tagged]
    exact ofRecord?_detected (Detection.ofJson?_of_record h rfl)

/-- The fields of an outcome may go without their names. -/
theorem ofJson?_values (h : o.IsWords) : ofJson? (array (o.fields.map Prod.snd)) = some o := by
  cases o with
  | skipped reason => cases reason <;> rfl
  | detected d =>
    have tagged : (array ((detected d).fields.map Prod.snd)).tagged? "status" =
        some ("detected".toList, array (d.fields.map Prod.snd)) := rfl
    rw [ofJson?, if_pos (isWithin_values h), tagged]
    exact ofRecord?_detected (Detection.ofJson?_of_record h rfl)

theorem ofRecord?_perm (status : List Char) {fields others : List (List Char × Json)}
    (h : fields.Perm others) :
    ofRecord? status (object fields) = ofRecord? status (object others) := by
  simp only [ofRecord?, Detection.ofJson?_perm h, SkipReason.ofRecord?_perm h]

/-- The fields of an outcome may stand in any order. -/
theorem ofJson?_perm {fields others : List (List Char × Json)} (h : fields.Perm others) :
    ofJson? (object fields) = ofJson? (object others) := by
  have record (status : List Char) := ofRecord?_perm status
    (h.filter fun field => field.1 != "status".toList)
  simp only [ofJson?, tagged?, isWithin_perm _ h, only?_perm _ h, Option.bind_eq_bind,
    Option.bind_assoc, Option.pure_def, Option.bind_some, record]

theorem decode?_perm (h : o.IsWords) {fields : List (List Char × Json)} (order : fields.Perm o.fields) :
    decode? (object fields).compact = some o := by
  have back : ReadsBack (object fields) :=
    ReadsBack.object fun field member => o.readsBack_fields field (order.mem_iff.1 member)
  rw [decode?, back.read?, Option.bind_some, ofJson?_perm order, ← toJson_eq, ofJson?_toJson h]

theorem decode?_values (h : o.IsWords) :
    decode? (array (o.fields.map Prod.snd)).compact = some o := by
  have back : ReadsBack (array (o.fields.map Prod.snd)) :=
    ReadsBack.array (List.forall_mem_map.2 o.readsBack_fields)
  rw [decode?, back.read?, Option.bind_some, ofJson?_values h]

theorem isWords_of_ofRecord? {status : List Char} {record : Json}
    (h : ofRecord? status record = some o) : o.IsWords := by
  unfold ofRecord? at h
  split at h
  · obtain ⟨d, read, rfl⟩ := Option.map_eq_some_iff.1 h
    exact Detection.isWords_of_ofJson? read
  · split at h
    · obtain ⟨reason, -, rfl⟩ := Option.map_eq_some_iff.1 h
      trivial
    · cases h

theorem isWords_of_ofJson? {json : Json} (h : ofJson? json = some o) : o.IsWords := by
  unfold ofJson? at h
  split at h
  · obtain ⟨_, -, read⟩ := Option.bind_eq_some_iff.1 h
    exact isWords_of_ofRecord? read
  · cases h

theorem isWords_of_decode? {text : List Char} (h : decode? text = some o) : o.IsWords := by
  obtain ⟨json, -, read⟩ := Option.bind_eq_some_iff.1 h
  exact isWords_of_ofJson? read

theorem decode?_encode (h : o.IsWords) : decode? o.encode = some o := by
  rw [encode, toJson_eq]
  exact decode?_perm h (List.Perm.refl _)

end Outcome

/-- **JSON round trip of outcomes.** Every outcome whose numbers are words of 64 bits is what is read
from its compact JSON text, whatever the characters of its contexts; and what is read from any text as
an outcome is again read from the text that is written of it. -/
theorem outcome_round_trip :
    (∀ o : Outcome, o.IsWords → Outcome.decode? o.encode = some o) ∧
      ∀ (text : List Char) (o : Outcome), Outcome.decode? text = some o →
        Outcome.decode? o.encode = some o :=
  ⟨fun _ words => Outcome.decode?_encode words,
    fun _ _ read => Outcome.decode?_encode (Outcome.isWords_of_decode? read)⟩

theorem outcome_round_trip_escaped :
    let o := Outcome.detected ⟨Natural.max64, [⟨Natural.max64, "[]\"\\\n\x01😀".toList⟩]⟩
    let text := "\x7b\"samples\":[\x7b\"context\":\"\\u003b\\ud83d\\ude00\",\"offset\":7\x7d],".toList ++
      " \"count\" : 2, \"status\" : \"detected\"\x7d".toList
    let values := "[\"detected\", 2, [[7, \";\\ud83d\\ude00\"]]]".toList
    let read := Outcome.detected ⟨2, [⟨7, ";😀".toList⟩]⟩
    (o.IsWords ∧ Outcome.decode? o.encode = some o) ∧
      Outcome.decode? text = some read ∧ Outcome.decode? values = some read ∧
      Outcome.decode? read.encode = some read := by
  intro o text values read
  have words : o.IsWords := ⟨by decide, by decide⟩
  have decoded : Outcome.decode? text = some read := by decide +kernel
  have decoded' : Outcome.decode? values = some read := by decide +kernel
  exact ⟨⟨words, outcome_round_trip.1 o words⟩, decoded, decoded',
    outcome_round_trip.2 values read decoded'⟩

end LambdaTally
