import LambdaTally.Output
import Mathlib.Data.List.Basic

/-!
# LambdaTally.Proofs.Output.Records

Reading back the records of a table whose fields are divided by commas. A record ends with its line,
at a line feed with or without a carriage return before it. A field without quotes holds no comma, quote
or character of a line end; in a quoted field a doubled quote stands for one.

A field is quoted for every character that would break it, the carriage return excepted. So the records
are read back as long as every path with a carriage return has one of the other characters too, and a
path that has not makes the table unreadable (`csv_read_back`).
-/

namespace LambdaTally
namespace Records

/-! ## The reader -/

/-- The part of a field that a reader is in. Behind a quote inside a quoted field it is `closing`: a second
quote goes on with the field, and anything else must end it. Behind the carriage return of a line end it is
`returned`. -/
inductive Place where
  | bare
  | quoted
  | closing
  | returned
  deriving DecidableEq, Repr

/-- A reader in the middle of a text: the field that it is in, the fields of the record before that, and
the records before that, all latest first. -/
structure Reader where
  place : Place
  field : List Char
  fields : List (List Char)
  records : List (List (List Char))
  deriving DecidableEq, Repr

namespace Reader

def start : Reader := ⟨.bare, [], [], []⟩

def take (r : Reader) (c : Char) : Reader := { r with field := c :: r.field }

def endField (r : Reader) : Reader := ⟨.bare, [], r.field.reverse :: r.fields, r.records⟩

def endRecord (r : Reader) : Reader := ⟨.bare, [], [], r.endField.fields.reverse :: r.records⟩

/-- Takes in a character that ends the field. -/
def leave (r : Reader) (c : Char) : Option Reader :=
  if c = ',' then some r.endField
  else if c = '\n' then some r.endRecord
  else if c = '\r' then some { r with place := .returned }
  else none

/-- Takes in a character. A quote opens a quoted field where nothing of the field has been read yet. -/
def step (r : Reader) (c : Char) : Option Reader :=
  match r.place with
  | .bare =>
    if c = '"' then if r.field = [] then some { r with place := .quoted } else none
    else (r.leave c).or (some (r.take c))
  | .quoted => some (if c = '"' then { r with place := .closing } else r.take c)
  | .closing => if c = '"' then some { r.take c with place := .quoted } else r.leave c
  | .returned => if c = '\n' then some r.endRecord else none

def run (r : Reader) (text : List Char) : Option Reader := text.foldlM step r

/-- The records, at the end of the text. The last one need not end its line. -/
def finish (r : Reader) : Option (List (List (List Char))) :=
  match r.place with
  | .bare =>
    some (if r.field = [] ∧ r.fields = [] then r.records else r.endRecord.records).reverse
  | .closing => some r.endRecord.records.reverse
  | .quoted | .returned => none

end Reader

/-- Reads the records of a text. -/
def read? (text : List Char) : Option (List (List (List Char))) :=
  (Reader.start.run text).bind Reader.finish

/-! ## Stretches of a record -/

/-- A character that a field without quotes may hold. -/
def IsBare (c : Char) : Prop := c ≠ ',' ∧ c ≠ '"' ∧ c ≠ '\r' ∧ c ≠ '\n'

/-- A carriage return in the text comes with a character for which the text is quoted. -/
def Shielded (text : List Char) : Prop := '\r' ∈ text → ',' ∈ text ∨ '"' ∈ text ∨ '\n' ∈ text

instance (text : List Char) : Decidable (Shielded text) := inferInstanceAs (Decidable (_ → _))

namespace Reader

variable {r : Reader} {f text rest : List Char} {fs : List (List Char)} {rs : List (List (List Char))}

theorem run_cons (r : Reader) (c : Char) (text : List Char) :
    r.run (c :: text) = (r.step c).bind (run · text) := by
  rw [run, List.foldlM_cons]
  rfl

theorem run_append (r : Reader) (a b : List Char) : r.run (a ++ b) = (r.run a).bind (run · b) := by
  rw [run, List.foldlM_append]
  rfl

theorem step_bare {c : Char} (bare : IsBare c) :
    step ⟨.bare, f, fs, rs⟩ c = some ⟨.bare, c :: f, fs, rs⟩ := by
  obtain ⟨comma, quote, ret, feed⟩ := bare
  simp [step, leave, take, comma, quote, ret, feed]

theorem run_bare (bare : ∀ c ∈ text, IsBare c) :
    run ⟨.bare, f, fs, rs⟩ text = some ⟨.bare, text.reverse ++ f, fs, rs⟩ := by
  induction text generalizing f with
  | nil => rfl
  | cons c text ih =>
    obtain ⟨first, others⟩ := List.forall_mem_cons.1 bare
    rw [run_cons, step_bare first, Option.bind_some, ih others, List.reverse_cons, List.append_assoc]
    rfl

theorem run_doubled :
    run ⟨.quoted, f, fs, rs⟩ (text.flatMap fun c => if c = '"' then ['"', '"'] else [c]) =
      some ⟨.quoted, text.reverse ++ f, fs, rs⟩ := by
  induction text generalizing f with
  | nil => rfl
  | cons c text ih =>
    have taken : run ⟨.quoted, f, fs, rs⟩ (if c = '"' then ['"', '"'] else [c]) =
        some ⟨.quoted, c :: f, fs, rs⟩ := by
      split
      · subst c
        rfl
      · rename_i other
        rw [run_cons, step]
        simp only [if_neg other]
        rfl
    rw [List.flatMap_cons, run_append, taken, Option.bind_some, ih, List.reverse_cons,
      List.append_assoc]
    rfl

theorem run_quote :
    run ⟨.bare, [], fs, rs⟩ (Delimited.quote text) = some ⟨.closing, text.reverse, fs, rs⟩ := by
  rw [Delimited.quote, List.cons_append, run_cons]
  have opened : step ⟨.bare, [], fs, rs⟩ '"' = some ⟨.quoted, [], fs, rs⟩ := rfl
  rw [opened, Option.bind_some, run_append, run_doubled, List.append_nil]
  rfl

/-! ## Records -/

theorem any_needsQuotes_iff :
    text.any Delimited.needsQuotes = true ↔ ',' ∈ text ∨ '"' ∈ text ∨ '\n' ∈ text := by
  simp only [List.any_eq_true, Delimited.needsQuotes, Bool.or_eq_true, beq_iff_eq]
  constructor
  · rintro ⟨c, member, (rfl | rfl) | rfl⟩
    · exact .inl member
    · exact .inr (.inl member)
    · exact .inr (.inr member)
  · rintro (member | member | member)
    · exact ⟨_, member, .inl (.inl rfl)⟩
    · exact ⟨_, member, .inl (.inr rfl)⟩
    · exact ⟨_, member, .inr rfl⟩

theorem isBare_of_unquoted (plain : text.any Delimited.needsQuotes = false) {c : Char} (member : c ∈ text)
    (ret : c ≠ '\r') : IsBare c := by
  have none_needed : Delimited.needsQuotes c = false := by
    simpa using List.any_eq_false.1 plain c member
  simp only [Delimited.needsQuotes, Bool.or_eq_false_iff, beq_eq_false_iff_ne] at none_needed
  exact ⟨none_needed.1.1, none_needed.1.2, ret, none_needed.2⟩

/-- A written field and the comma behind it. -/
theorem run_field (shielded : Shielded text) :
    run ⟨.bare, [], fs, rs⟩ (Delimited.field [','] text ++ [',']) =
      some ⟨.bare, [], text :: fs, rs⟩ := by
  rw [run_append, Delimited.field]
  split
  · rw [run_quote, Option.bind_some]
    simp [run, step, leave, endField]
  · rename_i unquoted
    have plain : text.any Delimited.needsQuotes = false := by simpa using unquoted
    have bare : ∀ c ∈ text, IsBare c := by
      intro c member
      refine isBare_of_unquoted plain member ?_
      rintro rfl
      rw [any_needsQuotes_iff.2 (shielded member)] at plain
      cases plain
    rw [run_bare bare, Option.bind_some, List.append_nil]
    simp [run, step, leave, endField]

theorem run_record (shielded : Shielded text) {second : List Char} (bare : ∀ c ∈ second, IsBare c) :
    run ⟨.bare, [], [], rs⟩ (Delimited.record [','] (Delimited.field [','] text) second) =
      some ⟨.bare, [], [], [text, second] :: rs⟩ := by
  rw [Delimited.record, List.append_assoc, run_append, run_field shielded, Option.bind_some,
    run_append, run_bare bare, Option.bind_some, List.append_nil]
  simp [run, step, leave, endRecord, endField]

/-- A bare carriage return that ends no line. -/
theorem run_returned (plain : text.any Delimited.needsQuotes = false) (ret : '\r' ∈ text) :
    run ⟨.bare, f, fs, rs⟩ (text ++ ',' :: rest) = none := by
  induction text generalizing f with
  | nil => cases ret
  | cons c text ih =>
    have later : text.any Delimited.needsQuotes = false := by
      rw [List.any_cons, Bool.or_eq_false_iff] at plain
      exact plain.2
    rw [List.cons_append, run_cons]
    by_cases here : c = '\r'
    · subst c
      -- What comes behind it is the next character of the field or the comma, never a line feed.
      have stuck : ∀ d tail, d ≠ '\n' → run ⟨.returned, f, fs, rs⟩ (d :: tail) = none := by
        intro d tail other
        rw [run_cons, step]
        simp only [if_neg other]
        rfl
      have returned : step ⟨.bare, f, fs, rs⟩ '\r' = some ⟨.returned, f, fs, rs⟩ := rfl
      rw [returned, Option.bind_some]
      cases text with
      | nil => exact stuck ',' rest (by decide)
      | cons d text =>
        refine stuck d (text ++ ',' :: rest) ?_
        rintro rfl
        cases later
    · have bare := isBare_of_unquoted plain List.mem_cons_self here
      rw [step_bare bare, Option.bind_some]
      exact ih later ((List.mem_cons.1 ret).resolve_left (Ne.symm here))

end Reader

/-! ## The table -/

open Reader

theorem integer_eq (n : Int) : Delimited.integer n = (toString n).toList := by
  cases n with
  | ofNat n => simp [Delimited.integer, toString, Int.repr]
  | negSucc n => simp [Delimited.integer, toString, Int.repr, String.toList_append]

theorem isBare_integer (n : Int) : ∀ c ∈ Delimited.integer n, IsBare c := by
  have digits (n : Nat) : ∀ c ∈ Nat.toDigits 10 n, IsBare c := by
    intro c member
    have digit : c.isDigit = true := Nat.isDigit_of_mem_toDigits (by decide) (by decide) member
    refine ⟨?_, ?_, ?_, ?_⟩ <;>
      · rintro rfl
        cases digit
  cases n with
  | ofNat n => exact digits n
  | negSucc n => exact List.forall_mem_cons.2 ⟨by simp [IsBare], digits (n + 1)⟩

/-- The record of a report: its path as it is shown, and its count in decimal. -/
def ofReport (r : FileReport) : List (List Char) :=
  [r.path.display, (toString r.status.countValue).toList]

/-- The line of a report in the table. -/
def line (r : FileReport) : List Char :=
  Delimited.record [','] (Delimited.field [','] r.path.display) (Delimited.integer r.status.countValue)

variable {reports : List FileReport} {rs : List (List (List Char))}

theorem run_line {r : FileReport} (shielded : Shielded r.path.display) :
    run ⟨.bare, [], [], rs⟩ (line r) = some ⟨.bare, [], [], ofReport r :: rs⟩ := by
  rw [line, run_record shielded (isBare_integer _), integer_eq]
  rfl

theorem run_lines (shielded : ∀ r ∈ reports, Shielded r.path.display) :
    run ⟨.bare, [], [], rs⟩ (reports.flatMap line) =
      some ⟨.bare, [], [], (reports.map ofReport).reverse ++ rs⟩ := by
  induction reports generalizing rs with
  | nil => rfl
  | cons r reports ih =>
    obtain ⟨first, others⟩ := List.forall_mem_cons.1 shielded
    rw [List.flatMap_cons, run_append, run_line first, Option.bind_some, ih others, List.map_cons,
      List.reverse_cons, List.append_assoc]
    rfl

/-- The first path that is not shielded stops the reader. -/
theorem run_lines_eq_none (unshielded : ∃ r ∈ reports, ¬ Shielded r.path.display) :
    run ⟨.bare, [], [], rs⟩ (reports.flatMap line) = none := by
  induction reports generalizing rs with
  | nil =>
    obtain ⟨r, member, -⟩ := unshielded
    cases member
  | cons r reports ih =>
    rw [List.flatMap_cons, run_append]
    by_cases first : Shielded r.path.display
    · rw [run_line first, Option.bind_some]
      refine ih ?_
      obtain ⟨other, member, bare⟩ := unshielded
      rcases List.mem_cons.1 member with rfl | later
      · exact absurd first bare
      · exact ⟨other, later, bare⟩
    · obtain ⟨ret, bare⟩ := Classical.not_imp.1 first
      have plain : r.path.display.any Delimited.needsQuotes = false := by
        rwa [← any_needsQuotes_iff, Bool.not_eq_true] at bare
      have unquoted : Delimited.field [','] r.path.display = r.path.display := by
        rw [Delimited.field, plain, if_neg (by simp)]
      rw [line, Delimited.record, unquoted]
      simp only [List.append_assoc]
      rw [List.singleton_append, run_returned plain ret]
      rfl

theorem read?_counts (reports : List FileReport) :
    read? (Delimited.counts [','] reports) =
      if ∀ r ∈ reports, Shielded r.path.display then
        some (["path".toList, "count".toList] :: reports.map ofReport)
      else none := by
  have heading : start.run (Delimited.record [','] "path".toList "count".toList) =
      some ⟨.bare, [], [], [["path".toList, "count".toList]]⟩ := by
    decide
  have written : Delimited.counts [','] reports =
      Delimited.record [','] "path".toList "count".toList ++ reports.flatMap line := rfl
  rw [read?, written, run_append, heading, Option.bind_some]
  split
  · rename_i shielded
    rw [run_lines shielded, Option.bind_some, finish]
    simp
  · rename_i unshielded
    rw [run_lines_eq_none (by simpa using unshielded)]
    rfl

end Records

/-- **The table of counts is read back.** If every path with a carriage return has a comma, a quote or a
line feed as well, the comma-separated table of any reports is read as the heading and one record for each
report, in order, of its path as it is shown and its count (-1 for a skipped file). If a path has a
carriage return but none of the others, the reader refuses the table. -/
theorem csv_read_back (jobs : Nat) (reports : List FileReport) :
    ∃ text, (Output.write .csv .full jobs reports).result = .ok text ∧
      Records.read? text =
        if ∀ r ∈ reports, Records.Shielded r.path.display then
          some (["path".toList, "count".toList] ::
            reports.map fun r => [r.path.display, (toString r.status.countValue).toList])
        else none :=
  ⟨_, rfl, Records.read?_counts reports⟩

theorem csv_carriage_return :
    let report : FileReport := ⟨.ofString "a\rb.cpp", .counted 1, []⟩
    (Output.write .csv .full 1 [report]).result = .ok "path,count\na\rb.cpp,1\n".toList ∧
      Records.read? "path,count\na\rb.cpp,1\n".toList = none := by
  decide +kernel

end LambdaTally
