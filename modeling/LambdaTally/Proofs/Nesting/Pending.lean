import Mathlib.Data.List.Induction
import LambdaTally.Proofs.Nesting.Step

/-!
# LambdaTally.Proofs.Nesting.Pending

The brackets that a text leaves open. `Pending text openers` reads them off the text itself: it
falls into well-nested stretches with one open bracket between two of them. `scan` keeps the same
list by a single pass, and stops at the first bracket that does not pair up.

* `scan_pending`: after a text with these pending brackets, the pass stands at exactly them.
* `pending_or_stuck`: any text either has pending brackets or has a beginning that does, followed
  by a bracket that closes none of them.
* `extendable_iff`: a text can be carried on to a well-nested one exactly if it has pending
  brackets (none is as good as some), so the bracket of `pending_or_stuck` ends the shortest
  beginning that cannot.
-/

namespace LambdaTally

open Utf8

/-- The brackets that a text leaves open, innermost first, each with its position. -/
inductive Pending : List Char → List (Bracket × Nat) → Prop where
  | closed {text : List Char} : WellNested text → Pending text []
  | opened {before inside : List Char} {openers : List (Bracket × Nat)} (kind : Bracket) :
      Pending before openers → WellNested inside →
      Pending (before ++ kind.opening :: inside) ((kind, byteLength before) :: openers)

/-- The text can be carried on to a well-nested one. -/
def Extendable (text : List Char) : Prop := ∃ more, WellNested (text ++ more)

/-- The brackets left open by a text that follows others, or the first that does not pair up. -/
def scan : (position : Nat) → (openers : List (Bracket × Nat)) → List Char →
    Except NestingError (List (Bracket × Nat))
  | _, openers, [] => .ok openers
  | position, openers, ch :: rest =>
    match Bracket.ofOpening? ch, Bracket.ofClosing? ch, openers with
    | some kind, _, _ => scan (position + 1) ((kind, position) :: openers) rest
    | none, some kind, [] => .error (.unexpectedClose kind position)
    | none, some kind, (opened, openedAt) :: outer =>
      if opened = kind then scan (position + 1) outer rest
      else .error (.mismatched opened kind position openedAt)
    | none, none, _ => scan (position + ch.utf8Size) openers rest

theorem scan_opening (position : Nat) (openers : List (Bracket × Nat)) (kind : Bracket)
    (rest : List Char) :
    scan position openers (kind.opening :: rest) =
      scan (position + 1) ((kind, position) :: openers) rest := by
  simp [scan]

theorem scan_closing (position openedAt : Nat) (outer : List (Bracket × Nat)) (kind : Bracket)
    (rest : List Char) :
    scan position ((kind, openedAt) :: outer) (kind.closing :: rest) =
      scan (position + 1) outer rest := by
  simp [scan]

theorem scan_unexpected (position : Nat) (kind : Bracket) (rest : List Char) :
    scan position [] (kind.closing :: rest) = .error (.unexpectedClose kind position) := by
  simp [scan]

theorem scan_mismatched (position openedAt : Nat) (outer : List (Bracket × Nat))
    {opened kind : Bracket} (h : opened ≠ kind) (rest : List Char) :
    scan position ((opened, openedAt) :: outer) (kind.closing :: rest) =
      .error (.mismatched opened kind position openedAt) := by
  simp [scan, h]

theorem scan_plain (position : Nat) (openers : List (Bracket × Nat)) {ch : Char}
    (plain : Bracket.isBracket ch = false) (rest : List Char) :
    scan position openers (ch :: rest) = scan (position + ch.utf8Size) openers rest := by
  simp [scan, Bracket.ofOpening?_eq_none plain, Bracket.ofClosing?_eq_none plain]

/-- A content passes without a trace. -/
theorem scan_forest (f : Forest) (position : Nat) (openers : List (Bracket × Nat))
    (rest : List Char) :
    scan position openers (f.text ++ rest) = scan (position + byteLength f.text) openers rest := by
  induction f generalizing position openers rest with
  | nil => rfl
  | char ch plain more ih =>
    rw [Forest.text, List.cons_append, scan_plain _ _ plain, ih, byteLength_cons, Nat.add_assoc]
  | group kind inside more ihi ihm =>
    rw [Forest.text, List.append_assoc, List.cons_append, scan_opening, ihi, List.cons_append,
      scan_closing, ihm]
    congr 1
    rw [Bracket.byteLength_group]
    omega

theorem scan_wellNested {text : List Char} (h : WellNested text) (position : Nat)
    (openers : List (Bracket × Nat)) (rest : List Char) :
    scan position openers (text ++ rest) = scan (position + byteLength text) openers rest := by
  obtain ⟨f, rfl⟩ := wellNested_iff_exists_forest.1 h
  exact scan_forest f position openers rest

theorem scan_pending {text : List Char} {openers : List (Bracket × Nat)}
    (h : Pending text openers) (rest : List Char) :
    scan 0 [] (text ++ rest) = scan (byteLength text) openers rest := by
  induction h generalizing rest with
  | closed hw => rw [scan_wellNested hw, Nat.zero_add]
  | @opened before inside openers kind _ hi ih =>
    rw [List.append_assoc, ih, List.cons_append, scan_opening, scan_wellNested hi]
    congr 1
    simp only [byteLength_append, byteLength_cons, Bracket.utf8Size_opening]
    omega

theorem scan_of_pending {text : List Char} {openers : List (Bracket × Nat)}
    (h : Pending text openers) : scan 0 [] text = .ok openers := by
  have := scan_pending h []
  rwa [List.append_nil] at this

namespace Pending

/-- A text leaves at most one list of brackets open. -/
theorem unique {text : List Char} {a b : List (Bracket × Nat)} (ha : Pending text a)
    (hb : Pending text b) : a = b := by
  have := (scan_of_pending ha).symm.trans (scan_of_pending hb)
  exact Except.ok.inj this

theorem append {text more : List Char} {openers : List (Bracket × Nat)} (h : Pending text openers)
    (hm : WellNested more) : Pending (text ++ more) openers := by
  cases h with
  | closed hw => exact .closed (hw.append hm)
  | opened kind hb hi =>
    rw [List.append_assoc, List.cons_append]
    exact .opened kind hb (hi.append hm)

theorem plain {text : List Char} {openers : List (Bracket × Nat)} (h : Pending text openers)
    {ch : Char} (hch : Bracket.isBracket ch = false) : Pending (text ++ [ch]) openers :=
  h.append (.char hch .nil)

theorem opening {text : List Char} {openers : List (Bracket × Nat)} (h : Pending text openers)
    (kind : Bracket) : Pending (text ++ [kind.opening]) ((kind, byteLength text) :: openers) :=
  .opened kind h .nil

theorem closing {text : List Char} {kind : Bracket} {openedAt : Nat}
    {outer : List (Bracket × Nat)} (h : Pending text ((kind, openedAt) :: outer)) :
    Pending (text ++ [kind.closing]) outer := by
  cases h with
  | opened _ hb hi =>
    have := hb.append (WellNested.group kind hi .nil)
    simpa using this

/-- Closing every pending bracket in turn makes the text well nested. -/
theorem extendable {text : List Char} {openers : List (Bracket × Nat)}
    (h : Pending text openers) : Extendable text := by
  induction openers generalizing text with
  | nil =>
    cases h with
    | closed hw => exact ⟨[], by simpa using hw⟩
  | cons opener outer ih =>
    obtain ⟨kind, openedAt⟩ := opener
    obtain ⟨more, hm⟩ := ih h.closing
    exact ⟨kind.closing :: more, by simpa using hm⟩

end Pending

/-- The bracket that ends `before ++ [kind.closing]` closes none of the pending ones. -/
def Stuck (before : List Char) (kind : Bracket) (openers : List (Bracket × Nat)) : Prop :=
  Pending before openers ∧ ∀ openedAt outer, openers ≠ (kind, openedAt) :: outer

theorem pending_or_stuck (text : List Char) :
    (∃ openers, Pending text openers) ∨
      ∃ before kind after openers, text = before ++ kind.closing :: after ∧
        Stuck before kind openers := by
  induction text using List.reverseRecOn with
  | nil => exact .inl ⟨[], .closed .nil⟩
  | append_singleton text ch ih =>
    rcases ih with ⟨openers, h⟩ | ⟨before, kind, after, openers, rfl, hs⟩
    · rcases Bracket.sorts ch with ⟨kind, rfl⟩ | ⟨kind, rfl⟩ | plain
      · exact .inl ⟨_, h.opening kind⟩
      · by_cases closes : ∃ openedAt outer, openers = (kind, openedAt) :: outer
        · obtain ⟨openedAt, outer, rfl⟩ := closes
          exact .inl ⟨outer, h.closing⟩
        · refine .inr ⟨text, kind, [], openers, rfl, h, ?_⟩
          intro openedAt outer e
          exact closes ⟨openedAt, outer, e⟩
      · exact .inl ⟨openers, h.plain plain⟩
    · exact .inr ⟨before, kind, after ++ [ch], openers, by simp, hs⟩

/-- The error of a bracket that closes none of the pending ones. -/
def stuckError (kind : Bracket) (position : Nat) : List (Bracket × Nat) → NestingError
  | [] => .unexpectedClose kind position
  | (opened, openedAt) :: _ => .mismatched opened kind position openedAt

theorem scan_stuck {before : List Char} {kind : Bracket} {openers : List (Bracket × Nat)}
    (h : Stuck before kind openers) (after : List Char) :
    scan 0 [] (before ++ kind.closing :: after) =
      .error (stuckError kind (byteLength before) openers) := by
  obtain ⟨hp, hne⟩ := h
  rw [scan_pending hp]
  cases openers with
  | nil => exact scan_unexpected _ _ _
  | cons opener outer =>
    obtain ⟨opened, openedAt⟩ := opener
    refine scan_mismatched _ _ _ ?_ _
    rintro rfl
    exact hne openedAt outer rfl

/-- Past a bracket that closes none of the pending ones no text can go on. -/
theorem Stuck.not_extendable {before : List Char} {kind : Bracket}
    {openers : List (Bracket × Nat)} (h : Stuck before kind openers) (after : List Char) :
    ¬ Extendable (before ++ kind.closing :: after) := by
  rintro ⟨more, hw⟩
  have ok := scan_of_pending (.closed hw)
  rw [List.append_assoc, List.cons_append, scan_stuck h] at ok
  cases ok

theorem extendable_iff {text : List Char} : Extendable text ↔ ∃ openers, Pending text openers := by
  constructor
  · intro h
    rcases pending_or_stuck text with hp | ⟨before, kind, after, openers, rfl, hs⟩
    · exact hp
    · exact absurd h (hs.not_extendable after)
  · rintro ⟨openers, h⟩
    exact h.extendable

theorem Extendable.of_append {text more : List Char} (h : Extendable (text ++ more)) :
    Extendable text := by
  obtain ⟨rest, hw⟩ := h
  exact ⟨more ++ rest, by rwa [List.append_assoc] at hw⟩

end LambdaTally
