import LambdaTally.Outcome
import LambdaTally.Proofs.Nesting.Calls
import LambdaTally.Proofs.Nesting.Pending

/-!
# LambdaTally.Proofs.Nesting.Failure

When a pass over a structural text fails, and with which bracket. `failure_run` forgets the groups
being written and keeps the open brackets, so the failure is that of `scan`; what `scan` finds is
read off the text by `NestingError.Describes`, which knows no pass: the shortest beginning that
cannot be carried on to a well-nested text, and the brackets pending before its end.

`malformed_iff` puts this together for a source, for a structural text and for its leaves taken one
call at a time.
-/

namespace LambdaTally

open Utf8

/-- `before` can be carried on to a well-nested text; with the closing bracket that follows it in
`text` it cannot. -/
def DeadEnd (text before : List Char) (kind : Bracket) : Prop :=
  before ++ [kind.closing] <+: text ∧ Extendable before ∧ ¬ Extendable (before ++ [kind.closing])

/-- What a nesting error says about a text. -/
def NestingError.Describes : NestingError → List Char → Prop
  | .unexpectedClose found position, text =>
    ∃ before, DeadEnd text before found ∧ position = byteLength before ∧ Pending before []
  | .mismatched opened found position openedAt, text =>
    ∃ before outer, DeadEnd text before found ∧ position = byteLength before ∧
      Pending before ((opened, openedAt) :: outer)
  | .unclosed opened openedAt pending, text =>
    (∀ before, before <+: text → Extendable before) ∧ ¬ WellNested text ∧
      ∃ outer, Pending text ((opened, openedAt) :: outer) ∧ pending = outer.length + 1

/-- The error that the outcome of a scan amounts to at the end of the text. -/
def verdict : Except NestingError (List (Bracket × Nat)) → Option NestingError
  | .ok [] => none
  | .ok ((kind, openedAt) :: outer) => some (.unclosed kind openedAt (outer.length + 1))
  | .error e => some e

/-- The pass fails as the scan of its open brackets does, whatever it has written. -/
theorem failure_run (n : Nesting) (leaves : List Leaf) (text : List Char) :
    (Flattening.run n leaves text).failure = verdict (scan n.position n.openers text) := by
  induction text generalizing n leaves with
  | nil =>
    cases hp : n.pending with
    | nil => simp [Flattening.run, Nesting.finish, hp, scan, Nesting.openers, verdict]
    | cons top outer => simp [Flattening.run, Nesting.finish, hp, scan, Nesting.openers, verdict]
  | cons ch rest ih =>
    rcases Bracket.sorts ch with ⟨kind, rfl⟩ | ⟨kind, rfl⟩ | plain
    · simp only [Flattening.run, Nesting.step_opening]
      rw [ih, scan_opening]
      simp
    · simp only [Flattening.run, Nesting.step_closing, Nesting.closeGroup]
      cases hp : n.pending with
      | nil =>
        have ho : n.openers = [] := by simp [Nesting.openers, hp]
        rw [ho, scan_unexpected]
        rfl
      | cons top outer =>
        have ho : n.openers = (top.kind, top.openedAt) :: outer.map fun g => (g.kind, g.openedAt) := by
          simp [Nesting.openers, hp]
        by_cases hk : top.kind = kind
        · subst hk
          rw [ho, scan_closing]
          simp only [if_true, Except.map]
          rw [ih, Nesting.openers_moved, Nesting.openers_collapse]
          simp [Nesting.openers]
        · rw [ho, scan_mismatched _ _ _ hk]
          simp only [if_neg hk, Except.map]
          rfl
    · simp only [Flattening.run, Nesting.step_plain n plain]
      rw [ih, scan_plain _ _ plain]
      simp

theorem failure_flatten (s : Structural) : s.flatten.failure = verdict (scan 0 [] s.text) :=
  failure_run _ _ _

theorem verdict_of_pending {text : List Char} {openers : List (Bracket × Nat)}
    (h : Pending text openers) : verdict (scan 0 [] text) = verdict (.ok openers) := by
  rw [scan_of_pending h]

theorem verdict_wellNested_iff (text : List Char) :
    verdict (scan 0 [] text) = none ↔ WellNested text := by
  constructor
  · intro h
    rcases pending_or_stuck text with ⟨openers, hp⟩ | ⟨before, kind, after, openers, rfl, hs⟩
    · rw [verdict_of_pending hp] at h
      cases hp with
      | closed hw => exact hw
      | opened kind hb hi => cases h
    · rw [scan_stuck hs] at h
      cases h
  · intro h
    rw [verdict_of_pending (.closed h)]
    rfl

/-- The failure of a scan describes the text: it ends with brackets pending, or stuck. -/
theorem describes_of_verdict {text : List Char} {e : NestingError}
    (h : verdict (scan 0 [] text) = some e) : e.Describes text := by
  rcases pending_or_stuck text with ⟨openers, hp⟩ | ⟨before, kind, after, openers, rfl, hs⟩
  · cases openers with
    | nil => rw [verdict_of_pending hp] at h; cases h
    | cons opener outer =>
      rw [verdict_of_pending hp] at h
      cases h
      refine ⟨?_, ?_, outer, hp, rfl⟩
      · rintro before ⟨more, rfl⟩
        exact hp.extendable.of_append
      · intro hw
        cases Pending.unique hp (.closed hw)
  · have dead : DeadEnd (before ++ kind.closing :: after) before kind :=
      ⟨⟨after, by simp⟩, hs.1.extendable, hs.not_extendable []⟩
    rw [scan_stuck hs] at h
    cases h
    cases openers with
    | nil => exact ⟨before, dead, rfl, hs.1⟩
    | cons opener outer => exact ⟨before, outer, dead, rfl, hs.1⟩

/-- A dead end is where the scan gets stuck. -/
theorem DeadEnd.stuck {text before : List Char} {kind : Bracket} (h : DeadEnd text before kind)
    {openers : List (Bracket × Nat)} (hp : Pending before openers) : Stuck before kind openers := by
  refine ⟨hp, ?_⟩
  rintro openedAt outer rfl
  exact h.2.2 hp.closing.extendable

theorem DeadEnd.verdict_eq {text before : List Char} {kind : Bracket} (h : DeadEnd text before kind)
    {openers : List (Bracket × Nat)} (hp : Pending before openers) :
    verdict (scan 0 [] text) = some (stuckError kind (byteLength before) openers) := by
  obtain ⟨after, rfl⟩ := h.1
  rw [List.append_assoc, List.singleton_append, scan_stuck (h.stuck hp)]
  rfl

theorem verdict_eq_some_iff {text : List Char} {e : NestingError} :
    verdict (scan 0 [] text) = some e ↔ e.Describes text := by
  constructor
  · exact describes_of_verdict
  · cases e with
    | unexpectedClose found position =>
      rintro ⟨before, dead, rfl, hp⟩
      exact dead.verdict_eq hp
    | mismatched opened found position openedAt =>
      rintro ⟨before, outer, dead, rfl, hp⟩
      exact dead.verdict_eq hp
    | unclosed opened openedAt pending =>
      rintro ⟨-, -, outer, hp, rfl⟩
      exact verdict_of_pending hp

/-- **Malformed nesting, decided and explained.** A source is skipped as malformed exactly if the
brackets of its structural text do not pair up. The failure of any structural text is the error that
describes it; the leaves come one call at a time, the failure after the last of them, and every call
after that answers nothing. -/
theorem malformed_iff :
    (∀ sampling source, Outcome.ofSource sampling source = .skipped .malformedBrackets ↔
      ¬ WellNested (Structural.ofSource source).text) ∧
    ∀ s : Structural,
      (s.flatten.failure = none ↔ WellNested s.text) ∧
      (∀ e, s.flatten.failure = some e ↔ e.Describes s.text) ∧
      (∀ k, (LeafStream.start s).call k = s.flatten.items[k]?) ∧
      (∀ k e, (LeafStream.start s).call k = some (.error e) ↔
        s.flatten.failure = some e ∧ k = s.flatten.leaves.length) ∧
      ∀ k, (LeafStream.start s).call k = none ↔
        s.flatten.leaves.length + s.flatten.failure.toList.length ≤ k := by
  refine ⟨?_, ?_⟩
  · intro sampling source
    rw [← verdict_wellNested_iff, ← failure_flatten]
    unfold Outcome.ofSource Structural.lambdas
    cases h : (Structural.ofSource source).flatten.failure with
    | none => simp [h]
    | some e => simp [h, NestingError.skipReason]
  · intro s
    refine ⟨?_, ?_, ?_, ?_, ?_⟩
    · rw [failure_flatten]
      exact verdict_wellNested_iff s.text
    · intro e
      rw [failure_flatten]
      exact verdict_eq_some_iff
    · exact LeafStream.call_start s
    · intro k e
      rw [LeafStream.call_start]
      exact s.flatten.items_error_iff k e
    · intro k
      rw [LeafStream.call_start, List.getElem?_eq_none_iff]
      cases h : s.flatten.failure <;> simp [Flattening.items, h]

end LambdaTally
