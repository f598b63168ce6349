import LambdaTally.Proofs.Grammar.Ending
import LambdaTally.Proofs.Nesting.Spacing
import LambdaTally.Proofs.Structural.Steps

/-!
# LambdaTally.Proofs.Whitespace

The blanks of structural texts and of leaves (`whitespace_shape`). A draft writes no blank but the space,
and it never takes anything back, so whatever stands between two tokens of a source leaves one space or
nothing (`Separated`). A leaf has no other characters than the structural text and brackets, and blanks
stand alone in both (`spaced_of_mem_leaves`). Therefore one optional blank between the tokens of the
grammar is enough.
-/

namespace LambdaTally

open Utf8 Structural CharClass

/-- The space is the only blank of the text. -/
def OnlySpaces (text : List Char) : Prop := ∀ ch ∈ text, isBlank ch = true → ch = ' '

namespace OnlySpaces

variable {a b : List Char} {ch : Char}

theorem nil : OnlySpaces [] := by
  intro ch h
  cases h

theorem of_plain (plain : isBlank ch = false) (h : OnlySpaces a) : OnlySpaces (ch :: a) := by
  refine List.forall_mem_cons.2 ⟨?_, h⟩
  intro blank
  rw [plain] at blank
  cases blank

theorem append (ha : OnlySpaces a) (hb : OnlySpaces b) : OnlySpaces (a ++ b) :=
  List.forall_mem_append.2 ⟨ha, hb⟩

theorem reverse (h : OnlySpaces a) : OnlySpaces a.reverse :=
  fun ch member => h ch (List.mem_reverse.1 member)

end OnlySpaces

/-! ## What a draft writes -/

namespace Structural

variable {c e : Cursor} {d f : Draft} {piece : Piece}

theorem Draft.written_space (d : Draft) :
    d.space.written = if d.written.head? = some ' ' then d.written else ' ' :: d.written := by
  unfold Draft.space
  split <;> rfl

theorem Draft.written_space_congr (h : f.written = d.written) : f.space.written = d.space.written := by
  rw [Draft.written_space, Draft.written_space, h]

/-- A second space is never written. -/
theorem Draft.written_space_space (d : Draft) : d.space.space.written = d.space.written := by
  rw [Draft.written_space, if_pos]
  rw [Draft.written_space]
  split
  · assumption
  · rfl

/-- A piece adds to the text, and the space is the only blank that it adds. -/
theorem Draft.written_add (d : Draft) (fits : piece.Fits c) :
    ∃ new, (d.add piece).written = new ++ d.written ∧ OnlySpaces new := by
  have spaced : ∃ new, d.space.written = new ++ d.written ∧ OnlySpaces new := by
    unfold Draft.space
    split
    · exact ⟨[], rfl, .nil⟩
    · exact ⟨[' '], rfl, by simp [OnlySpaces]⟩
  have quotes {quote : Char} (plain : isBlank quote = false) : OnlySpaces [quote, quote] :=
    .of_plain plain (.of_plain plain .nil)
  cases piece with
  | newline => exact spaced
  | blank => exact spaced
  | blockComment => exact spaced
  | directive => exact ⟨[], rfl, .nil⟩
  | lineComment => exact ⟨[], rfl, .nil⟩
  | string => exact ⟨['"', '"'], rfl, quotes (by decide)⟩
  | rawString => exact ⟨['"', '"'], rfl, quotes (by decide)⟩
  | character => exact ⟨['\'', '\''], rfl, quotes (by decide)⟩
  | digitSeparator => exact ⟨['\''], rfl, .of_plain (by decide) .nil⟩
  | square offset => exact ⟨['['], rfl, .of_plain (by decide) .nil⟩
  | plain ch => exact ⟨[ch], rfl, .of_plain fits.2 .nil⟩

theorem written_reduceFrom (c : Cursor) (d : Draft) :
    ∃ new, (reduceFrom c d).written = new ++ d.written ∧ OnlySpaces new := by
  fun_induction reduceFrom c d with
  | case1 => exact ⟨[], rfl, .nil⟩
  | case2 c d piece next hr ih =>
    obtain ⟨first, added, here⟩ := d.written_add (Piece.read?_spec hr).2
    obtain ⟨more, rest, later⟩ := ih
    exact ⟨more ++ first, by rw [rest, added, List.append_assoc], later.append here⟩

theorem onlySpaces_ofSource (source : List Char) : OnlySpaces (ofSource source).text := by
  obtain ⟨new, whole, spaces⟩ := written_reduceFrom (.ofSource source) .empty
  have same : (reduceFrom (.ofSource source) .empty).written = new := by
    rw [whole]
    exact List.append_nil new
  exact (same ▸ spaces).reverse

/-- A piece that stands between the tokens of a source. -/
inductive Layout : Piece → Prop where
  | newline : Layout .newline
  | blank : Layout .blank
  | directive : Layout .directive
  | lineComment : Layout .lineComment
  | blockComment : Layout .blockComment

/-- The loop comes from one place and draft to another over layout alone. -/
inductive Separated : Cursor → Draft → Cursor → Draft → Prop where
  | refl {c : Cursor} {d : Draft} : Separated c d c d
  | cons {c e g : Cursor} {d f : Draft} {piece : Piece} :
      Piece.read? c d.lineStart d.word = some (piece, e) → Layout piece →
      Separated e (d.add piece) g f → Separated c d g f

namespace Separated

theorem steps (h : Separated c d e f) : Steps c d e f := by
  induction h with
  | refl => exact .refl
  | cons hr _ _ ih => exact .cons hr ih

/-- Layout leaves what one blank does, or nothing. -/
theorem written (h : Separated c d e f) : f.written = d.written ∨ f.written = d.space.written := by
  induction h with
  | refl => exact .inl rfl
  | @cons c e g d f piece _ layout _ ih =>
    have first : (d.add piece).written = d.written ∨ (d.add piece).written = d.space.written := by
      cases layout with
      | newline => exact .inr rfl
      | blank => exact .inr rfl
      | blockComment => exact .inr rfl
      | directive => exact .inl rfl
      | lineComment => exact .inl rfl
    rcases first with nothing | space
    · rwa [Draft.written_space_congr nothing, nothing] at ih
    · rw [Draft.written_space_congr space, Draft.written_space_space, space, or_self] at ih
      exact .inr ih

/-- In the text of the source nothing but the blank, if it was written, stands between the two. -/
theorem exists_gap {source : List Char} (visits : Visits source c d) (h : Separated c d e f) :
    ∃ gap rest, (ofSource source).text = d.written.reverse ++ (gap ++ rest) ∧
      f.written.reverse = d.written.reverse ++ gap ∧ ∀ ch ∈ gap, isBlank ch = true := by
  obtain ⟨new, whole, -⟩ := written_reduceFrom e f
  have text : (ofSource source).text = f.written.reverse ++ new.reverse := by
    rw [Visits.ofSource_eq (Steps.trans visits h.steps), Draft.finish, whole, List.reverse_append]
  rcases h.written with nothing | space
  · refine ⟨[], new.reverse, ?_, ?_, by simp⟩
    · rw [text, nothing, List.nil_append]
    · rw [nothing, List.append_nil]
  · rw [Draft.written_space] at space
    split at space
    · refine ⟨[], new.reverse, ?_, ?_, by simp⟩
      · rw [text, space, List.nil_append]
      · rw [space, List.append_nil]
    · refine ⟨[' '], new.reverse, ?_, ?_, List.forall_mem_singleton.2 (by decide)⟩
      · rw [text, space, List.reverse_cons, List.append_assoc]
      · rw [space, List.reverse_cons]

end Separated
end Structural

/-! ## What stands in a leaf -/

namespace Nesting

/-- The groups that are open, the outermost one included. -/
def groups (n : Nesting) : List Group := n.outermost :: n.pending

variable {n m : Nesting} {g : Group}

theorem top_mem_groups (n : Nesting) : n.top ∈ n.groups := by
  obtain ⟨position, outermost, pending, squares⟩ := n
  cases pending with
  | nil => exact List.mem_cons_self
  | cons g outer => exact List.mem_cons_of_mem _ List.mem_cons_self

theorem mem_groups_modifyTop {f : Group → Group} {size : Nat}
    (h : g ∈ ((n.modifyTop f).moved size).groups) : g = f n.top ∨ g ∈ n.groups := by
  obtain ⟨position, outermost, pending, squares⟩ := n
  cases pending with
  | nil => exact (List.mem_cons.1 h).imp_right (List.mem_cons_of_mem _)
  | cons top outer =>
    rcases List.mem_cons.1 h with rfl | h
    · exact .inr List.mem_cons_self
    · refine (List.mem_cons.1 h).imp_right fun h => ?_
      exact List.mem_cons_of_mem _ (List.mem_cons_of_mem _ h)

theorem mem_groups_openGroup {kind : Bracket} {size : Nat}
    (h : g ∈ ((n.openGroup kind).moved size).groups) : g.written = [] ∨ g ∈ n.groups := by
  have opened : ∃ openedAt origin,
      ((n.openGroup kind).moved size).groups =
        n.outermost :: .opened kind openedAt origin :: n.pending := by
    unfold openGroup
    split
    · exact ⟨_, _, rfl⟩
    · exact ⟨_, _, rfl⟩
  obtain ⟨openedAt, origin, all⟩ := opened
  rw [all] at h
  rcases List.mem_cons.1 h with rfl | h
  · exact .inr List.mem_cons_self
  · rcases List.mem_cons.1 h with rfl | h
    · exact .inl rfl
    · exact .inr (List.mem_cons_of_mem _ h)

end Nesting

theorem Group.onlySpaces_collapse {g : Group} (h : OnlySpaces g.written) (child : Group) :
    OnlySpaces (g.collapse child).written := by
  unfold collapse
  split
  · exact fun ch member => h ch ((List.dropWhile_suffix _).subset member)
  · have plain : isBlank child.kind.opening = false ∧ isBlank child.kind.closing = false := by
      cases child.kind <;> exact ⟨by decide, by decide⟩
    exact .of_plain plain.2 (.of_plain plain.1 h)

theorem Group.onlySpaces_leaf {g : Group} (h : OnlySpaces g.written) {leaf : Leaf}
    (hl : g.leaf? = some leaf) : OnlySpaces leaf.text := by
  unfold leaf? at hl
  split at hl
  · cases hl
    exact h.reverse
  · cases hl

theorem Nesting.onlySpaces_step {n m : Nesting} {ch : Char} {leaf : Option Leaf}
    (open_groups : ∀ g ∈ n.groups, OnlySpaces g.written) (own : isBlank ch = true → ch = ' ')
    (hs : n.step ch = .ok (m, leaf)) :
    (∀ g ∈ m.groups, OnlySpaces g.written) ∧ ∀ l ∈ leaf, OnlySpaces l.text := by
  rcases step_cases hs with ⟨kind, rfl, rfl, rfl⟩ | ⟨closed, outer, rfl, hp, rfl, rfl⟩ | ⟨-, rfl, rfl⟩
  · refine ⟨fun g hg => ?_, by simp⟩
    rcases mem_groups_openGroup hg with empty | old
    · exact empty ▸ .nil
    · exact open_groups g old
  · have inner : closed ∈ n.groups := List.mem_cons_of_mem _ (hp ▸ List.mem_cons_self)
    have around : ∀ g ∈ ({ n with pending := outer } : Nesting).groups, OnlySpaces g.written := by
      intro g hg
      refine open_groups g ?_
      rcases List.mem_cons.1 hg with rfl | deeper
      · exact List.mem_cons_self
      · exact List.mem_cons_of_mem _ (hp ▸ List.mem_cons_of_mem _ deeper)
    refine ⟨fun g hg => ?_, fun l hl => Group.onlySpaces_leaf (open_groups closed inner) hl⟩
    rcases mem_groups_modifyTop hg with rfl | old
    · exact Group.onlySpaces_collapse (around _ (top_mem_groups _)) closed
    · exact around g old
  · refine ⟨fun g hg => ?_, by simp⟩
    rcases mem_groups_modifyTop hg with rfl | old
    · exact List.forall_mem_cons.2 ⟨own, open_groups _ n.top_mem_groups⟩
    · exact open_groups g old

theorem onlySpaces_of_mem_leaves {s : Structural} (h : OnlySpaces s.text) {leaf : Leaf}
    (hl : leaf ∈ s.flatten.leaves) : OnlySpaces leaf.text := by
  refine Flattening.forall_mem_run
    (I := fun n text => (∀ g ∈ n.groups, OnlySpaces g.written) ∧ OnlySpaces text)
    (P := fun leaf => OnlySpaces leaf.text) ?_ ?_ ⟨?_, h⟩ (by simp) leaf hl
  · rintro n ch rest m leaf ⟨open_groups, spaces⟩ hs
    obtain ⟨own, later⟩ := List.forall_mem_cons.1 spaces
    obtain ⟨next, delivered⟩ := n.onlySpaces_step open_groups own hs
    exact ⟨⟨next, later⟩, delivered⟩
  · rintro n leaf ⟨open_groups, -⟩ hf l hl
    unfold Nesting.finish at hf
    split at hf
    · cases hf
      exact Group.onlySpaces_leaf (open_groups _ List.mem_cons_self) hl
    · cases hf
  · intro g hg
    rw [List.mem_singleton.1 hg]
    exact .nil

/-! ## What the grammar passes -/

theorem Spaced.no_double_space {text : List Char} (h : Spaced text) : ¬ [' ', ' '] <:+: text := by
  intro twice
  have apart : Spaced [' ', ' '] := List.IsChain.infix h twice
  exact absurd (apart.head?_tail (by decide) rfl) (by decide)

namespace Place

variable {p q : Place}

/-- Where blanks stand alone, the blanks between two places are one at most. -/
theorem gap_of_spans {blanks : List Char} (spaced : Spaced p.rest) (h : p.Spans blanks q)
    (all : ∀ ch ∈ blanks, isBlank ch = true) : p.Gap q := by
  have spaced_here : Spaced blanks :=
    List.IsChain.prefix spaced ⟨q.rest, h.rest_eq.symm⟩
  match blanks, h with
  | [], .nil => exact .none
  | [ch], .cons hn .nil => exact .blank (all ch List.mem_cons_self) hn
  | a :: b :: _, _ =>
    have plain := spaced_here.head?_tail (all a List.mem_cons_self) rfl
    rw [all b (List.mem_cons_of_mem _ List.mem_cons_self)] at plain
    cases plain

/-- Where blanks stand alone, a lambda expression with blanks between its tokens matches. -/
theorem exists_ends_of_runs {ts : List Token} (spaced : Spaced p.rest) (lambda : ts ∈ Phrase.lambda)
    (h : p.Runs ts q) (behind : ∀ ch, q.previous = some ch → isBlank ch = false) :
    ∃ r ∈ Grammar.gap.ends p, q ∈ Grammar.lambda.ends r := by
  have nonempty : ts ≠ [] := by
    obtain ⟨middle, rfl⟩ := Phrase.exists_of_mem_lambda lambda
    exact List.cons_ne_nil _ _
  obtain ⟨r, gap, spelled⟩ := h.spells spaced nonempty behind
  obtain ⟨blanks, between, -⟩ := gap.spans
  have later : Spaced r.rest := spaced.suffix ⟨blanks, between.rest_eq.symm⟩
  exact ⟨r, Grammar.mem_ends_gap.2 gap, (Grammar.mem_ends_lambda_iff later).2 ⟨ts, lambda, spelled⟩⟩

end Place

/-- **The whitespace of texts and leaves.** In the structural text of a source, and in each of its leaves
whether the brackets pair up or not, the space is the only blank and never stands beside another. So the
one blank that the grammar allows passes whatever blanks there are between two places, and a lambda
expression matches with any blanks between its tokens. Layout between two places of the source, in
whatever order its blanks, line breaks, comments and directives come, leaves no more in the text than that
one blank passes; a line splice is no piece at all, and leaves nothing. -/
theorem whitespace_shape (source : List Char) :
    (∀ text ∈ (ofSource source).text :: (ofSource source).flatten.leaves.map Leaf.text,
      (∀ ch ∈ text, isBlank ch = true → ch = ' ') ∧ ¬ [' ', ' '] <:+: text ∧
      ∀ before p q, (Place.ofText text).Spans before p →
        (∀ blanks, p.Spans blanks q → (∀ ch ∈ blanks, isBlank ch = true) → q ∈ Grammar.gap.ends p) ∧
        ∀ ts ∈ Phrase.lambda, p.Runs ts q →
          (∀ ch, q.previous = some ch → isBlank ch = false) →
            ∃ r ∈ Grammar.gap.ends p, q ∈ Grammar.lambda.ends r) ∧
      ∀ c d e f, Visits source c d → Separated c d e f →
        ∃ p q, (Place.ofText (ofSource source).text).Spans d.written.reverse p ∧
          (Place.ofText (ofSource source).text).Spans f.written.reverse q ∧ q ∈ Grammar.gap.ends p := by
  have only := onlySpaces_ofSource source
  have spaced := spaced_ofSource source
  refine ⟨?_, ?_⟩
  · intro text member
    have shape : OnlySpaces text ∧ Spaced text := by
      rcases List.mem_cons.1 member with rfl | delivered
      · exact ⟨only, spaced⟩
      · obtain ⟨leaf, hl, rfl⟩ := List.mem_map.1 delivered
        exact ⟨onlySpaces_of_mem_leaves only hl, spaced_of_mem_leaves spaced hl⟩
    refine ⟨shape.1, shape.2.no_double_space, fun before p q hp => ?_⟩
    have later : Spaced p.rest := shape.2.suffix ⟨before, hp.rest_eq.symm⟩
    exact ⟨fun blanks hb all => Grammar.mem_ends_gap.2 (Place.gap_of_spans later hb all),
      fun ts lambda runs behind => Place.exists_ends_of_runs later lambda runs behind⟩
  · intro c d e f visits separated
    obtain ⟨gap, rest, text, written, blank⟩ := separated.exists_gap visits
    obtain ⟨p, hp, behind⟩ := Place.spans_of_rest (p := Place.ofText (ofSource source).text) text
    obtain ⟨q, hq, -⟩ := Place.spans_of_rest behind
    have later : Spaced p.rest := spaced.suffix ⟨d.written.reverse, hp.rest_eq.symm⟩
    exact ⟨p, q, hp, written ▸ hp.trans hq, Grammar.mem_ends_gap.2 (Place.gap_of_spans later hq blank)⟩

/-- A blank and a line break between captures and body. -/
theorem whitespace_shape_lines :
    let source := ['[', ']', '\t', '\n', '\x7b', '\x7d']
    let before : Draft := ⟨[']', '['], 2, [(0, 0)], .none, false⟩
    let after : Draft := ⟨[' ', ']', '['], 3, [(0, 0)], .none, true⟩
    Visits source ⟨2, ['\t', '\n', '\x7b', '\x7d']⟩ before ∧
      Separated ⟨2, ['\t', '\n', '\x7b', '\x7d']⟩ before ⟨4, ['\x7b', '\x7d']⟩ after ∧
      (∃ p q, (Place.ofText (ofSource source).text).Spans ['[', ']'] p ∧
        (Place.ofText (ofSource source).text).Spans ['[', ']', ' '] q ∧ q ∈ Grammar.gap.ends p) ∧
      ['[', ']', ' ', '\x7b', '\x7d'] ∈ (ofSource source).flatten.leaves.map Leaf.text ∧
      ¬ [' ', ' '] <:+: ['[', ']', ' ', '\x7b', '\x7d'] := by
  intro source before after
  have visits : Visits source ⟨2, ['\t', '\n', '\x7b', '\x7d']⟩ before := .cons rfl (.cons rfl .refl)
  have separated : Separated ⟨2, ['\t', '\n', '\x7b', '\x7d']⟩ before ⟨4, ['\x7b', '\x7d']⟩ after :=
    .cons rfl .blank (.cons rfl .newline .refl)
  have delivered : ['[', ']', ' ', '\x7b', '\x7d'] ∈ (ofSource source).flatten.leaves.map Leaf.text := by
    decide +kernel
  obtain ⟨texts, gaps⟩ := whitespace_shape source
  exact ⟨visits, separated, gaps _ _ _ _ visits separated, delivered,
    (texts _ (List.mem_cons_of_mem _ delivered)).2.1⟩

end LambdaTally
