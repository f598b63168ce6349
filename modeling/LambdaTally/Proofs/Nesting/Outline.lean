import LambdaTally.Proofs.Grammar.Stem
import LambdaTally.Proofs.Nesting.Cut

/-!
# LambdaTally.Proofs.Nesting.Outline

The outline of a content: its text with every group directly inside it replaced by its placeholder.
A rendering differs from it by the square placeholders and blanks that the names of operators take
away, and by nothing else (`filter_rendered`). Behind the tokens of a stem no `[]` goes that way
(`kept_cut`, `kept_keyword`).
-/

namespace LambdaTally

open CharClass

namespace Forest

/-- The text of a content, every group directly inside it replaced by its placeholder. -/
def outline : Forest → List Char
  | nil => []
  | char ch _ rest => ch :: rest.outline
  | group kind _ rest => kind.placeholder ++ rest.outline

theorem filter_trimEnd {test : Char → Bool} (blank : ∀ ch, isBlank ch = true → test ch = false)
    (text : List Char) : (trimEnd text).filter test = text.filter test := by
  have dropped (l : List Char) : (l.dropWhile isBlank).filter test = l.filter test := by
    induction l with
    | nil => rfl
    | cons ch l ih =>
      by_cases h : isBlank ch = true
      · rw [List.dropWhile_cons_of_pos h, ih, List.filter_cons_of_neg (by simp [blank ch h])]
      · rw [List.dropWhile_cons_of_neg h]
  rw [trimEnd, List.filter_reverse, dropped, ← List.filter_reverse, List.reverse_reverse]

/-- Characters that are neither blanks nor square brackets are the same in a rendering. -/
theorem filter_rendered {test : Char → Bool} (blank : ∀ ch, isBlank ch = true → test ch = false)
    (square : test '[' = false ∧ test ']' = false) (f : Forest) (before : List Char) :
    (f.rendered before).filter test = (before ++ f.outline).filter test := by
  induction f generalizing before with
  | nil => simp [rendered, outline]
  | char ch plain rest ih => rw [rendered, ih, outline, List.append_assoc, List.singleton_append]
  | group kind inside rest _ ih =>
    have same : (collapsed before kind).filter test = (before ++ kind.placeholder).filter test := by
      unfold collapsed
      split
      · rename_i names
        have hk : kind = .square := by
          simp only [namesOperator, Bool.and_eq_true, decide_eq_true_eq] at names
          exact names.1
        rw [filter_trimEnd blank, hk, List.filter_append]
        simp [Bracket.placeholder, Bracket.opening, Bracket.closing, square]
      · rfl
    rw [rendered, ih, outline, List.filter_append, same, ← List.filter_append, List.append_assoc]

theorem not_mem_rendered {ch : Char} (blank : isBlank ch = false) (square : ch ≠ '[' ∧ ch ≠ ']')
    {f : Forest} {before : List Char} (h : ch ∉ before ++ f.outline) : ch ∉ f.rendered before := by
  have other : ∀ c, isBlank c = true → (c == ch) = false := by
    intro c hc
    rw [beq_eq_false_iff_ne]
    rintro rfl
    rw [blank] at hc
    cases hc
  have same := filter_rendered other (by simpa using ⟨square.1.symm, square.2.symm⟩) f before
  intro hmem
  have kept : ch ∈ (f.rendered before).filter (· == ch) := List.mem_filter.2 ⟨hmem, by simp⟩
  rw [same] at kept
  exact h (List.mem_filter.1 kept).1

theorem rendered_ofPlain (word : List Char) (plain : ∀ ch ∈ word, Bracket.isBracket ch = false)
    (f : Forest) (before : List Char) :
    (ofPlain word plain f).rendered before = f.rendered (before ++ word) := by
  induction word generalizing before with
  | nil => simp [ofPlain]
  | cons ch word ih => rw [ofPlain, rendered, ih, List.append_assoc, List.singleton_append]

end Forest

/-! ## Square groups that stay -/

/-- A square group behind this text leaves its placeholder. -/
def Kept (before : List Char) : Prop := Group.endsInOperator before.reverse = false

theorem collapsed_of_kept {before : List Char} (h : Kept before) (kind : Bracket) :
    Forest.collapsed before kind = before ++ kind.placeholder := by
  have stays : Forest.namesOperator before kind = false := by
    rw [Forest.namesOperator, h, Bool.and_false]
  rw [Forest.collapsed, stays]
  rfl

theorem endsInOperator_blanks {gap : List Char} (h : ∀ ch ∈ gap, isBlank ch = true)
    (written : List Char) :
    Group.endsInOperator (gap.reverse ++ written) = Group.endsInOperator written := by
  have dropped : (gap.reverse ++ written).dropWhile isBlank = written.dropWhile isBlank :=
    List.dropWhile_append_of_pos fun ch hch => h ch (List.mem_reverse.1 hch)
  unfold Group.endsInOperator
  rw [dropped]

theorem kept_nil : Kept [] := rfl

theorem kept_cut {ch : Char} (h : Cuts ch) {gap : List Char}
    (blank : ∀ c ∈ gap, isBlank c = true) (before : List Char) : Kept (before ++ ch :: gap) := by
  have turned : (before ++ ch :: gap).reverse = gap.reverse ++ ch :: before.reverse := by simp
  have none_there := endsInOperator_blanks blank []
  rw [List.append_nil] at none_there
  rw [Kept, turned, Group.endsInOperator_cut h, none_there]
  rfl

/-- No keyword ends as the name of an operator does. -/
theorem kept_keyword {word : String} (h : word ∈ Phrase.keywords) {gap : List Char}
    (blank : ∀ c ∈ gap, isBlank c = true) (before : List Char) :
    Kept (before ++ word.toList ++ gap) := by
  have turned : (before ++ word.toList ++ gap).reverse =
      gap.reverse ++ (word.toList.reverse ++ before.reverse) := by simp
  rw [Kept, turned, endsInOperator_blanks blank]
  simp only [Phrase.keywords, List.mem_cons, List.not_mem_nil, or_false] at h
  rcases h with rfl | rfl | rfl | rfl | rfl <;> rfl

end LambdaTally
