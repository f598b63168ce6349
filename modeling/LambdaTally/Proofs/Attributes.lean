import LambdaTally.Proofs.Introducers
import LambdaTally.Proofs.Nesting.Places
import LambdaTally.Proofs.Sentences
import LambdaTally.Proofs.Tally

/-!
# LambdaTally.Proofs.Attributes

Attributes and the introducers of lambdas. A group leaves the same placeholder behind for the
attribute `[[likely]]` as for a list of captures, so only what stands around it in its group tells the
two apart. Where the attributes of a source stand apart (`Forest.AttributesApart`), none of them is
counted (`attributes_not_counted`). What `Forest.attributesPlain` looks at is the text right behind each
of them, which is enough in most sources (`Forest.attributesApart_of_plain`).
-/

namespace LambdaTally

open Utf8 Structural CharClass
open scoped List

/-- What a square group holds, if the group is an attribute: first of all, but for spaces, a `[`. -/
def IsAttribute (inside : List Char) : Prop := (inside.dropWhile (· = ' ')).head? = some '['

instance : DecidablePred IsAttribute := fun inside =>
  inferInstanceAs (Decidable ((inside.dropWhile (· = ' ')).head? = some '['))

/-- Where an attribute and the text behind it would make a lambda expression, the attribute belongs to
one that starts in front of it and still has its body to come. -/
def Forest.AttributesApart (f : Forest) : Prop :=
  ∀ g ∈ f.postorder, ∀ a inside b, g.content = a ++ group .square inside b →
    IsAttribute inside.text → ∀ expression, Sentence expression →
      expression <+: '[' :: ']' :: b.rendered [] →
        ∃ front head, a.rendered [] = front ++ head ∧ head ≠ [] ∧ '\x7b' ∉ head ∧
          Sentence (head ++ expression)

/-! ## The text of a sentence -/

namespace Sentence

variable {text more : List Char}

theorem exists_opening (h : Sentence text) : ∃ more, text = '[' :: ']' :: more := by
  obtain ⟨ts, lambda, q, spelled, -⟩ := h
  obtain ⟨middle, rfl⟩ := Phrase.exists_of_mem_lambda lambda
  obtain ⟨r, opened, -⟩ := Place.spells_cons_iff.1 spelled
  exact ⟨r.rest, opened.spans.rest_eq⟩

theorem exists_body (h : Sentence text) : ∃ front, text = front ++ ['\x7b', '\x7d'] := by
  obtain ⟨ts, lambda, q, spelled, at_end⟩ := h
  obtain ⟨middle, rfl⟩ := Phrase.exists_of_mem_lambda lambda
  obtain ⟨x, y, front, gap, last⟩ := Place.Spells.split (a := .group .square :: middle) spelled
  obtain ⟨z, closed, ⟨-, rfl⟩ | ⟨absent, -⟩⟩ := Place.spells_cons_iff.1 last
  · obtain ⟨before, hb⟩ := front.spans
    obtain ⟨blanks, hg, -⟩ := gap.spans
    have whole := ((hb.trans hg).trans closed.spans).rest_eq
    rw [at_end, List.append_nil] at whole
    exact ⟨before ++ blanks, whole⟩
  · exact absurd rfl absent

end Sentence

/-! ## Where a match starts -/

section Leaf

variable {text before : List Char} {range : Nat × Nat}

theorem exists_sentence_of_range (spaced : Spaced text) (h : range ∈ Grammar.lambda.matchesIn text) :
    ∃ before start sentence stop, (Place.ofText text).Spans before start ∧
      start.Spans sentence stop ∧ Sentence sentence ∧ range = (start.offset, stop.offset) := by
  obtain ⟨before, start, stop, hstart, first, rfl⟩ := Pattern.exists_place_of_mem h
  have hstop := Pattern.mem_ends_of_firstEnd? first
  obtain ⟨sentence, hs⟩ := Pattern.spans_of_mem_ends hstop
  have later : Spaced start.rest := spaced.suffix ⟨before, hstart.rest_eq.symm⟩
  exact ⟨before, start, sentence, stop, hstart, hs, (mem_ends_iff_sentence later hs).1 hstop, rfl⟩

/-- A part of the text that ends where a sentence does, and starts within it with a `[`, holds a
`{`. -/
theorem mem_brace_of_within {front more sentence : List Char} (is_sentence : Sentence sentence)
    (whole : before ++ sentence = front ++ more) (opens : more.head? = some '[') : '\x7b' ∈ more := by
  obtain ⟨middle, rfl⟩ := is_sentence.exists_body
  rw [← List.append_assoc] at whole
  rcases List.append_eq_append_iff.1 whole with ⟨c, rfl, body⟩ | ⟨c, -, rfl⟩
  · have behind : more = ['\x7b', '\x7d'] ∨ more = ['\x7d'] ∨ more = [] := by
      have suffix : more <:+ ['\x7b', '\x7d'] := ⟨c, body.symm⟩
      simpa [List.suffix_cons_iff] using suffix
    rcases behind with rfl | rfl | rfl <;> cases opens
  · exact List.mem_append_right _ List.mem_cons_self

/-- A match is a sentence. None that starts in front of it goes on over its start without a `{`
before it: there the scan would have found a match. -/
theorem Leaf.exists_sentence_of_mem {leaf : Leaf} (spaced : Spaced leaf.text) {m : LambdaMatch}
    (hm : m ∈ leaf.lambdas) {after : List Char} (whole : leaf.text = before ++ after)
    (here : m.start = byteLength before) :
    ∃ expression, Sentence expression ∧ expression <+: after ∧
      ∀ front head, before = front ++ head → head ≠ [] → '\x7b' ∉ head →
        ¬ Sentence (head ++ expression) := by
  obtain ⟨range, hrange, rfl⟩ := List.mem_map.1 hm
  obtain ⟨before', start, expression, stop, hstart, hs, is_sentence, rfl⟩ :=
    exists_sentence_of_range spaced hrange
  obtain ⟨start', hstart', rest⟩ := Place.spans_of_rest (p := Place.ofText leaf.text) whole
  obtain rfl : start' = start :=
    hstart'.eq_of_offset hstart (by rw [hstart'.offset_eq, ← here]; exact Nat.zero_add _)
  obtain rfl := hstart'.text_unique hstart
  refine ⟨expression, is_sentence, ⟨stop.rest, ?_⟩, ?_⟩
  · rw [← rest, hs.rest_eq]
  · rintro front head rfl nonempty none_in longer
    obtain ⟨p, hp, hhead⟩ := hstart.split
    have from_p := hhead.trans hs
    have spaced_p : Spaced p.rest := spaced.suffix ⟨front, hp.rest_eq.symm⟩
    obtain ⟨r, first⟩ := exists_firstEnd? ((mem_ends_iff_sentence spaced_p from_p).2 longer)
    -- the match around `p` ends before the one that starts behind `head`
    obtain ⟨other, hother, before_p, behind_p⟩ := Pattern.covered hp first
    have further := hhead.offset_eq
    have wide := byteLength_pos nonempty
    have apart := Pattern.le_of_lt hother hrange (by dsimp only; omega)
    obtain ⟨text, u, sentence, v, hu, hv, other_sentence, rfl⟩ :=
      exists_sentence_of_range spaced hother
    obtain ⟨more, joined, hmore⟩ := hp.extend (hu.trans hv) (Nat.le_of_lt behind_p)
    obtain ⟨more', rfl, -⟩ := hmore.extend hhead apart
    refine none_in (List.mem_append_left _ (mem_brace_of_within other_sentence joined ?_))
    obtain ⟨tail, opening⟩ := longer.exists_opening
    cases more with
    | nil =>
      cases hmore
      exact absurd behind_p (Nat.lt_irrefl _)
    | cons ch more => rw [List.head?_cons, (List.cons.inj opening).1]

end Leaf

/-- The square group that introduces a match, in its group and in the whole text. -/
theorem exists_square_of_mem {s : Structural} (tabled : s.Tabled) {f : Forest} (hf : f.text = s.text)
    {g : Forest.Placed} (hg : g ∈ f.postorder) {m : LambdaMatch}
    (hm : m ∈ (g.leaf s.originAt).lambdas) :
    ∃ a inside b, g.content = a ++ .group .square inside b ∧
      Forest.namesOperator (a.rendered []) .square = false ∧ m.start = byteLength (a.rendered []) ∧
      ∃ before after, s.text = before ++ '[' :: inside.text ++ ']' :: after ∧
        (byteLength before, m.offset) ∈ s.squares := by
  obtain ⟨entry, -⟩ := (Forest.tabled_leaf s.originAt g).mem_origins hm
  obtain ⟨a, inside, b, content, stays, read⟩ := Forest.exists_of_mem_table entry
  obtain ⟨start, offset⟩ := Prod.mk.inj read
  obtain ⟨front, back, whole, place⟩ := Forest.exists_of_mem_postorder hg
  have text : s.text = front ++ a.text ++ '[' :: inside.text ++ ']' :: (b.text ++ back) := by
    rw [← hf, whole, content, Forest.text_append]
    simp [Forest.text, Bracket.opening, Bracket.closing]
  refine ⟨a, inside, b, content, stays, start, front ++ a.text, b.text ++ back, text, ?_⟩
  have stands : StandsAt '[' s.text (byteLength (front ++ a.text)) :=
    ⟨front ++ a.text, inside.text ++ ']' :: (b.text ++ back), by rw [text]; simp, rfl⟩
  obtain ⟨origin, recorded⟩ := tabled.mem_iff.2 stands
  rw [place, ← byteLength_append, originAt, tabled.originOf?_eq recorded] at offset
  rwa [offset]

/-! ## What goes on behind an introducer -/

namespace Phrase

/-- How the text of a lambda expression goes on behind its introducer. -/
def continuations : List (List Char) :=
  [['['], ['('], ['<'], ['\x7b'], ['-', '>']] ++ keywords.map String.toList

/-- The text, but for blanks, goes on in one of these ways. -/
def goesOn (text : List Char) : Bool :=
  continuations.any fun word => word.isPrefixOf (text.dropWhile isBlank)

theorem exists_continuation {t : Token} (h : t.Solid ∨ t = .group .brace ∨ t = .arrow) :
    ∃ word ∈ continuations, word <+: t.text := by
  rcases h with solid | rfl | rfl
  · cases solid with
    | square => exact ⟨['['], by simp [continuations], [']'], rfl⟩
    | paren => exact ⟨['('], by simp [continuations], [')'], rfl⟩
    | @keyword word hw =>
      exact ⟨word.toList, List.mem_append_right _ (List.mem_map_of_mem hw), List.prefix_rfl⟩
    | templates ht =>
      obtain ⟨inner, rfl, -⟩ := afterAngles_templateText ht
      exact ⟨['<'], by simp [continuations], inner, rfl⟩
  · exact ⟨['\x7b'], by simp [continuations], ['\x7d'], rfl⟩
  · exact ⟨['-', '>'], by simp [continuations], [], rfl⟩

theorem goesOn_of_prefix {blanks word text : List Char} (blank : ∀ ch ∈ blanks, isBlank ch = true)
    (hw : word ∈ continuations) (starts : blanks ++ word <+: text) : goesOn text = true := by
  have plain : ∀ word ∈ continuations, word.dropWhile isBlank = word ∧ word ≠ [] := by decide
  obtain ⟨same, nonempty⟩ := plain word hw
  obtain ⟨rest, rfl⟩ := starts
  refine List.any_eq_true.2 ⟨word, hw, ?_⟩
  have left : (blanks ++ word ++ rest).dropWhile isBlank = word ++ rest := by
    rw [List.append_assoc, List.dropWhile_append_of_pos blank, List.dropWhile_append, same,
      if_neg (by simpa using nonempty)]
  rw [left]
  exact List.isPrefixOf_iff_prefix.2 (List.prefix_append word rest)

/-- The token behind the introducer. -/
theorem exists_second {ts : List Token} (h : ts ∈ lambda) :
    ∃ t more, ts = .group .square :: t :: more ∧ (t.Solid ∨ t = .group .brace ∨ t = .arrow) := by
  obtain ⟨middle, opening⟩ := exists_of_mem_lambda h
  obtain ⟨stem, solid, whole⟩ := exists_stem_of_mem_lambda h
  have turn : ∃ t ending, ts = stem ++ t :: ending ∧ (t = .group .brace ∨ t = .arrow) := by
    rcases whole with rfl | ⟨text, -, rfl⟩
    · exact ⟨_, _, rfl, .inl rfl⟩
    · exact ⟨_, _, rfl, .inr rfl⟩
  obtain ⟨t, ending, rfl, sort⟩ := turn
  cases stem with
  | nil =>
    rw [List.nil_append] at opening
    rcases sort with rfl | rfl <;> cases opening
  | cons u stem =>
    obtain rfl : u = .group .square := (List.cons.inj opening).1
    cases stem with
    | nil => exact ⟨t, ending, rfl, .inr sort⟩
    | cons v stem => exact ⟨v, stem ++ t :: ending, rfl, .inl (solid v (by simp))⟩

end Phrase

theorem Sentence.goesOn {more text : List Char} (h : Sentence ('[' :: ']' :: more))
    (starts : more <+: text) : Phrase.goesOn text = true := by
  obtain ⟨ts, lambda, q, spelled, -⟩ := h
  obtain ⟨t, behind, rfl, sort⟩ := Phrase.exists_second lambda
  obtain ⟨r, opened, ⟨none_there, -⟩ | ⟨-, u, gap, later⟩⟩ := Place.spells_cons_iff.1 spelled
  · cases none_there
  obtain ⟨v, shown, -⟩ := Place.spells_cons_iff.1 later
  obtain ⟨blanks, spans, blank⟩ := gap.spans
  obtain ⟨word, hw, first⟩ := Phrase.exists_continuation sort
  have whole : '[' :: ']' :: more = ['[', ']'] ++ (blanks ++ t.text ++ v.rest) := by
    rw [← (spans.trans shown.spans).rest_eq]
    exact opened.spans.rest_eq
  have split : more = blanks ++ t.text ++ v.rest := (List.cons.inj (List.cons.inj whole).2).2
  refine Phrase.goesOn_of_prefix blank hw (List.IsPrefix.trans ?_ starts)
  rw [split, List.append_assoc]
  exact (List.prefix_append_right_inj blanks).2 (first.trans (List.prefix_append t.text v.rest))

namespace Forest

/-- No attribute has such a text right behind it. -/
def attributesPlain : Forest → Bool
  | nil => true
  | char _ _ rest => rest.attributesPlain
  | group kind inside rest =>
    inside.attributesPlain && rest.attributesPlain &&
      !(kind = .square && decide (IsAttribute inside.text) && Phrase.goesOn (rest.rendered []))

variable {f : Forest}

theorem attributesPlain_of_mem_groups {g : Placed} {position : Nat} (h : f.attributesPlain = true)
    (hg : g ∈ f.groups position) : g.content.attributesPlain = true := by
  induction f generalizing position with
  | nil => cases hg
  | char ch plain rest ih => exact ih h hg
  | group kind inside rest ihi ihr =>
    simp only [attributesPlain, Bool.and_eq_true] at h
    rcases List.mem_append.1 hg with inner | later
    · exact ihi h.1.1 inner
    · rcases List.mem_cons.1 later with rfl | later
      · exact h.1.1
      · exact ihr h.1.2 later

theorem not_goesOn {a inside b : Forest} (h : (a ++ group .square inside b).attributesPlain = true)
    (is_attribute : IsAttribute inside.text) : Phrase.goesOn (b.rendered []) = false := by
  induction a with
  | nil =>
    simp only [nil_append, attributesPlain, Bool.and_eq_true, is_attribute] at h
    simpa using h.2
  | char ch plain rest ih => exact ih h
  | group kind content rest _ ih =>
    simp only [group_append, attributesPlain, Bool.and_eq_true] at h
    exact ih h.1.2

/-- Attributes with nothing of the sort behind them stand apart. -/
theorem attributesApart_of_plain (h : f.attributesPlain = true) : f.AttributesApart := by
  intro g hg a inside b content is_attribute expression is_sentence starts
  have plain : g.content.attributesPlain = true := by
    rcases List.mem_append.1 hg with inner | last
    · exact attributesPlain_of_mem_groups h inner
    · rwa [List.mem_singleton.1 last]
  rw [content] at plain
  obtain ⟨more, rfl⟩ := is_sentence.exists_opening
  have later : more <+: b.rendered [] :=
    (List.prefix_cons_inj _).1 ((List.prefix_cons_inj _).1 starts)
  have goes_on := is_sentence.goesOn later
  rw [not_goesOn plain is_attribute] at goes_on
  cases goes_on

end Forest

/-! ## The count of a source -/

/-- Where the attributes stand apart, a match of a group starts at a square group that is none. -/
theorem exists_capture_of_mem {s : Structural} (tabled : s.Tabled) {f : Forest}
    (hf : f.text = s.text) (apart : f.AttributesApart) {g : Forest.Placed} (hg : g ∈ f.postorder)
    (spaced : Spaced (g.leaf s.originAt).text) {m : LambdaMatch}
    (hm : m ∈ (g.leaf s.originAt).lambdas) :
    ∃ before inside after, s.text = before ++ '[' :: inside ++ ']' :: after ∧ WellNested inside ∧
      (byteLength before, m.offset) ∈ s.squares ∧ ¬ IsAttribute inside := by
  obtain ⟨a, inside, b, content, stays, start, before, after, text, recorded⟩ :=
    exists_square_of_mem tabled hf hg hm
  refine ⟨before, inside.text, after, text, inside.wellNested_text, recorded, ?_⟩
  intro is_attribute
  have rendered : (g.leaf s.originAt).text = a.rendered [] ++ '[' :: ']' :: b.rendered [] := by
    rw [← Forest.rendered_square stays, ← content]
    rfl
  obtain ⟨expression, is_sentence, at_start, none_over⟩ :=
    Leaf.exists_sentence_of_mem spaced hm rendered start
  obtain ⟨front, head, cut, nonempty, no_body, longer⟩ :=
    apart g hg a inside b content is_attribute expression is_sentence at_start
  exact none_over front head cut nonempty no_body longer

/-- **Attributes are not counted.** In a source whose attributes stand apart, the count is that of the
matches, and none of them is introduced by an attribute: each starts at a square group of the
structural text, recorded with the offset of the match, that holds no other one first. -/
theorem attributes_not_counted {source : List Char}
    (apart : ∀ f : Forest, f.text = (ofSource source).text → f.AttributesApart)
    (sampling : Sampling) {detection : Detection}
    (detected : Outcome.ofSource sampling source = .detected detection) :
    ∃ found, (ofSource source).lambdas = .ok found ∧ detection.count = found.length ∧
      ∀ m ∈ found, ∃ before inside after,
        (ofSource source).text = before ++ '[' :: inside ++ ']' :: after ∧ WellNested inside ∧
          (byteLength before, m.offset) ∈ (ofSource source).squares ∧ ¬ IsAttribute inside := by
  have tabled := tabled_ofSource source
  have nested : WellNested (ofSource source).text := by
    by_contra broken
    rw [Outcome.ofSource_malformed sampling broken] at detected
    cases detected
  obtain ⟨f, hf⟩ := wellNested_iff_exists_forest.1 nested
  have leaves := flatten_forest tabled f hf
  have lambdas : (ofSource source).lambdas =
      .ok ((Forest.leavesOf (originAt (ofSource source)) f.postorder).flatMap Leaf.lambdas) := by
    rw [Structural.lambdas, leaves]
  refine ⟨_, lambdas, ?_, ?_⟩
  · rw [Outcome.ofSource, lambdas] at detected
    cases detected
    rfl
  · intro m hm
    obtain ⟨leaf, hleaf, hm⟩ := List.mem_flatMap.1 hm
    obtain ⟨g, hg, rfl⟩ := List.mem_map.1 hleaf
    have delivered : g.leaf (originAt (ofSource source)) ∈ (ofSource source).flatten.leaves := by
      rw [leaves]
      exact hleaf
    exact exists_capture_of_mem tabled hf (apart f hf) (List.mem_of_mem_filter hg)
      (spaced_of_mem_leaves (spaced_ofSource source) delivered) hm

theorem attributes_not_counted_declaration :
    (∀ f : Forest, f.text = (ofSource "[[a]] x;[y]\x7b\x7d".toList).text → f.AttributesApart) ∧
      ∀ sampling, ∃ detection,
        Outcome.ofSource sampling "[[a]] x;[y]\x7b\x7d".toList = .detected detection ∧
          detection.count = 1 ∧ ∃ before inside after,
            (ofSource "[[a]] x;[y]\x7b\x7d".toList).text =
                before ++ '[' :: inside ++ ']' :: after ∧
              (byteLength before, 8) ∈ (ofSource "[[a]] x;[y]\x7b\x7d".toList).squares ∧
                ¬ IsAttribute inside := by
  let tree : Forest := .group .square (.group .square (.char 'a' rfl .nil) .nil)
    (.char ' ' rfl (.char 'x' rfl (.char ';' rfl
      (.group .square (.char 'y' rfl .nil) (.group .brace .nil .nil)))))
  have text : tree.text = (ofSource "[[a]] x;[y]\x7b\x7d".toList).text := by decide +kernel
  have apart : ∀ f : Forest, f.text = (ofSource "[[a]] x;[y]\x7b\x7d".toList).text →
      f.AttributesApart := by
    intro f hf
    rw [Forest.text_injective (hf.trans text.symm)]
    exact Forest.attributesApart_of_plain (by decide +kernel)
  refine ⟨apart, ?_⟩
  intro sampling
  have one : (ofSource "[[a]] x;[y]\x7b\x7d".toList).lambdas = .ok [⟨8, 5, 9⟩] := by decide +kernel
  obtain ⟨detection, detected⟩ : ∃ detection,
      Outcome.ofSource sampling "[[a]] x;[y]\x7b\x7d".toList = .detected detection :=
    ⟨_, by rw [Outcome.ofSource, one]⟩
  obtain ⟨found, lambdas, count, places⟩ := attributes_not_counted apart sampling detected
  rw [one] at lambdas
  cases lambdas
  obtain ⟨before, inside, after, whole, -, recorded, capture⟩ := places _ List.mem_cons_self
  exact ⟨_, detected, count, before, inside, after, whole, recorded, capture⟩

/-- An attribute between a name and its parameters is counted. -/
theorem attribute_counted_function :
    ∃ m before inside after,
      (ofSource "int f [[nodiscard]] () \x7b return 1; \x7d".toList).lambdas = .ok [m] ∧
        (ofSource "int f [[nodiscard]] () \x7b return 1; \x7d".toList).text =
          before ++ '[' :: inside ++ ']' :: after ∧ WellNested inside ∧
        (byteLength before, m.offset) ∈
          (ofSource "int f [[nodiscard]] () \x7b return 1; \x7d".toList).squares ∧
        IsAttribute inside ∧
        ∀ sampling, (Outcome.ofSource sampling
          "int f [[nodiscard]] () \x7b return 1; \x7d".toList).count? = some 1 := by
  have one : (ofSource "int f [[nodiscard]] () \x7b return 1; \x7d".toList).lambdas =
      .ok [⟨6, 6, 14⟩] := by
    decide +kernel
  have nested : WellNested "[nodiscard]".toList := (verdict_wellNested_iff _).1 (by decide +kernel)
  refine ⟨_, "int f ".toList, "[nodiscard]".toList, " () \x7b return 1; \x7d".toList, one,
    by decide +kernel, nested, by decide +kernel, by decide, ?_⟩
  intro sampling
  rw [Outcome.ofSource, one]
  rfl

end LambdaTally
