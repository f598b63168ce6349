import LambdaTally.Proofs.Grammar.Stem

/-!
# LambdaTally.Proofs.Grammar.Preference

The pattern of a lambda expression prefers its shortest match. Its ends are listed by preference, and
`Led h l` says of such a list that `h` is both the first and the least of it. Whatever a stem does,
it comes to the one place where a body or an arrow stands (`Stem.unique`), so all ends go through
there: behind a body there is one end, and behind an arrow the text of the type is tried from the
shortest on (`exists_led_typeName`).
-/

namespace LambdaTally

open CharClass

/-- The place stands first in the list, and no other of the list is before it. -/
def Led (h : Place) (l : List Place) : Prop :=
  (∀ q, l.head? = some q → q = h) ∧ ∀ q ∈ l, h.offset ≤ q.offset

namespace Led

variable {h : Place} {l m : List Place}

theorem of_forall_eq (all : ∀ q ∈ l, q = h) : Led h l := by
  refine ⟨?_, ?_⟩
  · intro q hq
    exact all q (List.mem_of_mem_head? hq)
  · intro q hq
    rw [all q hq]

theorem nil : Led h [] := of_forall_eq (by simp)

theorem append (hl : Led h l) (hm : Led h m) : Led h (l ++ m) := by
  refine ⟨?_, ?_⟩
  · intro q hq
    cases l with
    | nil => exact hm.1 q hq
    | cons first l => exact hl.1 q hq
  · intro q hq
    exact (List.mem_append.1 hq).elim (hl.2 q) (hm.2 q)

/-- Behind a list that is led, what comes later need not be, as long as it is no better. -/
theorem append_of_le (hl : Led h l) (nonempty : l ≠ []) (later : ∀ q ∈ m, h.offset ≤ q.offset) :
    Led h (l ++ m) := by
  refine ⟨?_, ?_⟩
  · intro q hq
    cases l with
    | nil => exact absurd rfl nonempty
    | cons first l => exact hl.1 q hq
  · intro q hq
    exact (List.mem_append.1 hq).elim (hl.2 q) (later q)

theorem append_of_subset (hl : Led h l) (hm : m ⊆ l) : Led h (l ++ m) := by
  by_cases empty : l = []
  · subst empty
    rw [List.subset_nil.1 hm]
    exact nil
  · exact hl.append_of_le empty fun q hq => hl.2 q (hm hq)

theorem flatMap {f : Place → List Place} (all : ∀ q ∈ l, Led h (f q)) : Led h (l.flatMap f) := by
  induction l with
  | nil => exact nil
  | cons q l ih =>
    obtain ⟨here, later⟩ := List.forall_mem_cons.1 all
    rw [List.flatMap_cons]
    exact here.append (ih later)

end Led

namespace Grammar

open Pattern

/-- What follows everything else: a gap and the body. -/
def closing : Pattern := seq gap body

variable {h p q e : Place} {a b : Pattern}

/-! ## A list of ends, choice by choice -/

theorem led_join (all : ∀ q ∈ a.ends p, ∀ r, q.Gap r → Led h (b.ends r)) :
    Led h ((join a b).ends p) := by
  refine Led.flatMap fun q hq => Led.flatMap fun r hr => ?_
  exact all q hq r (mem_ends_gap.1 hr)

theorem led_join_closing
    (all : ∀ q ∈ a.ends p, ∀ r, q.Gap r → Led h ((b.ends r).flatMap closing.ends)) :
    Led h (((join a b).ends p).flatMap closing.ends) := by
  rw [join, ends, List.flatMap_assoc]
  refine Led.flatMap fun q hq => ?_
  rw [ends, List.flatMap_assoc]
  refine Led.flatMap fun r hr => ?_
  exact all q hq r (mem_ends_gap.1 hr)

theorem led_maybe_closing (some_end : Led h ((a.ends p).flatMap closing.ends))
    (no_end : Led h (closing.ends p)) : Led h (((maybe a).ends p).flatMap closing.ends) := by
  have choices : (maybe a).ends p = a.ends p ++ [p] := rfl
  rw [choices, List.flatMap_append, List.flatMap_singleton]
  exact some_end.append no_end

theorem led_oneOf_closing (left : Led h ((a.ends p).flatMap closing.ends))
    (right : Led h ((b.ends p).flatMap closing.ends)) :
    Led h (((oneOf a b).ends p).flatMap closing.ends) := by
  have choices : (oneOf a b).ends p = a.ends p ++ b.ends p := rfl
  rw [choices, List.flatMap_append]
  exact left.append right

/-! ## What stands behind a stem -/

theorem stem_of_mem_ends {l : Language Token} (ha : a.Reads l) (solid : l ≤ Phrase.allOf Token.Solid)
    (hq : q ∈ a.ends p) : p.Stem q := by
  obtain ⟨ts, hts, run⟩ := ha.sound hq
  exact ⟨ts, solid hts, run⟩

theorem mem_ends_closing : q ∈ closing.ends p ↔ ∃ x, p.Gap x ∧ x.Spans ['\x7b', '\x7d'] q := by
  rw [closing, ends, List.mem_flatMap]
  constructor
  · rintro ⟨x, hx, hq⟩
    exact ⟨x, mem_ends_gap.1 hx, mem_ends_literal.1 hq⟩
  · rintro ⟨x, hx, hq⟩
    exact ⟨x, mem_ends_gap.2 hx, mem_ends_literal.2 hq⟩

theorem head?_of_spans_body (h : p.Spans ['\x7b', '\x7d'] q) : p.rest.head? = some '\x7b' := by
  rw [h.rest_eq]
  rfl

theorem head?_of_spans_arrow (h : p.Spans ['-', '>'] q) : p.rest.head? = some '-' := by
  rw [h.rest_eq]
  rfl

/-- All stems that a body follows have the same end behind the body. -/
theorem eq_of_mem_closing {x : Place} (hx : p.Stem x) (body : x.Spans ['\x7b', '\x7d'] h)
    (he : p.Stem e) (hq : q ∈ closing.ends e) : q = h := by
  obtain ⟨y, hg, hy⟩ := mem_ends_closing.1 hq
  obtain rfl := (he.trans hg.stem).unique hx (.inl (head?_of_spans_body hy))
    (.inl (head?_of_spans_body body))
  exact hy.unique body

theorem exists_led_closing (e : Place) : ∃ h, Led h (closing.ends e) := by
  by_cases empty : closing.ends e = []
  · rw [empty]
    exact ⟨e, Led.nil⟩
  · obtain ⟨h, hh⟩ := List.exists_mem_of_ne_nil _ empty
    obtain ⟨x, hg, body⟩ := mem_ends_closing.1 hh
    exact ⟨h, .of_forall_eq fun q hq => eq_of_mem_closing hg.stem body (.refl e) hq⟩

theorem offset_of_spans_body (h : p.Spans ['\x7b', '\x7d'] q) : q.offset = p.offset + 2 :=
  h.offset_eq

theorem offset_le_of_mem_closing (hq : q ∈ closing.ends p) : p.offset + 2 ≤ q.offset := by
  obtain ⟨x, hg, hx⟩ := mem_ends_closing.1 hq
  obtain ⟨blanks, hb, -⟩ := hg.spans
  rw [offset_of_spans_body hx, hb.offset_eq]
  omega

/-! ## The text of a type -/

variable {g s : Place}

/-- The character that the text of a type takes next. -/
def typeChar? (g : Place) : Option Place := afterChar? (fun ch => !List.contains [';'] ch) g

theorem ends_typeName (g : Place) :
    typeName.ends g = g :: (typeChar? g).toList.flatMap typeName.ends := by
  have lazy (p : Place) : typeName.ends p = lazyEnds (noneOf [';']).ends p := rfl
  rw [lazy, lazyEnds]
  congr 1
  refine List.flatMap_congr fun s hs => ?_
  obtain ⟨ch, -, hn⟩ := afterChar?_eq_some_iff.1 (Option.mem_toList.1 hs)
  rw [dif_pos (Place.next?_length_lt hn), lazy]

theorem mem_typeName_closing :
    q ∈ (typeName.ends g).flatMap closing.ends ↔
      ∃ x, Repeats (noneOf [';']).ends g x ∧ q ∈ closing.ends x := by
  simp only [typeName, ends, List.mem_flatMap, mem_lazyEnds]

theorem offset_le_of_mem_typeName_closing (hq : q ∈ (typeName.ends g).flatMap closing.ends) :
    g.offset + 2 ≤ q.offset := by
  obtain ⟨x, hx, hq⟩ := mem_typeName_closing.1 hq
  obtain ⟨text, ht⟩ := hx.spans fun _ _ => spans_of_mem_ends
  have behind := offset_le_of_mem_closing hq
  rw [ht.offset_eq] at behind
  omega

/-- By induction on the text that is left: the texts of the type are tried from the shortest on, and
the first that a body follows gives the least end. The next one may give the same. -/
theorem exists_led_typeName (g : Place) :
    ∃ h, Led h ((typeName.ends g).flatMap closing.ends) := by
  induction left : g.rest.length using Nat.strong_induction_on generalizing g with
  | _ n ih =>
  rw [ends_typeName, List.flatMap_cons]
  cases next : typeChar? g with
  | none =>
    rw [Option.toList_none, List.flatMap_nil, List.flatMap_nil, List.append_nil]
    exact exists_led_closing g
  | some s =>
    rw [Option.toList_some, List.flatMap_singleton]
    obtain ⟨ch, -, hn⟩ := afterChar?_eq_some_iff.1 next
    by_cases empty : closing.ends g = []
    · rw [empty, List.nil_append]
      exact ih s.rest.length (left ▸ Place.next?_length_lt hn) s rfl
    · obtain ⟨h, led⟩ := exists_led_closing g
      refine ⟨h, led.append_of_le empty ?_⟩
      intro q hq
      have later := offset_le_of_mem_typeName_closing hq
      have after := (Place.Spans.single hn).offset_eq
      obtain ⟨r, hr⟩ := List.exists_mem_of_ne_nil _ empty
      have least := led.2 r hr
      obtain ⟨x, hg, body⟩ := mem_ends_closing.1 hr
      have width := offset_of_spans_body body
      cases hg with
      | none => omega
      | blank hb hn' =>
        rw [hn] at hn'
        cases hn'
        omega

/-- Behind a blank the tries find all the ends that they find before it. -/
theorem typeName_closing_subset {ch : Char} (blank : isBlank ch = true)
    (hn : g.next? = some (ch, s)) :
    (typeName.ends g).flatMap closing.ends ⊆ (typeName.ends s).flatMap closing.ends := by
  intro q hq
  obtain ⟨x, hx, hq⟩ := mem_typeName_closing.1 hq
  refine mem_typeName_closing.2 ?_
  cases hx with
  | refl =>
    obtain ⟨y, hg, hy⟩ := mem_ends_closing.1 hq
    cases hg with
    | none => exact absurd hn (Place.Turns.not_blank (.inl (head?_of_spans_body hy)) blank)
    | blank _ hn' =>
      rw [hn] at hn'
      cases hn'
      exact ⟨s, .refl s, mem_ends_closing.2 ⟨s, .none, hy⟩⟩
  | cons hs _ hx =>
    obtain ⟨c, -, hn'⟩ := mem_ends_noneOf.1 hs
    rw [hn] at hn'
    cases hn'
    exact ⟨x, hx, hq⟩

/-- The gap behind the arrow may go to the text of the type; the ends stay the same. -/
theorem exists_led_trailingReturn (e : Place) :
    ∃ h, Led h ((trailingReturn.ends e).flatMap closing.ends) := by
  cases arrow : afterLiteral? ['-', '>'] e with
  | none =>
    have none_here : trailingReturn.ends e = [] := by
      simp [trailingReturn, join, ends, arrow]
    rw [none_here]
    exact ⟨e, Led.nil⟩
  | some g =>
    have tries : trailingReturn.ends e = (gap.ends g).flatMap typeName.ends := by
      simp [trailingReturn, join, ends, arrow]
    have gaps : gap.ends g = (afterChar? isBlank g).toList ++ [g] := rfl
    rw [tries, gaps, List.flatMap_append, List.flatMap_singleton]
    cases next : afterChar? isBlank g with
    | none => exact exists_led_typeName g
    | some s =>
      obtain ⟨ch, blank, hn⟩ := afterChar?_eq_some_iff.1 next
      obtain ⟨h, led⟩ := exists_led_typeName s
      refine ⟨h, ?_⟩
      -- the try that takes the blank comes first
      rw [Option.toList_some, List.flatMap_singleton, List.flatMap_append]
      exact led.append_of_subset (typeName_closing_subset blank hn)

/-! ## Stems that a declarator, or none, goes on from -/

theorem solid_parameters : Phrase.parameters ≤ Phrase.allOf Token.Solid :=
  Phrase.token_le_allOf .paren

theorem solid_keyword {word : String} (h : word ∈ Phrase.keywords) :
    Phrase.token (.keyword word) ≤ Phrase.allOf Token.Solid := Phrase.token_le_allOf (.keyword h)

theorem solid_templateList : Phrase.maybe Phrase.templateList ≤ Phrase.allOf Token.Solid := by
  refine Phrase.maybe_le_allOf ?_
  rintro _ ⟨text, ht, rfl⟩ t hmem
  rw [List.mem_singleton.1 hmem]
  exact .templates ht

theorem solid_specifiers : Phrase.maybe Phrase.specifiers ≤ Phrase.allOf Token.Solid := by
  have one : Phrase.specifier ≤ Phrase.allOf Token.Solid :=
    Phrase.add_le_allOf (solid_keyword (by decide)) (solid_keyword (by decide))
  exact Phrase.maybe_le_allOf (Phrase.mul_le_allOf one (Phrase.maybe_le_allOf one))

theorem solid_exceptionSpecifier :
    Phrase.maybe Phrase.exceptionSpecifier ≤ Phrase.allOf Token.Solid := by
  refine Phrase.maybe_le_allOf (Phrase.add_le_allOf ?_ ?_)
  · exact Phrase.mul_le_allOf (solid_keyword (by decide)) (Phrase.maybe_le_allOf solid_parameters)
  · exact Phrase.mul_le_allOf (solid_keyword (by decide)) solid_parameters

theorem solid_attributeSpecifier : Phrase.attributeSpecifier ≤ Phrase.allOf Token.Solid :=
  Phrase.add_le_allOf (Phrase.token_le_allOf .square)
    (Phrase.mul_le_allOf (solid_keyword (by decide)) solid_parameters)

section Stems

variable {d : Place} (bare : ∀ e, p.Stem e → Led h (closing.ends e))
  (arrow : ∀ e, p.Stem e → Led h ((trailingReturn.ends e).flatMap closing.ends))

include bare arrow

theorem led_tail (hd : p.Stem d) : Led h ((tail.ends d).flatMap closing.ends) := by
  refine led_join_closing fun q hq r hr => led_join_closing fun s hs t ht => ?_
  have excepted := stem_of_mem_ends (reads_maybe reads_exceptionSpecifier)
    solid_exceptionSpecifier hq
  have attributed := stem_of_mem_ends (reads_listed reads_attributeSpecifier)
    (Phrase.kstar_le_allOf solid_attributeSpecifier) hs
  have stem := (hd.trans excepted).trans (hr.stem.trans (attributed.trans ht.stem))
  exact led_maybe_closing (arrow t stem) (bare t stem)

theorem led_declarator (hd : p.Stem d) : Led h ((declarator.ends d).flatMap closing.ends) := by
  refine led_oneOf_closing ?_ (led_tail bare arrow hd)
  refine led_join_closing fun q hq r hr => led_join_closing fun s hs t ht => ?_
  have given := stem_of_mem_ends reads_parameters solid_parameters hq
  have specified := stem_of_mem_ends (reads_maybe reads_specifiers) solid_specifiers hs
  exact led_tail bare arrow ((hd.trans given).trans (hr.stem.trans (specified.trans ht.stem)))

/-- A list of ends is led if what follows each stem is. -/
theorem led_lambda : Led h (lambda.ends p) := by
  refine led_join fun q hq r hr => led_join fun s hs t ht => ?_
  have introduced := stem_of_mem_ends reads_introducer (Phrase.token_le_allOf .square) hq
  have listed := stem_of_mem_ends (reads_maybe reads_templateList) solid_templateList hs
  have stem := (introduced.trans hr.stem).trans (listed.trans ht.stem)
  exact led_maybe_closing (led_declarator bare arrow stem) (bare t stem)

end Stems

/-- All ends of the pattern go through the place where its stem comes to a body or an arrow. -/
theorem exists_led_lambda (p : Place) : ∃ h, Led h (lambda.ends p) := by
  have no_arrow {e : Place} (none_here : ∀ g, ¬ e.Spans ['-', '>'] g) :
      trailingReturn.ends e = [] := by
    refine List.eq_nil_iff_forall_not_mem.2 fun q hq => ?_
    obtain ⟨g, hg, -⟩ := mem_ends_join.1 hq
    exact none_here g (mem_ends_literal.1 hg)
  by_cases body : ∃ x h, p.Stem x ∧ x.Spans ['\x7b', '\x7d'] h
  · -- the stem comes to a body, so no stem comes to an arrow
    obtain ⟨x, h, hx, body⟩ := body
    refine ⟨h, led_lambda ?_ ?_⟩
    · intro e he
      exact .of_forall_eq fun q hq => eq_of_mem_closing hx body he hq
    · intro e he
      rw [no_arrow fun g hg => ?_]
      · exact Led.nil
      · have arrow_here := head?_of_spans_arrow hg
        have body_here := head?_of_spans_body body
        rw [he.unique hx (.inr arrow_here) (.inl body_here), body_here] at arrow_here
        cases arrow_here
  · have bare : ∀ h e, p.Stem e → Led h (closing.ends e) := by
      intro h e he
      refine .of_forall_eq fun q hq => ?_
      obtain ⟨x, hg, hx⟩ := mem_ends_closing.1 hq
      exact absurd ⟨x, q, he.trans hg.stem, hx⟩ body
    by_cases arrow : ∃ x g, p.Stem x ∧ x.Spans ['-', '>'] g
    · -- each stem that an arrow follows has come to this one
      obtain ⟨x, g, hx, arrow⟩ := arrow
      obtain ⟨h, led⟩ := exists_led_trailingReturn x
      refine ⟨h, led_lambda (bare h) ?_⟩
      intro e he
      by_cases here : ∃ g', e.Spans ['-', '>'] g'
      · obtain ⟨g', here⟩ := here
        rw [he.unique hx (.inr (head?_of_spans_arrow here)) (.inr (head?_of_spans_arrow arrow))]
        exact led
      · rw [no_arrow fun g' hg' => here ⟨g', hg'⟩]
        exact Led.nil
    · refine ⟨p, led_lambda (bare p) ?_⟩
      intro e he
      rw [no_arrow fun g hg => arrow ⟨e, g, he, hg⟩]
      exact Led.nil

/-- The match that the pattern prefers is the shortest. -/
theorem offset_le_of_firstEnd? {p q r : Place} (h : lambda.firstEnd? p = some q)
    (hr : r ∈ lambda.ends p) : q.offset ≤ r.offset := by
  obtain ⟨best, led⟩ := exists_led_lambda p
  rw [led.1 q (Option.filter_eq_some_iff.1 h).1]
  exact led.2 r hr

end Grammar
end LambdaTally
