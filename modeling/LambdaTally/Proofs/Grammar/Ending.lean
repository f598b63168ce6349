import LambdaTally.Proofs.Grammar.Preference
import LambdaTally.Proofs.Pattern.Context

/-!
# LambdaTally.Proofs.Grammar.Ending

Where a lambda expression ends. Its phrase is a stem and a body, or a stem, an arrow, a type and a
body (`exists_stem_of_mem_lambda`). The stem comes to one place only, and if the type holds no brace,
the body is at the first brace behind the arrow. So all ends of the pattern are one (`eq_of_runs`),
and a text that spells such an expression holds that one match (`matchesIn_of_spells`).
-/

namespace LambdaTally

open scoped Computability

namespace Phrase

/-- The phrases of solid tokens, perhaps with the type that a function returns behind them. -/
def headed : Language Token := allOf Token.Solid * maybe trailingReturn

theorem solid_mul_headed {l : Language Token} (h : l ≤ allOf Token.Solid) : l * headed ≤ headed := by
  unfold headed
  rw [← mul_assoc]
  exact mul_le_mul_left (mul_le_allOf h le_rfl) _

theorem one_le_headed : 1 ≤ headed := by
  rintro _ rfl
  exact ⟨[], one_le_allOf rfl, [], .inr rfl, rfl⟩

theorem tail_le_headed : tail ≤ headed :=
  mul_le_mul_left (mul_le_allOf Grammar.solid_exceptionSpecifier
    (kstar_le_allOf Grammar.solid_attributeSpecifier)) _

theorem declarator_le_headed : declarator ≤ headed := by
  refine add_le ?_ tail_le_headed
  have given := mul_le_allOf Grammar.solid_parameters Grammar.solid_specifiers
  exact (mul_le_mul_right tail_le_headed _).trans (solid_mul_headed given)

theorem exists_stem_of_mem_lambda {ts : List Token} (h : ts ∈ lambda) :
    ∃ stem ∈ allOf Token.Solid, ts = stem ++ [.group .brace] ∨
      ∃ text, ';' ∉ text ∧ ts = stem ++ [.arrow, .type text, .group .brace] := by
  have opening : introducer * maybe templateList ≤ allOf Token.Solid :=
    mul_le_allOf (token_le_allOf .square) Grammar.solid_templateList
  have whole : introducer * maybe templateList * maybe declarator ≤ headed :=
    (mul_le_mul_right (add_le declarator_le_headed one_le_headed) _).trans (solid_mul_headed opening)
  obtain ⟨front, hfront, _, rfl, rfl⟩ := h
  obtain ⟨stem, solid, trailing, htrailing, rfl⟩ := whole hfront
  refine ⟨stem, solid, ?_⟩
  rcases htrailing with ⟨_, rfl, _, ⟨text, plain, rfl⟩, rfl⟩ | rfl
  · refine .inr ⟨text, ?_, by simp⟩
    intro semicolon
    exact mem_kstar_noneOf.1 plain ';' semicolon List.mem_cons_self
  · exact .inl (by simp)

end Phrase

namespace Place

variable {p q r : Place} {ts us : List Token} {t : Token}

theorem Spells.runs (h : p.Spells ts q) : p.Runs ts q := by
  induction h with
  | nil => exact .nil
  | last ht => exact .single ht
  | cons ht hg _ ih => exact .token ht (hg.runs.trans ih)

/-- A run of some tokens and one more comes to the place where that one stands. -/
theorem Runs.split (h : p.Runs (ts ++ t :: us) q) :
    ∃ x y, p.Runs ts x ∧ x.Shows t y ∧ y.Runs us q := by
  generalize whole : ts ++ t :: us = all at h
  induction h generalizing ts with
  | nil => simp at whole
  | blank hb hn _ ih =>
    obtain ⟨x, y, hx, ht, hy⟩ := ih whole
    exact ⟨x, y, .blank hb hn hx, ht, hy⟩
  | @token p s q u all hu hr ih =>
    cases ts with
    | nil =>
      obtain ⟨rfl, rfl⟩ := List.cons.inj whole
      exact ⟨p, s, .nil, hu, hr⟩
    | cons v ts =>
      obtain ⟨rfl, later⟩ := List.cons.inj whole
      obtain ⟨x, y, hx, ht, hy⟩ := ih later
      exact ⟨x, y, .token hu hx, ht, hy⟩

/-- A run without tokens goes over blanks. -/
theorem Runs.blanks (h : p.Runs [] q) :
    ∃ blanks, p.Spans blanks q ∧ ∀ ch ∈ blanks, CharClass.isBlank ch = true := by
  generalize none_here : ([] : List Token) = ts at h
  induction h with
  | nil => exact ⟨[], .nil, by simp⟩
  | @blank _ _ _ ch _ hb hn _ ih =>
    obtain ⟨blanks, hs, all⟩ := ih none_here
    exact ⟨ch :: blanks, .cons hn hs, List.forall_mem_cons.2 ⟨hb, all⟩⟩
  | token => cases none_here

/-- What stands between the arrow and the end: a text that no brace is in if there is none in the
type, and the body. -/
theorem Runs.exists_type {text : List Char} (h : p.Runs [.type text, .group .brace] q)
    (behind : ∀ ch, q.previous = some ch → CharClass.isBlank ch = false) :
    ∃ between, p.Spans (between ++ ['\x7b', '\x7d']) q ∧ ('\x7b' ∉ text → '\x7b' ∉ between) := by
  obtain ⟨a, b, front, type, rest⟩ := @Runs.split p q [] _ _ h
  obtain ⟨c, d, back, body, last⟩ := @Runs.split b q [] _ _ rest
  obtain rfl | ⟨ch, hch, blank⟩ := last.of_nil
  · obtain ⟨x, hx, blank_x⟩ := front.blanks
    obtain ⟨y, hy, blank_y⟩ := back.blanks
    refine ⟨x ++ (text ++ y), ?_, ?_⟩
    · have braces : c.Spans ['\x7b', '\x7d'] d := body.spans
      simpa [Token.text] using hx.trans (type.spans.trans (hy.trans braces))
    · intro none_in
      have plain {l : List Char} (all : ∀ ch ∈ l, CharClass.isBlank ch = true) : '\x7b' ∉ l := by
        intro hmem
        have blank := all _ hmem
        revert blank
        decide
      simp only [List.mem_append, not_or]
      exact ⟨plain blank_x, none_in, plain blank_y⟩
  · rw [behind ch hch] at blank
    cases blank

/-- A run of a lambda expression goes on from its stem straight to the body, or over an arrow and a
type. -/
theorem Runs.exists_turn (h : p.Runs ts q) (lambda : ts ∈ Phrase.lambda)
    (behind : ∀ ch, q.previous = some ch → CharClass.isBlank ch = false) :
    ∃ x, p.Stem x ∧ (x.Spans ['\x7b', '\x7d'] q ∨
      ∃ text y, Token.type text ∈ ts ∧ x.Spans ['-', '>'] y ∧
        y.Runs [.type text, .group .brace] q) := by
  obtain ⟨stem, solid, rfl | ⟨text, -, rfl⟩⟩ := Phrase.exists_stem_of_mem_lambda lambda
  · obtain ⟨x, y, hx, body, last⟩ := h.split
    obtain rfl | ⟨ch, hch, blank⟩ := last.of_nil
    · exact ⟨x, ⟨stem, solid, hx⟩, .inl body.spans⟩
    · rw [behind ch hch] at blank
      cases blank
  · obtain ⟨x, y, hx, arrow, rest⟩ := h.split
    exact ⟨x, ⟨stem, solid, hx⟩, .inr ⟨text, y, by simp, arrow.spans, rest⟩⟩

end Place

/-- A text with one brace group, at its end, is no longer than another one ending in such a group
that it goes on from. -/
theorem eq_nil_of_first_brace {a b c : List Char} (none_in : '\x7b' ∉ a)
    (same : a ++ ['\x7b', '\x7d'] = b ++ ['\x7b', '\x7d'] ++ c) : c = [] := by
  rw [List.append_assoc] at same
  rcases List.append_eq_append_iff.1 same with ⟨d, -, tail⟩ | ⟨d, rfl, tail⟩
  · have lengths := congrArg List.length tail
    simp only [List.length_append, List.length_cons, List.length_nil] at lengths
    exact List.length_eq_zero_iff.1 (by omega)
  · cases d with
    | nil => simpa using tail
    | cons ch d =>
      obtain ⟨rfl, -⟩ := List.cons.inj tail
      simp at none_in

namespace Grammar

open Pattern Utf8

variable {p q e : Place} {ts : List Token}

/-- In a text that spells a lambda expression, with no brace in the type, there is no other end. -/
theorem eq_of_spells (lambda : ts ∈ Phrase.lambda) (types : ∀ text, .type text ∈ ts → '\x7b' ∉ text)
    (spelled : p.Spells ts q) (at_end : q.rest = []) (he : e ∈ Grammar.lambda.ends p) : e = q := by
  have closed {r : Place} (hr : r ∈ Grammar.lambda.ends p) :
      ∀ ch, r.previous = some ch → CharClass.isBlank ch = false := by
    obtain ⟨-, -, -, -, last⟩ := exists_introducer hr
    rw [last]
    rintro ch ⟨⟩
    decide
  have hq := reads_lambda.complete lambda spelled
  obtain ⟨us, other, run⟩ := reads_lambda.sound he
  obtain ⟨x, hx, forms⟩ := spelled.runs.exists_turn lambda (closed hq)
  obtain ⟨x', hx', forms'⟩ := run.exists_turn other (closed he)
  -- the two stems come to the same place, and so to the same character
  have body_at {z r : Place} (hz : z.Spans ['\x7b', '\x7d'] r) := head?_of_spans_body hz
  have arrow_at {z r : Place} (hz : z.Spans ['-', '>'] r) := head?_of_spans_arrow hz
  rcases forms with body | ⟨text, y, mem, arrow, type⟩
  · rcases forms' with body' | ⟨-, y', -, arrow', -⟩
    · obtain rfl := hx.unique hx' (.inl (body_at body)) (.inl (body_at body'))
      exact body'.unique body
    · obtain rfl := hx.unique hx' (.inl (body_at body)) (.inr (arrow_at arrow'))
      cases (body_at body).symm.trans (arrow_at arrow')
  · rcases forms' with body' | ⟨text', y', -, arrow', type'⟩
    · obtain rfl := hx.unique hx' (.inr (arrow_at arrow)) (.inl (body_at body'))
      cases (arrow_at arrow).symm.trans (body_at body')
    · obtain rfl := hx.unique hx' (.inr (arrow_at arrow)) (.inr (arrow_at arrow'))
      obtain rfl := arrow.unique arrow'
      obtain ⟨between, hs, plain⟩ := type.exists_type (closed hq)
      obtain ⟨between', hs', -⟩ := type'.exists_type (closed he)
      have texts := hs.rest_eq.symm.trans hs'.rest_eq
      rw [at_end, List.append_nil] at texts
      rw [eq_nil_of_first_brace (plain (types text mem)) texts, List.append_nil] at texts
      rw [texts] at hs
      exact hs'.unique hs

/-- A text that spells a lambda expression, with no brace in the type, holds one match, the whole of
it. -/
theorem matchesIn_of_spells {text : List Char} (lambda : ts ∈ Phrase.lambda)
    (types : ∀ text, .type text ∈ ts → '\x7b' ∉ text) (spelled : (Place.ofText text).Spells ts q)
    (at_end : q.rest = []) : Grammar.lambda.matchesIn text = [(0, byteLength text)] := by
  obtain ⟨r, first⟩ := exists_firstEnd? (reads_lambda.complete lambda spelled)
  obtain rfl := eq_of_spells lambda types spelled at_end (mem_ends_of_firstEnd? first)
  obtain ⟨whole, hs⟩ := spelled.spans
  have all : text = whole := by
    have rest := hs.rest_eq
    rwa [at_end, List.append_nil] at rest
  rw [matchesIn, matchesFrom_of_firstEnd? first, matchesFrom_of_rest_eq_nil at_end, hs.offset_eq, all]
  simp [Place.ofText]

end Grammar
end LambdaTally
