import LambdaTally.Proofs.Grammar.Reading

/-!
# LambdaTally.Proofs.Grammar.Stem

The stem of a lambda expression, all of it before the arrow or the body, is forced by the text. Of
the tokens that a stem is made of at most one stands at a place, and in one way (`Solid.unique`); so
two stems from one place that both stop before a `{` or a `-` stop at the same place
(`Stem.unique`). The text of a template list ends where its brackets are balanced, which reading it
with a counter finds (`afterAngles`).
-/

namespace LambdaTally

open CharClass
open scoped Computability

namespace Phrase

/-- What stands behind the angle brackets that are open. -/
def afterAngles : (depth : Nat) → List Char → List Char
  | 0, text => text
  | _ + 1, [] => []
  | depth + 1, ch :: text =>
    if ch = '<' then afterAngles (depth + 2) text
    else if ch = '>' then afterAngles depth text
    else afterAngles (depth + 1) text

theorem afterAngles_opening (depth : Nat) (text : List Char) :
    afterAngles (depth + 1) ('<' :: text) = afterAngles (depth + 2) text := by
  rw [afterAngles, if_pos rfl]

theorem afterAngles_closing (depth : Nat) (text : List Char) :
    afterAngles (depth + 1) ('>' :: text) = afterAngles depth text := by
  rw [afterAngles, if_neg (by decide), if_pos rfl]

theorem afterAngles_plain (depth : Nat) {text : List Char} (plain : ∀ ch ∈ text, ch ∉ ['<', '>', ';'])
    (rest : List Char) : afterAngles (depth + 1) (text ++ rest) = afterAngles (depth + 1) rest := by
  induction text with
  | nil => rfl
  | cons ch text ih =>
    obtain ⟨here, later⟩ := List.forall_mem_cons.1 plain
    have ne : ch ≠ '<' ∧ ch ≠ '>' := by
      constructor <;> rintro rfl <;> simp at here
    rw [List.cons_append, afterAngles, if_neg ne.1, if_neg ne.2]
    exact ih later

theorem afterAngles_item {text : List Char} (h : text ∈ noneOf ['<', '>', ';'] +
      exactly ['<'] * (noneOf ['<', '>', ';'])∗ * exactly ['>']) (rest : List Char) :
    afterAngles 1 (text ++ rest) = afterAngles 1 rest := by
  rcases h with ⟨ch, plain, rfl⟩ | ⟨_, ⟨_, rfl, inner, hinner, rfl⟩, _, rfl, rfl⟩
  · refine afterAngles_plain 0 ?_ rest
    intro c hc
    rwa [List.mem_singleton.1 hc]
  · calc afterAngles 1 ((['<'] ++ inner ++ ['>']) ++ rest)
        = afterAngles 1 ('<' :: (inner ++ '>' :: rest)) := by simp
      _ = afterAngles 2 (inner ++ '>' :: rest) := afterAngles_opening 0 _
      _ = afterAngles 2 ('>' :: rest) := afterAngles_plain 1 (mem_kstar_noneOf.1 hinner) _
      _ = afterAngles 1 rest := afterAngles_closing 1 rest

/-- The text of a template list is read back to its end, whatever stands behind it. -/
theorem afterAngles_templateText {text : List Char} (h : text ∈ templateText) :
    ∃ inner, text = '<' :: inner ∧ ∀ rest, afterAngles 1 (inner ++ rest) = rest := by
  obtain ⟨_, ⟨_, rfl, _, ⟨items, rfl, each⟩, rfl⟩, _, rfl, rfl⟩ := h
  refine ⟨items.flatten ++ ['>'], rfl, ?_⟩
  intro rest
  rw [List.append_assoc]
  induction items with
  | nil =>
    refine (afterAngles_closing 0 rest).trans ?_
    rw [afterAngles]
  | cons item items ih =>
    obtain ⟨here, later⟩ := List.forall_mem_cons.1 each
    rw [List.flatten_cons, List.append_assoc, afterAngles_item here]
    exact ih later

/-- The words that stand in a stem. -/
def keywords : List String := ["mutable", "constexpr", "noexcept", "throw", "alignas"]

end Phrase

/-- A token of a stem. -/
inductive Token.Solid : Token → Prop where
  | square : Solid (.group .square)
  | paren : Solid (.group .paren)
  | keyword {word : String} : word ∈ Phrase.keywords → Solid (.keyword word)
  | templates {text : List Char} : text ∈ Phrase.templateText → Solid (.templates text)

namespace Token.Solid

variable {t u : Token} {p q r : Place}

/-- The first character of a solid token, which tells the tokens apart. -/
theorem exists_head (h : t.Solid) :
    ∃ ch rest, t.text = ch :: rest ∧ isBlank ch = false ∧ ch ≠ '\x7b' ∧ ch ≠ '-' := by
  cases h with
  | square => exact ⟨'[', [']'], rfl, by decide⟩
  | paren => exact ⟨'(', [')'], rfl, by decide⟩
  | @keyword word hw =>
    have all : ∀ word ∈ Phrase.keywords, ∃ ch rest,
        word.toList = ch :: rest ∧ isBlank ch = false ∧ ch ≠ '\x7b' ∧ ch ≠ '-' := by
      simp only [Phrase.keywords, List.forall_mem_cons]
      refine ⟨⟨_, _, rfl, by decide⟩, ⟨_, _, rfl, by decide⟩, ⟨_, _, rfl, by decide⟩,
        ⟨_, _, rfl, by decide⟩, ⟨_, _, rfl, by decide⟩, by simp⟩
    exact all word hw
  | templates ht =>
    obtain ⟨inner, rfl, -⟩ := Phrase.afterAngles_templateText ht
    exact ⟨'<', inner, rfl, by decide⟩

theorem eq_or_templates (ht : t.Solid) (hu : u.Solid) (same : t.text.head? = u.text.head?) :
    t = u ∨ ∃ x ∈ Phrase.templateText, ∃ y ∈ Phrase.templateText,
      t = .templates x ∧ u = .templates y := by
  have words : ∀ v ∈ Phrase.keywords, ∀ w ∈ Phrase.keywords,
      v.toList.head? = w.toList.head? → v = w := by decide
  have others : ∀ w ∈ Phrase.keywords, w.toList.head? ≠ some '[' ∧ w.toList.head? ≠ some '(' ∧
      w.toList.head? ≠ some '<' := by decide
  have angle {x : List Char} (hx : x ∈ Phrase.templateText) : x.head? = some '<' := by
    obtain ⟨inner, rfl, -⟩ := Phrase.afterAngles_templateText hx
    rfl
  cases ht with
  | square =>
    cases hu with
    | square => exact .inl rfl
    | paren => cases same
    | keyword hw => exact absurd same.symm (others _ hw).1
    | templates hx => cases same.trans (angle hx)
  | paren =>
    cases hu with
    | square => cases same
    | paren => exact .inl rfl
    | keyword hw => exact absurd same.symm (others _ hw).2.1
    | templates hx => cases same.trans (angle hx)
  | keyword hv =>
    cases hu with
    | square => exact absurd same (others _ hv).1
    | paren => exact absurd same (others _ hv).2.1
    | keyword hw => exact .inl (congrArg _ (words _ hv _ hw same))
    | templates hx => exact absurd (same.trans (angle hx)) (others _ hv).2.2
  | templates hx =>
    cases hu with
    | square => cases (angle hx).symm.trans same
    | paren => cases (angle hx).symm.trans same
    | keyword hw => exact absurd (same.symm.trans (angle hx)) (others _ hw).2.2
    | templates hy => exact .inr ⟨_, hx, _, hy, rfl, rfl⟩

/-- At most one solid token stands at a place, and it ends at one place. -/
theorem unique (ht : t.Solid) (hu : u.Solid) (hq : p.Shows t q) (hr : p.Shows u r) : q = r := by
  obtain ⟨c, x, hx, -⟩ := ht.exists_head
  obtain ⟨d, y, hy, -⟩ := hu.exists_head
  have texts := hq.spans.rest_eq.symm.trans hr.spans.rest_eq
  have heads : t.text.head? = u.text.head? := by
    rw [hx, hy, List.cons_append, List.cons_append] at texts
    rw [hx, hy, List.cons.inj texts |>.1]
    rfl
  rcases ht.eq_or_templates hu heads with rfl | ⟨v, hv, w, hw, rfl, rfl⟩
  · exact hq.spans.unique hr.spans
  · -- both lists end where their brackets are balanced
    obtain ⟨v', rfl, endv⟩ := Phrase.afterAngles_templateText hv
    obtain ⟨w', rfl, endw⟩ := Phrase.afterAngles_templateText hw
    have inner : v' ++ q.rest = w' ++ r.rest := (List.cons.inj texts).2
    have behind : q.rest = r.rest := by
      rw [← endv q.rest, inner, endw]
    rw [behind] at inner
    obtain rfl := List.append_cancel_right inner
    exact hq.spans.unique hr.spans

end Token.Solid

namespace Place

variable {p q r : Place}

/-- A run of solid tokens. -/
def Stem (p q : Place) : Prop := ∃ ts ∈ Phrase.allOf Token.Solid, p.Runs ts q

/-- A body or an arrow may stand here, but no solid token. -/
def Turns (p : Place) : Prop := p.rest.head? = some '\x7b' ∨ p.rest.head? = some '-'

theorem Stem.trans (h : p.Stem q) (k : q.Stem r) : p.Stem r := by
  obtain ⟨ts, hts, hpq⟩ := h
  obtain ⟨us, hus, hqr⟩ := k
  refine ⟨ts ++ us, ?_, hpq.trans hqr⟩
  intro t ht
  exact (List.mem_append.1 ht).elim (hts t) (hus t)

theorem Gap.stem (h : p.Gap q) : p.Stem q := ⟨[], Phrase.one_le_allOf rfl, h.runs⟩

theorem Stem.refl (p : Place) : p.Stem p := Gap.none.stem

theorem Turns.not_blank (h : p.Turns) {ch : Char} (blank : isBlank ch = true) :
    p.next? ≠ some (ch, q) := by
  intro hn
  obtain ⟨rest, hrest, -⟩ := next?_eq_some_iff.1 hn
  unfold Turns at h
  rw [hrest, List.head?_cons] at h
  rcases h with ⟨⟨⟩⟩ | ⟨⟨⟩⟩ <;> revert blank <;> decide

theorem Turns.not_solid (h : p.Turns) {t : Token} (solid : t.Solid) : ¬ p.Shows t q := by
  intro ht
  obtain ⟨ch, rest, hch, -, no_body, no_arrow⟩ := solid.exists_head
  unfold Turns at h
  rw [ht.spans.rest_eq, hch, List.cons_append, List.head?_cons] at h
  rcases h with ⟨⟨⟩⟩ | ⟨⟨⟩⟩
  · exact no_body rfl
  · exact no_arrow rfl

theorem not_blank_of_solid {t : Token} (solid : t.Solid) (ht : p.Shows t q) {ch : Char}
    (blank : isBlank ch = true) : p.next? ≠ some (ch, r) := by
  intro hn
  obtain ⟨rest, hrest, -⟩ := next?_eq_some_iff.1 hn
  obtain ⟨c, more, hc, plain, -⟩ := solid.exists_head
  rw [ht.spans.rest_eq, hc] at hrest
  cases hrest
  rw [plain] at blank
  cases blank

/-- By induction on one run, with the other taken apart beside it. -/
theorem Stem.unique {x y : Place} (hx : p.Stem x) (hy : p.Stem y) (tx : x.Turns) (ty : y.Turns) :
    x = y := by
  obtain ⟨ts, hts, h⟩ := hx
  obtain ⟨us, hus, k⟩ := hy
  induction h generalizing us with
  | nil =>
    cases k with
    | nil => rfl
    | blank hb hn => exact absurd hn (tx.not_blank hb)
    | token hu => exact absurd hu (tx.not_solid (hus _ List.mem_cons_self))
  | blank hb hn _ ih =>
    cases k with
    | nil => exact absurd hn (ty.not_blank hb)
    | blank hb' hn' k =>
      rw [hn] at hn'
      cases hn'
      exact ih tx hts us hus k
    | token hu => exact absurd hn (not_blank_of_solid (hus _ List.mem_cons_self) hu hb)
  | token ht _ ih =>
    obtain ⟨solid, hts⟩ := List.forall_mem_cons.1 hts
    cases k with
    | nil => exact absurd ht (ty.not_solid solid)
    | blank hb hn => exact absurd hn (not_blank_of_solid solid ht hb)
    | token hu k =>
      obtain ⟨solid', hus⟩ := List.forall_mem_cons.1 hus
      obtain rfl := solid.unique solid' ht hu
      exact ih tx hts _ hus k

end Place
end LambdaTally
