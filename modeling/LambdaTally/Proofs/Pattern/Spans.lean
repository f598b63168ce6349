import LambdaTally.Pattern
import LambdaTally.Proofs.Text.Octets

/-!
# LambdaTally.Proofs.Pattern.Spans

Where the ends of a pattern lie. `p.Spans text q` says that `text` stands at `p` and `q` is the place
behind it; every end of a pattern is behind some text (`spans_of_mem_ends`). The ends of a
repetition, greedy or lazy, are the places that the repeated step leads to when each run of it uses
up text (`Repeats`), whatever their order.
-/

namespace LambdaTally

open Utf8

namespace Place

/-- The text stands at `p`, and `q` is the place behind it. -/
inductive Spans : Place → List Char → Place → Prop where
  | nil {p : Place} : Spans p [] p
  | cons {p q r : Place} {ch : Char} {text : List Char} :
      p.next? = some (ch, q) → Spans q text r → Spans p (ch :: text) r

theorem next?_eq_some_iff {p q : Place} {ch : Char} :
    p.next? = some (ch, q) ↔
      ∃ rest, p.rest = ch :: rest ∧ q = ⟨p.offset + ch.utf8Size, some ch, rest⟩ := by
  obtain ⟨offset, previous, rest⟩ := p
  cases rest with
  | nil => simp [next?]
  | cons c rest =>
    simp only [next?, Option.some.injEq, Prod.mk.injEq, List.cons.injEq]
    constructor
    · rintro ⟨rfl, rfl⟩
      exact ⟨rest, ⟨rfl, rfl⟩, rfl⟩
    · rintro ⟨rest', ⟨rfl, rfl⟩, rfl⟩
      exact ⟨rfl, rfl⟩

namespace Spans

variable {p q r : Place} {text more : List Char}

theorem trans (h : p.Spans text q) (k : q.Spans more r) : p.Spans (text ++ more) r := by
  induction h with
  | nil => exact k
  | cons hn _ ih => exact .cons hn (ih k)

theorem single {ch : Char} (h : p.next? = some (ch, q)) : p.Spans [ch] q := .cons h .nil

theorem rest_eq (h : p.Spans text q) : p.rest = text ++ q.rest := by
  induction h with
  | nil => rfl
  | cons hn _ ih =>
    obtain ⟨rest, hr, rfl⟩ := next?_eq_some_iff.1 hn
    rw [hr, List.cons_append, ← ih]

theorem offset_eq (h : p.Spans text q) : q.offset = p.offset + byteLength text := by
  induction h with
  | nil => rfl
  | cons hn _ ih =>
    obtain ⟨rest, hr, rfl⟩ := next?_eq_some_iff.1 hn
    rw [ih, byteLength_cons, Nat.add_assoc]

theorem unique (h : p.Spans text q) (k : p.Spans text r) : q = r := by
  induction h with
  | nil => cases k; rfl
  | cons hn _ ih =>
    cases k with
    | cons hn' k =>
      rw [hn] at hn'
      cases hn'
      exact ih k

theorem split {a b : List Char} (h : p.Spans (a ++ b) r) : ∃ q, p.Spans a q ∧ q.Spans b r := by
  induction a generalizing p with
  | nil => exact ⟨p, .nil, h⟩
  | cons ch a ih =>
    cases h with
    | cons hn h =>
      obtain ⟨q, ha, hb⟩ := ih h
      exact ⟨q, .cons hn ha, hb⟩

/-- Of two texts that stand at a place, the one that ends no further is the beginning of the
other. -/
theorem extend {a b : List Char} (h : p.Spans a q) (k : p.Spans b r) (le : q.offset ≤ r.offset) :
    ∃ c, b = a ++ c ∧ q.Spans c r := by
  have same : a ++ q.rest = b ++ r.rest := h.rest_eq.symm.trans k.rest_eq
  rcases List.append_eq_append_iff.1 same with ⟨c, rfl, -⟩ | ⟨c, rfl, -⟩
  · obtain ⟨q', hq', hc⟩ := k.split
    rw [h.unique hq']
    exact ⟨c, rfl, hc⟩
  · obtain ⟨r', hr', hc⟩ := h.split
    obtain rfl := k.unique hr'
    have width := hc.offset_eq
    cases c with
    | nil =>
      cases hc
      exact ⟨[], by simp, .nil⟩
    | cons ch c =>
      have := byteLength_pos (List.cons_ne_nil ch c)
      omega

/-- Places that texts from one place lead to are the same at the same offset. -/
theorem eq_of_offset {a b : List Char} (h : p.Spans a q) (k : p.Spans b r)
    (same : q.offset = r.offset) : q = r := by
  obtain ⟨c, -, hc⟩ := h.extend k (Nat.le_of_eq same)
  cases c with
  | nil =>
    cases hc
    rfl
  | cons ch c =>
    have longer := byteLength_pos (List.cons_ne_nil ch c)
    have width := hc.offset_eq
    omega

theorem length_rest (h : p.Spans text q) : p.rest.length = text.length + q.rest.length := by
  rw [h.rest_eq, List.length_append]

theorem text_unique (h : p.Spans text q) (k : p.Spans more q) : text = more :=
  List.append_cancel_right (h.rest_eq.symm.trans k.rest_eq)

/-- The character before the end of a text is its last one, if it has any. -/
theorem previous_eq (h : p.Spans text q) : q.previous = text.getLast?.or p.previous := by
  induction h with
  | nil => rfl
  | @cons p q r ch text hn _ ih =>
    obtain ⟨rest, -, rfl⟩ := next?_eq_some_iff.1 hn
    rw [ih, List.getLast?_cons]
    cases text.getLast? <;> rfl

end Spans

theorem spans_of_rest {p : Place} {text rest : List Char} (h : p.rest = text ++ rest) :
    ∃ q, p.Spans text q ∧ q.rest = rest := by
  induction text generalizing p with
  | nil => exact ⟨p, .nil, h⟩
  | cons ch text ih =>
    have hn : p.next? = some (ch, ⟨p.offset + ch.utf8Size, some ch, text ++ rest⟩) :=
      next?_eq_some_iff.2 ⟨text ++ rest, h, rfl⟩
    obtain ⟨q, hq, hr⟩ := ih (p := ⟨p.offset + ch.utf8Size, some ch, text ++ rest⟩) rfl
    exact ⟨q, .cons hn hq, hr⟩

/-- A text stands at its start, with nothing behind it. -/
theorem exists_end (text : List Char) : ∃ q, (ofText text).Spans text q ∧ q.rest = [] :=
  spans_of_rest (List.append_nil text).symm

end Place

namespace Pattern

/-- The places that a step leads to, run again and again as long as each run uses up text. -/
inductive Repeats (step : Place → List Place) : Place → Place → Prop where
  | refl (p : Place) : Repeats step p p
  | cons {p q r : Place} : q ∈ step p → q.rest.length < p.rest.length → Repeats step q r →
      Repeats step p r

theorem mem_greedyEnds {step : Place → List Place} {p q : Place} :
    q ∈ greedyEnds step p ↔ Repeats step p q := by
  constructor
  · intro h
    fun_induction greedyEnds step p with
    | case1 p ih =>
      rcases List.mem_append.1 h with h | h
      · obtain ⟨r, hr, hq⟩ := List.mem_flatMap.1 h
        split at hq
        · rename_i lt
          exact .cons hr lt (ih r lt hq)
        · cases hq
      · rw [List.mem_singleton.1 h]
        exact .refl p
  · intro h
    induction h with
    | refl p =>
      rw [greedyEnds]
      exact List.mem_append_right _ List.mem_cons_self
    | @cons p r q hr lt _ ih =>
      rw [greedyEnds]
      refine List.mem_append_left _ (List.mem_flatMap.2 ⟨r, hr, ?_⟩)
      rwa [dif_pos lt]

theorem mem_lazyEnds {step : Place → List Place} {p q : Place} :
    q ∈ lazyEnds step p ↔ Repeats step p q := by
  constructor
  · intro h
    fun_induction lazyEnds step p with
    | case1 p ih =>
      rcases List.mem_cons.1 h with rfl | h
      · exact .refl q
      · obtain ⟨r, hr, hq⟩ := List.mem_flatMap.1 h
        split at hq
        · rename_i lt
          exact .cons hr lt (ih r lt hq)
        · cases hq
  · intro h
    induction h with
    | refl p =>
      rw [lazyEnds]
      exact List.mem_cons_self
    | @cons p r q hr lt _ ih =>
      rw [lazyEnds]
      refine List.mem_cons_of_mem _ (List.mem_flatMap.2 ⟨r, hr, ?_⟩)
      rwa [dif_pos lt]

theorem afterLiteral?_eq_some_iff {text : List Char} {p q : Place} :
    afterLiteral? text p = some q ↔ p.Spans text q := by
  induction text generalizing p with
  | nil =>
    constructor
    · intro h
      cases h
      exact .nil
    · intro h
      cases h
      rfl
  | cons ch text ih =>
    rw [afterLiteral?]
    constructor
    · intro h
      split at h
      · rename_i found r hn
        split at h
        · rename_i hf
          subst hf
          exact .cons hn (ih.1 h)
        · cases h
      · cases h
    · intro h
      cases h with
      | cons hn h =>
        rw [hn]
        simpa using ih.2 h

theorem afterChar?_eq_some_iff {test : Char → Bool} {p q : Place} :
    afterChar? test p = some q ↔ ∃ ch, test ch = true ∧ p.next? = some (ch, q) := by
  unfold afterChar?
  cases p.next? with
  | none => simp
  | some r =>
    obtain ⟨found, q'⟩ := r
    by_cases h : test found = true
    · simp only [h, if_true, Option.some.injEq, Prod.mk.injEq]
      constructor
      · rintro rfl
        exact ⟨found, h, rfl, rfl⟩
      · rintro ⟨ch, -, -, rfl⟩
        rfl
    · dsimp only
      rw [if_neg h]
      constructor
      · intro e
        cases e
      · rintro ⟨ch, hch, e⟩
        cases e
        exact absurd hch h

theorem mem_ends_literal {text : List Char} {p q : Place} :
    q ∈ (literal text).ends p ↔ p.Spans text q := by
  rw [ends, Option.mem_toList, afterLiteral?_eq_some_iff]

theorem mem_ends_blank {p q : Place} :
    q ∈ blank.ends p ↔ ∃ ch, CharClass.isBlank ch = true ∧ p.next? = some (ch, q) := by
  rw [ends, Option.mem_toList, afterChar?_eq_some_iff]

theorem mem_ends_noneOf {excluded : List Char} {p q : Place} :
    q ∈ (noneOf excluded).ends p ↔ ∃ ch, ch ∉ excluded ∧ p.next? = some (ch, q) := by
  rw [ends, Option.mem_toList, afterChar?_eq_some_iff]
  simp

theorem Repeats.spans {step : Place → List Place} {p q : Place} (h : Repeats step p q)
    (hstep : ∀ p q, q ∈ step p → ∃ text, p.Spans text q) : ∃ text, p.Spans text q := by
  induction h with
  | refl => exact ⟨[], .nil⟩
  | cons hq _ _ ih =>
    obtain ⟨a, ha⟩ := hstep _ _ hq
    obtain ⟨b, hb⟩ := ih
    exact ⟨a ++ b, ha.trans hb⟩

theorem spans_of_mem_ends {pattern : Pattern} {p q : Place} (h : q ∈ pattern.ends p) :
    ∃ text, p.Spans text q := by
  induction pattern generalizing p q with
  | literal text => exact ⟨text, mem_ends_literal.1 h⟩
  | blank =>
    obtain ⟨ch, -, hn⟩ := mem_ends_blank.1 h
    exact ⟨[ch], .single hn⟩
  | boundary =>
    rw [ends] at h
    split at h
    · rw [List.mem_singleton.1 h]
      exact ⟨[], .nil⟩
    · cases h
  | noneOf excluded =>
    obtain ⟨ch, -, hn⟩ := mem_ends_noneOf.1 h
    exact ⟨[ch], .single hn⟩
  | seq a b iha ihb =>
    obtain ⟨r, hr, hq⟩ := List.mem_flatMap.1 h
    obtain ⟨s, hs⟩ := iha hr
    obtain ⟨t, ht⟩ := ihb hq
    exact ⟨s ++ t, hs.trans ht⟩
  | either a b iha ihb =>
    rcases List.mem_append.1 h with h | h
    · exact iha h
    · exact ihb h
  | group a ih => exact ih h
  | optional a ih =>
    rcases List.mem_append.1 h with h | h
    · exact ih h
    · rw [List.mem_singleton.1 h]
      exact ⟨[], .nil⟩
  | many a ih => exact (mem_greedyEnds.1 h).spans fun _ _ => ih
  | few a ih => exact (mem_lazyEnds.1 h).spans fun _ _ => ih

end Pattern
end LambdaTally
