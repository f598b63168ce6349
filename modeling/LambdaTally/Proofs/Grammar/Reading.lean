import LambdaTally.Grammar
import LambdaTally.Proofs.Grammar.Spelling

/-!
# LambdaTally.Proofs.Grammar.Reading

The pattern of a lambda expression reads the language of its tokens. A pattern `Reads` a language if
between a place and each of its ends there is a run of a phrase, and every spelling of a phrase ends
at one of them; each way of putting patterns together reads the phrases put together the same way.
For the whole pattern the two meet where no two blanks stand side by side
(`mem_ends_lambda_iff`).
-/

namespace LambdaTally

open CharClass
open scoped Computability

namespace Pattern

variable {p q : Place}

/-! ## Languages of characters -/

/-- The ends of a pattern are the places behind the texts of a language. -/
def Matches (pattern : Pattern) (l : Language Char) : Prop :=
  ∀ p q, q ∈ pattern.ends p ↔ ∃ text ∈ l, p.Spans text q

theorem matches_literal (text : List Char) : (literal text).Matches (Phrase.exactly text) := by
  intro p q
  rw [mem_ends_literal]
  constructor
  · intro h
    exact ⟨text, rfl, h⟩
  · rintro ⟨_, rfl, h⟩
    exact h

theorem matches_noneOf (excluded : List Char) :
    (noneOf excluded).Matches (Phrase.noneOf excluded) := by
  intro p q
  rw [mem_ends_noneOf]
  constructor
  · rintro ⟨ch, allowed, hn⟩
    exact ⟨[ch], ⟨ch, allowed, rfl⟩, .single hn⟩
  · rintro ⟨_, ⟨ch, allowed, rfl⟩, hs⟩
    cases hs with
    | cons hn rest =>
      cases rest
      exact ⟨ch, allowed, hn⟩

section Composed

variable {a b : Pattern} {l m : Language Char}

theorem Matches.seq (ha : a.Matches l) (hb : b.Matches m) : (seq a b).Matches (l * m) := by
  intro p q
  rw [ends, List.mem_flatMap]
  constructor
  · rintro ⟨r, hr, hq⟩
    obtain ⟨x, hx, hpr⟩ := (ha p r).1 hr
    obtain ⟨y, hy, hrq⟩ := (hb r q).1 hq
    exact ⟨x ++ y, Language.append_mem_mul hx hy, hpr.trans hrq⟩
  · rintro ⟨_, ⟨x, hx, y, hy, rfl⟩, h⟩
    obtain ⟨r, hpr, hrq⟩ := h.split
    exact ⟨r, (ha p r).2 ⟨x, hx, hpr⟩, (hb r q).2 ⟨y, hy, hrq⟩⟩

theorem Matches.either (ha : a.Matches l) (hb : b.Matches m) : (either a b).Matches (l + m) := by
  intro p q
  rw [ends, List.mem_append, ha, hb]
  constructor
  · rintro (⟨x, hx, h⟩ | ⟨x, hx, h⟩)
    · exact ⟨x, .inl hx, h⟩
    · exact ⟨x, .inr hx, h⟩
  · rintro ⟨x, hx | hx, h⟩
    · exact .inl ⟨x, hx, h⟩
    · exact .inr ⟨x, hx, h⟩

theorem Matches.group (ha : a.Matches l) : (group a).Matches l := ha

/-- A repeated step reaches the places behind repeated texts; one that is empty changes nothing. -/
theorem Matches.repeats_iff (ha : a.Matches l) :
    Repeats a.ends p q ↔ ∃ text ∈ l∗, p.Spans text q := by
  constructor
  · intro h
    induction h with
    | refl p => exact ⟨[], Language.nil_mem_kstar l, .nil⟩
    | cons hr _ _ ih =>
      obtain ⟨x, hx, hpr⟩ := (ha _ _).1 hr
      obtain ⟨y, ⟨parts, rfl, each⟩, hrq⟩ := ih
      exact ⟨_, ⟨x :: parts, rfl, List.forall_mem_cons.2 ⟨hx, each⟩⟩, hpr.trans hrq⟩
  · rintro ⟨_, ⟨parts, rfl, each⟩, h⟩
    induction parts generalizing p with
    | nil =>
      cases h
      exact .refl _
    | cons x parts ih =>
      obtain ⟨hx, later⟩ := List.forall_mem_cons.1 each
      obtain ⟨r, hpr, hrq⟩ := h.split
      cases x with
      | nil =>
        cases hpr
        exact ih later hrq
      | cons ch x =>
        refine .cons ((ha p r).2 ⟨_, hx, hpr⟩) ?_ (ih later hrq)
        rw [hpr.length_rest, List.length_cons]
        omega

theorem Matches.many (ha : a.Matches l) : (many a).Matches l∗ := by
  intro p q
  rw [ends, mem_greedyEnds]
  exact ha.repeats_iff

theorem Matches.few (ha : a.Matches l) : (few a).Matches l∗ := by
  intro p q
  rw [ends, mem_lazyEnds]
  exact ha.repeats_iff

end Composed

/-! ## Languages of tokens -/

/-- The ends of a pattern and the phrases of a language: a run of a phrase leads to each end, and
each spelling of one leads to an end. -/
structure Reads (pattern : Pattern) (l : Language Token) : Prop where
  sound : ∀ {p q}, q ∈ pattern.ends p → ∃ ts ∈ l, p.Runs ts q
  complete : ∀ {p q ts}, ts ∈ l → p.Spells ts q → q ∈ pattern.ends p

/-- A pattern of texts reads the tokens that have these texts. -/
theorem Matches.reads {a : Pattern} {l : Language Char} (ha : a.Matches l)
    {sort : List Char → Token} (ht : ∀ text, (sort text).text = text)
    (hk : ∀ text, (sort text).isKeyword = false) : a.Reads (Phrase.oneOf sort l) := by
  constructor
  · intro p q h
    obtain ⟨text, hl, hs⟩ := (ha p q).1 h
    refine ⟨[sort text], ⟨text, hl, rfl⟩, .single ⟨by rwa [ht], ?_⟩⟩
    intro k
    rw [hk] at k
    cases k
  · rintro p q _ ⟨text, hl, rfl⟩ h
    have hs := (Place.spells_singleton_iff.1 h).spans
    rw [ht] at hs
    exact (ha p q).2 ⟨text, hl, hs⟩

/-- A literal reads the token that it spells. -/
theorem reads_token {t : Token} (hk : t.isKeyword = false) :
    (literal t.text).Reads (Phrase.token t) := by
  constructor
  · intro p q h
    refine ⟨[t], rfl, .single ⟨mem_ends_literal.1 h, ?_⟩⟩
    intro k
    rw [hk] at k
    cases k
  · rintro p q _ rfl h
    exact mem_ends_literal.2 (Place.spells_singleton_iff.1 h).spans

end Pattern

namespace Grammar

open Pattern

variable {p q : Place} {a b : Pattern} {l m : Language Token}

theorem mem_ends_gap : q ∈ gap.ends p ↔ p.Gap q := by
  rw [gap, ends, List.mem_append, mem_ends_blank, List.mem_singleton]
  constructor
  · rintro (⟨ch, hb, hn⟩ | rfl)
    · exact .blank hb hn
    · exact .none
  · intro h
    cases h with
    | none => exact .inr rfl
    | blank hb hn => exact .inl ⟨_, hb, hn⟩

theorem mem_ends_join : q ∈ (join a b).ends p ↔ ∃ r ∈ a.ends p, ∃ s, r.Gap s ∧ q ∈ b.ends s := by
  rw [join, ends, List.mem_flatMap]
  constructor
  · rintro ⟨r, hr, hq⟩
    obtain ⟨s, hs, hq⟩ := List.mem_flatMap.1 hq
    exact ⟨r, hr, s, mem_ends_gap.1 hs, hq⟩
  · rintro ⟨r, hr, s, hs, hq⟩
    exact ⟨r, hr, List.mem_flatMap.2 ⟨s, mem_ends_gap.2 hs, hq⟩⟩

theorem mem_ends_keyword {word : String} :
    q ∈ (keyword word).ends p ↔ p.Shows (.keyword word) q := by
  have border (r s : Place) : s ∈ boundary.ends r ↔ r.atBoundary = true ∧ s = r := by
    rw [ends]
    split
    · rename_i h
      simp [h]
    · rename_i h
      simp [h]
  rw [keyword, ends, List.mem_flatMap]
  constructor
  · rintro ⟨r, hr, hq⟩
    obtain ⟨left, rfl⟩ := (border p r).1 hr
    obtain ⟨s, hs, hq⟩ := List.mem_flatMap.1 hq
    obtain ⟨right, rfl⟩ := (border s q).1 hq
    exact ⟨mem_ends_literal.1 hs, fun _ => ⟨left, right⟩⟩
  · intro h
    obtain ⟨left, right⟩ := h.alone rfl
    refine ⟨p, (border p p).2 ⟨left, rfl⟩, List.mem_flatMap.2 ⟨q, ?_, (border q q).2 ⟨right, rfl⟩⟩⟩
    exact mem_ends_literal.2 h.spans

theorem reads_keyword (word : String) : (keyword word).Reads (Phrase.token (.keyword word)) := by
  constructor
  · intro p q h
    exact ⟨[.keyword word], rfl, .single (mem_ends_keyword.1 h)⟩
  · rintro p q _ rfl h
    exact mem_ends_keyword.2 (Place.spells_singleton_iff.1 h)

theorem reads_group (ha : a.Reads l) : (group a).Reads l := ⟨ha.sound, ha.complete⟩

theorem reads_join (ha : a.Reads l) (hb : b.Reads m) : (join a b).Reads (l * m) := by
  constructor
  · intro p q h
    obtain ⟨r, hr, s, hs, hq⟩ := mem_ends_join.1 h
    obtain ⟨x, hx, hpr⟩ := ha.sound hr
    obtain ⟨y, hy, hsq⟩ := hb.sound hq
    exact ⟨x ++ y, Language.append_mem_mul hx hy, hpr.trans (hs.runs.trans hsq)⟩
  · rintro p q _ ⟨x, hx, y, hy, rfl⟩ h
    obtain ⟨r, s, hpr, hs, hsq⟩ := h.split
    exact mem_ends_join.2 ⟨r, ha.complete hx hpr, s, hs, hb.complete hy hsq⟩

theorem reads_maybe (ha : a.Reads l) : (maybe a).Reads (Phrase.maybe l) := by
  constructor
  · intro p q h
    rcases List.mem_append.1 h with h | h
    · obtain ⟨x, hx, hpq⟩ := ha.sound h
      exact ⟨x, .inl hx, hpq⟩
    · rw [List.mem_singleton.1 h]
      exact ⟨[], .inr rfl, .nil⟩
  · rintro p q x (hx | rfl) h
    · exact List.mem_append_left _ (ha.complete hx h)
    · obtain rfl := Place.spells_nil_iff.1 h
      exact List.mem_append_right _ List.mem_cons_self

theorem reads_oneOf (ha : a.Reads l) (hb : b.Reads m) : (oneOf a b).Reads (l + m) := by
  constructor
  · intro p q h
    rcases List.mem_append.1 h with h | h
    · obtain ⟨x, hx, hpq⟩ := ha.sound h
      exact ⟨x, .inl hx, hpq⟩
    · obtain ⟨x, hx, hpq⟩ := hb.sound h
      exact ⟨x, .inr hx, hpq⟩
  · rintro p q x (hx | hx) h
    · exact List.mem_append_left _ (ha.complete hx h)
    · exact List.mem_append_right _ (hb.complete hx h)

/-- Phrases one after the other, each with a gap behind it. -/
theorem reads_listed (ha : a.Reads l) : (many (group (seq (group a) gap))).Reads l∗ := by
  have step {p q : Place} : q ∈ (group (seq (group a) gap)).ends p ↔
      ∃ r ∈ a.ends p, r.Gap q := by
    simp only [ends, List.mem_flatMap]
    constructor
    · rintro ⟨r, hr, hq⟩
      exact ⟨r, hr, mem_ends_gap.1 hq⟩
    · rintro ⟨r, hr, hq⟩
      exact ⟨r, hr, mem_ends_gap.2 hq⟩
  constructor
  · intro p q h
    rw [ends, mem_greedyEnds] at h
    induction h with
    | refl p => exact ⟨[], Language.nil_mem_kstar l, .nil⟩
    | cons hr _ _ ih =>
      obtain ⟨s, hs, hg⟩ := step.1 hr
      obtain ⟨x, hx, hps⟩ := ha.sound hs
      obtain ⟨_, ⟨phrases, rfl, each⟩, hrq⟩ := ih
      exact ⟨_, ⟨x :: phrases, rfl, List.forall_mem_cons.2 ⟨hx, each⟩⟩,
        hps.trans (hg.runs.trans hrq)⟩
  · rintro p q _ ⟨phrases, rfl, each⟩ h
    rw [ends, mem_greedyEnds]
    induction phrases generalizing p with
    | nil =>
      obtain rfl := Place.spells_nil_iff.1 h
      exact .refl p
    | cons x phrases ih =>
      obtain ⟨hx, later⟩ := List.forall_mem_cons.1 each
      obtain ⟨r, s, hpr, hg, hsq⟩ := Place.Spells.split h
      obtain ⟨text, ht⟩ := hpr.spans
      obtain ⟨blanks, hb, -⟩ := hg.spans
      have here := ht.trans hb
      -- a phrase and a gap that take no text lead nowhere else
      by_cases empty : text ++ blanks = []
      · rw [empty] at here
        cases here
        exact ih later hsq
      · refine .cons (step.2 ⟨r, ha.complete hx hpr, hg⟩) ?_ (ih later hsq)
        have := List.length_pos_iff.2 empty
        rw [here.length_rest]
        omega

/-! ## The rules of the grammar -/

theorem reads_introducer : introducer.Reads Phrase.introducer :=
  reads_token (t := .group .square) rfl

theorem reads_body : body.Reads Phrase.body := reads_token (t := .group .brace) rfl

theorem reads_parameters : parameters.Reads Phrase.parameters :=
  reads_token (t := .group .paren) rfl

theorem matches_templateList : templateList.Matches Phrase.templateText := by
  have plain := matches_noneOf ['<', '>', ';']
  have opening := matches_literal ['<']
  have closing := matches_literal ['>']
  have nested := opening.seq (plain.many.seq closing)
  have whole := opening.seq ((plain.either nested).group.many.seq closing)
  rw [← mul_assoc, ← mul_assoc] at whole
  exact whole

theorem reads_templateList : templateList.Reads Phrase.templateList :=
  matches_templateList.reads (fun _ => rfl) fun _ => rfl

theorem reads_specifier : specifier.Reads Phrase.specifier :=
  reads_oneOf (reads_keyword _) (reads_keyword _)

theorem reads_specifiers : specifiers.Reads Phrase.specifiers :=
  reads_join (reads_group reads_specifier) (reads_maybe reads_specifier)

theorem reads_exceptionSpecifier : exceptionSpecifier.Reads Phrase.exceptionSpecifier :=
  reads_oneOf (reads_join (reads_keyword _) (reads_maybe reads_parameters))
    (reads_join (reads_keyword _) reads_parameters)

theorem reads_attributeSpecifier : attributeSpecifier.Reads Phrase.attributeSpecifier :=
  reads_oneOf reads_introducer (reads_join (reads_keyword _) reads_parameters)

theorem reads_trailingReturn : trailingReturn.Reads Phrase.trailingReturn :=
  reads_join (reads_token (t := .arrow) rfl)
    ((matches_noneOf [';']).few.reads (fun _ => rfl) fun _ => rfl)

theorem reads_tail : tail.Reads Phrase.tail := by
  rw [Phrase.tail, mul_assoc]
  exact reads_join (reads_maybe reads_exceptionSpecifier)
    (reads_join (reads_listed reads_attributeSpecifier) (reads_maybe reads_trailingReturn))

theorem reads_declarator : declarator.Reads Phrase.declarator := by
  rw [Phrase.declarator, mul_assoc]
  exact reads_oneOf (reads_join reads_parameters (reads_join (reads_maybe reads_specifiers) reads_tail))
    reads_tail

theorem reads_lambda : lambda.Reads Phrase.lambda := by
  rw [Phrase.lambda, mul_assoc, mul_assoc]
  exact reads_join reads_introducer (reads_join (reads_maybe reads_templateList)
    (reads_join (reads_maybe reads_declarator) reads_body))

/-- A match begins with the introducer and ends with the body. -/
theorem exists_introducer (h : q ∈ lambda.ends p) :
    ∃ r text, p.Spans ['[', ']'] r ∧ r.Spans text q ∧ q.previous = some '\x7d' := by
  obtain ⟨r, hr, s, hg, h⟩ := mem_ends_join.1 h
  obtain ⟨blanks, hb, -⟩ := hg.spans
  obtain ⟨text, ht⟩ := spans_of_mem_ends h
  obtain ⟨_, -, _, -, h⟩ := mem_ends_join.1 h
  obtain ⟨_, -, u, -, h⟩ := mem_ends_join.1 h
  have closed : u.Spans ['\x7b', '\x7d'] q := mem_ends_literal.1 h
  exact ⟨r, blanks ++ text, mem_ends_literal.1 hr, hb.trans ht, closed.previous_eq⟩

/-- Where no two blanks stand side by side, the ends of the pattern are those of the spellings. -/
theorem mem_ends_lambda_iff (spaced : Spaced p.rest) :
    q ∈ lambda.ends p ↔ ∃ ts ∈ Phrase.lambda, p.Spells ts q := by
  constructor
  · intro h
    obtain ⟨ts, hts, run⟩ := reads_lambda.sound h
    obtain ⟨middle, hmiddle⟩ := Phrase.exists_of_mem_lambda hts
    obtain ⟨r, text, introduced, -, closed⟩ := exists_introducer h
    have behind : ∀ ch, q.previous = some ch → isBlank ch = false := by
      rw [closed]
      rintro ch ⟨⟩
      decide
    obtain ⟨u, hg, spelled⟩ := run.spells spaced (by simp [hmiddle]) behind
    cases hg with
    | none => exact ⟨ts, hts, spelled⟩
    | @blank _ ch hb hn =>
      obtain ⟨rest, hrest, -⟩ := Place.next?_eq_some_iff.1 hn
      rw [introduced.rest_eq] at hrest
      cases hrest
      have plain : isBlank '[' = false := by decide
      rw [plain] at hb
      cases hb
  · rintro ⟨ts, hts, spelled⟩
    exact reads_lambda.complete hts spelled

end Grammar

/-- A place with an end has a preferred one that takes text. -/
theorem exists_firstEnd? {p q : Place} (h : q ∈ Grammar.lambda.ends p) :
    ∃ r, Grammar.lambda.firstEnd? p = some r := by
  cases ends : Grammar.lambda.ends p with
  | nil =>
    rw [ends] at h
    cases h
  | cons r others =>
    have hr : r ∈ Grammar.lambda.ends p := by
      rw [ends]
      exact List.mem_cons_self
    obtain ⟨s, text, introduced, ht, -⟩ := Grammar.exists_introducer hr
    have whole := (introduced.trans ht).length_rest
    refine ⟨r, Option.filter_eq_some_iff.2 ⟨by rw [ends]; rfl, ?_⟩⟩
    simp only [List.length_append, List.length_cons, List.length_nil] at whole
    simp only [decide_eq_true_eq]
    omega

end LambdaTally
