import LambdaTally.Proofs.Grammar.Phrase
import LambdaTally.Proofs.Structural.Spacing

/-!
# LambdaTally.Proofs.Grammar.Spelling

How spellings come apart and go together. `p.Runs ts q` is the looser relation that a pattern meets
on its way: the tokens stand in order, with blanks anywhere. Where no two blanks stand side by side a
run that ends in a token is a spelling (`Runs.spells`). A phrase that begins and ends with a group
is spelled or not whatever stands around it (`sentence_iff`).
-/

namespace LambdaTally

open CharClass

namespace Place

variable {p q r : Place} {ts : List Token}

theorem Gap.spans (h : p.Gap q) : ∃ blanks, p.Spans blanks q ∧ ∀ ch ∈ blanks, isBlank ch = true := by
  cases h with
  | none => exact ⟨[], .nil, by simp⟩
  | @blank _ ch hb hn => exact ⟨[ch], .single hn, by simpa using hb⟩

/-! ## Spellings -/

theorem spells_nil_iff : p.Spells [] q ↔ p = q := by
  constructor
  · intro h
    cases h
    rfl
  · rintro rfl
    exact .nil

theorem spells_cons_iff {t : Token} :
    p.Spells (t :: ts) q ↔
      ∃ r, p.Shows t r ∧ ((ts = [] ∧ r = q) ∨ (ts ≠ [] ∧ ∃ s, r.Gap s ∧ s.Spells ts q)) := by
  constructor
  · intro h
    cases h with
    | last ht => exact ⟨q, ht, .inl ⟨rfl, rfl⟩⟩
    | cons ht hg hr => exact ⟨_, ht, .inr ⟨by simp, _, hg, hr⟩⟩
  · rintro ⟨r, ht, ⟨rfl, rfl⟩ | ⟨nonempty, s, hg, hr⟩⟩
    · exact .last ht
    · obtain ⟨u, us, rfl⟩ := List.exists_cons_of_ne_nil nonempty
      exact .cons ht hg hr

theorem spells_singleton_iff {t : Token} : p.Spells [t] q ↔ p.Shows t q := by
  constructor
  · intro h
    cases h with
    | last ht => exact ht
  · exact .last

theorem Spells.spans (h : p.Spells ts q) : ∃ text, p.Spans text q := by
  induction h with
  | nil => exact ⟨[], .nil⟩
  | last ht => exact ⟨_, ht.spans⟩
  | cons ht hg _ ih =>
    obtain ⟨blanks, hb, -⟩ := hg.spans
    obtain ⟨text, hs⟩ := ih
    exact ⟨_, ht.spans.trans (hb.trans hs)⟩

/-- A spelling of two phrases is one of the first and one of the second, at most a blank apart. -/
theorem Spells.split {a b : List Token} (h : p.Spells (a ++ b) q) :
    ∃ r s, p.Spells a r ∧ r.Gap s ∧ s.Spells b q := by
  induction a generalizing p with
  | nil => exact ⟨p, p, .nil, .none, h⟩
  | cons t a ih =>
    obtain ⟨r, ht, ⟨he, rfl⟩ | ⟨-, s, hg, hr⟩⟩ := spells_cons_iff.1 h
    · obtain ⟨rfl, rfl⟩ := List.append_eq_nil_iff.1 he
      exact ⟨r, r, .last ht, .none, .nil⟩
    · cases a with
      | nil => exact ⟨r, s, .last ht, hg, hr⟩
      | cons u a =>
        obtain ⟨x, y, ha, hxy, hb⟩ := ih hr
        exact ⟨x, y, .cons ht hg ha, hxy, hb⟩

/-! ## Runs -/

/-- The tokens stand between two places in order, with blanks anywhere. -/
inductive Runs : Place → List Token → Place → Prop
  | nil {p : Place} : Runs p [] p
  | blank {p q r : Place} {ch : Char} {ts : List Token} : isBlank ch = true →
      p.next? = some (ch, q) → Runs q ts r → Runs p ts r
  | token {p q r : Place} {t : Token} {ts : List Token} :
      p.Shows t q → Runs q ts r → Runs p (t :: ts) r

theorem Runs.trans {us : List Token} (h : p.Runs ts q) (k : q.Runs us r) : p.Runs (ts ++ us) r := by
  induction h with
  | nil => exact k
  | blank hb hn _ ih => exact .blank hb hn (ih k)
  | token ht _ ih => exact .token ht (ih k)

theorem Gap.runs (h : p.Gap q) : p.Runs [] q := by
  cases h with
  | none => exact .nil
  | blank hb hn => exact .blank hb hn .nil

theorem Runs.single {t : Token} (h : p.Shows t q) : p.Runs [t] q := .token h .nil

/-- A run without tokens stays where it is, or ends behind a blank. -/
theorem Runs.of_nil (h : p.Runs [] q) :
    p = q ∨ ∃ ch, q.previous = some ch ∧ isBlank ch = true := by
  generalize hts : ([] : List Token) = ts at h
  induction h with
  | nil => exact .inl rfl
  | @blank p q r ch ts hb hn hr ih =>
    obtain rfl | behind := ih hts
    · obtain ⟨rest, -, rfl⟩ := next?_eq_some_iff.1 hn
      exact .inr ⟨ch, rfl, hb⟩
    · exact .inr behind
  | token => cases hts

/-- Where blanks stand alone, a run that does not end behind one is a spelling. -/
theorem Runs.spells (h : p.Runs ts q) (spaced : Spaced p.rest) (nonempty : ts ≠ [])
    (behind : ∀ ch, q.previous = some ch → isBlank ch = false) :
    ∃ r, p.Gap r ∧ r.Spells ts q := by
  induction h with
  | nil => exact absurd rfl nonempty
  | @blank p s q ch ts hb hn _ ih =>
    obtain ⟨rest, hrest, hs⟩ := next?_eq_some_iff.1 hn
    rw [hrest] at spaced
    have after : s.rest = rest := by rw [hs]
    rw [after] at ih
    obtain ⟨r, hg, hr⟩ := ih spaced.tail nonempty behind
    cases hg with
    | none => exact ⟨s, .blank hb hn, hr⟩
    | blank hb' hn' =>
      obtain ⟨rest', hrest', -⟩ := next?_eq_some_iff.1 hn'
      rw [after] at hrest'
      have plain := spaced.head?_tail hb (by rw [hrest']; rfl)
      rw [plain] at hb'
      cases hb'
  | @token p s q t ts ht hr ih =>
    refine ⟨p, .none, spells_cons_iff.2 ⟨s, ht, ?_⟩⟩
    by_cases hts : ts = []
    · subst hts
      refine .inl ⟨rfl, ?_⟩
      obtain same | ⟨ch, hch, hb⟩ := hr.of_nil
      · exact same
      · rw [behind ch hch] at hb
        cases hb
    · have later : Spaced s.rest := spaced.suffix ⟨t.text, ht.spans.rest_eq.symm⟩
      exact .inr ⟨hts, ih later hts behind⟩

/-! ## The text around a phrase -/

theorem atBoundary_congr (before : p.previous = q.previous) (behind : p.rest.head? = q.rest.head?) :
    p.atBoundary = q.atBoundary := by
  unfold atBoundary
  rw [before, behind]

variable {p' q' r' : Place} {text : List Char}

theorem Gap.move (h : p.Gap q) (hs : p.Spans text q) (hs' : p'.Spans text q') : p'.Gap q' := by
  cases h with
  | none =>
    obtain rfl := hs.text_unique .nil
    cases hs'
    exact .none
  | blank hb hn =>
    obtain rfl := hs.text_unique (.single hn)
    cases hs' with
    | cons hn' rest =>
      cases rest
      exact .blank hb hn'

theorem Spells.text_ne_nil {kind : Bracket} (h : p.Spells (ts ++ [.group kind]) q)
    (hs : p.Spans text q) : text ≠ [] := by
  obtain ⟨x, y, hx, hg, hy⟩ := h.split
  obtain ⟨a, ha⟩ := hx.spans
  obtain ⟨b, hb, -⟩ := hg.spans
  have parts := hs.text_unique (ha.trans (hb.trans (spells_singleton_iff.1 hy).spans))
  rintro rfl
  simp [Token.text, Bracket.placeholder] at parts

/-- By induction on the phrase. The neighbours of each token are the same in both texts, because
some of the phrase stands behind it. -/
theorem Spells.move {kind : Bracket} (h : p.Spells (ts ++ [.group kind]) q) (hs : p.Spans text q)
    (hs' : p'.Spans text q') (same : p.previous = p'.previous) :
    p'.Spells (ts ++ [.group kind]) q' := by
  induction ts generalizing p p' text with
  | nil =>
    rw [hs.text_unique (spells_singleton_iff.1 h).spans] at hs'
    exact .last ⟨hs', by simp [Token.isKeyword]⟩
  | cons t ts ih =>
    obtain ⟨r, ht, ⟨no, -⟩ | ⟨-, s, hg, hr⟩⟩ := spells_cons_iff.1 h
    · simp at no
    obtain ⟨blanks, hb, -⟩ := hg.spans
    obtain ⟨more, hm⟩ := hr.spans
    obtain rfl := hs.text_unique (ht.spans.trans (hb.trans hm))
    obtain ⟨r', ht', rest'⟩ := hs'.split
    obtain ⟨s', hb', hm'⟩ := rest'.split
    have same_r : r.previous = r'.previous := by
      rw [ht.spans.previous_eq, ht'.previous_eq, same]
    have same_s : s.previous = s'.previous := by
      rw [hb.previous_eq, hb'.previous_eq, same_r]
    refine spells_cons_iff.2 ⟨r', ⟨ht', ?_⟩, .inr ⟨by simp, s', hg.move hb hb', ih hr hm hm' same_s⟩⟩
    intro keyword
    obtain ⟨left, right⟩ := ht.alone keyword
    obtain ⟨ch, later, hmore⟩ := List.exists_cons_of_ne_nil (hr.text_ne_nil hm)
    refine ⟨?_, ?_⟩
    · rw [← left]
      refine atBoundary_congr same.symm ?_
      rw [hs.rest_eq, hs'.rest_eq, hmore]
      simp
    · rw [← right]
      refine atBoundary_congr same_r.symm ?_
      rw [rest'.rest_eq, (hb.trans hm).rest_eq, hmore]
      simp

end Place

namespace Phrase

/-- A lambda expression begins with a square group and ends with a brace group. -/
theorem exists_of_mem_lambda {ts : List Token} (h : ts ∈ lambda) :
    ∃ middle, ts = .group .square :: (middle ++ [.group .brace]) := by
  obtain ⟨abc, ⟨ab, ⟨a, rfl, b, -, rfl⟩, c, -, rfl⟩, d, rfl, rfl⟩ := h
  exact ⟨b ++ c, by simp⟩

theorem spells_move {p q p' q' : Place} {text : List Char} {ts : List Token} (h : ts ∈ lambda)
    (spelled : p.Spells ts q) (hs : p.Spans text q) (hs' : p'.Spans text q') : p'.Spells ts q' := by
  obtain ⟨middle, rfl⟩ := exists_of_mem_lambda h
  obtain ⟨r, ht, ⟨no, -⟩ | ⟨-, s, hg, hr⟩⟩ := Place.spells_cons_iff.1 spelled
  · simp at no
  obtain ⟨blanks, hb, -⟩ := hg.spans
  obtain ⟨more, hm⟩ := hr.spans
  obtain rfl := hs.text_unique (ht.spans.trans (hb.trans hm))
  obtain ⟨r', ht', rest'⟩ := hs'.split
  obtain ⟨s', hb', hm'⟩ := rest'.split
  have same : s.previous = s'.previous := by
    rw [hb.previous_eq, hb'.previous_eq, ht.spans.previous_eq, ht'.previous_eq]
    rfl
  exact Place.spells_cons_iff.2
    ⟨r', ⟨ht', by simp [Token.isKeyword]⟩, .inr ⟨by simp, s', hg.move hb hb', hr.move hm hm' same⟩⟩

end Phrase

/-- A text is a sentence wherever it stands. -/
theorem sentence_iff {p q : Place} {text : List Char} (hs : p.Spans text q) :
    Sentence text ↔ ∃ ts ∈ Phrase.lambda, p.Spells ts q := by
  constructor
  · rintro ⟨ts, hts, r, spelled, at_end⟩
    obtain ⟨text', ht⟩ := spelled.spans
    have whole : text = text' := by
      have := ht.rest_eq
      rwa [at_end, List.append_nil] at this
    rw [← whole] at ht
    exact ⟨ts, hts, Phrase.spells_move hts spelled ht hs⟩
  · rintro ⟨ts, hts, spelled⟩
    obtain ⟨r, hr, at_end⟩ := Place.exists_end text
    exact ⟨ts, hts, r, Phrase.spells_move hts spelled hs hr, at_end⟩

end LambdaTally
