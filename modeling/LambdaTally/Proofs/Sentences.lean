import LambdaTally.Proofs.Grammar.Ending
import LambdaTally.Proofs.Nesting.Spacing
import LambdaTally.Proofs.Pattern.Matches

/-!
# LambdaTally.Proofs.Sentences

The lambdas of a leaf are the leftmost sentences of the token grammar that do not overlap, each the
shortest that starts where it does. The main result is `lambdas_sentences`.
-/

namespace LambdaTally

open Utf8
open scoped List

/-- A structural text whose blanks stand alone: reduced from a source, or taken as it stands. -/
inductive Structural.Normal : Structural → Prop where
  | source (source : List Char) : Normal (.ofSource source)
  | text {text : List Char} : Spaced text → Normal (.ofText text)

theorem Structural.Normal.spaced {s : Structural} (h : s.Normal) : Spaced s.text := by
  cases h with
  | source source => exact spaced_ofSource source
  | text h => exact h

/-! ## Sentences hold no semicolon -/

namespace Phrase

/-- The text of a token without a semicolon. -/
def Joined (t : Token) : Prop := ';' ∉ t.text

instance : DecidablePred Joined := fun t => inferInstanceAs (Decidable (';' ∉ t.text))

theorem not_mem_templateText {text : List Char} (h : text ∈ templateText) : ';' ∉ text := by
  obtain ⟨_, ⟨_, rfl, _, ⟨items, rfl, each⟩, rfl⟩, _, rfl, rfl⟩ := h
  have inside : ∀ item ∈ items, ';' ∉ item := by
    intro item hitem
    rcases each item hitem with ⟨ch, plain, rfl⟩ | ⟨_, ⟨_, rfl, inner, hinner, rfl⟩, _, rfl, rfl⟩
    · rintro h
      rw [← List.mem_singleton.1 h] at plain
      exact plain (by simp)
    · have plain : ';' ∉ inner := fun h => mem_kstar_noneOf.1 hinner ';' h (by simp)
      simpa using plain
  intro h
  have within : ';' ∈ items.flatten := by simpa using h
  obtain ⟨item, hitem, h⟩ := List.mem_flatten.1 within
  exact inside item hitem h

theorem joined_of_solid : allOf Token.Solid ≤ allOf Joined := by
  intro ts solid t ht
  cases solid t ht with
  | square => decide
  | paren => decide
  | keyword hw =>
    have plain : ∀ word ∈ keywords, ';' ∉ word.toList := by decide
    exact plain _ hw
  | templates hx => exact not_mem_templateText hx

theorem joined_lambda : lambda ≤ allOf Joined := by
  intro ts lambda t ht
  obtain ⟨stem, solid, rfl | ⟨text, plain, rfl⟩⟩ := exists_stem_of_mem_lambda lambda
  · rcases List.mem_append.1 ht with ht | ht
    · exact joined_of_solid solid t ht
    · rw [List.mem_singleton.1 ht]
      decide
  · rcases List.mem_append.1 ht with ht | ht
    · exact joined_of_solid solid t ht
    · simp only [List.mem_cons, List.not_mem_nil, or_false] at ht
      rcases ht with rfl | rfl | rfl
      · decide
      · exact plain
      · decide

end Phrase

theorem Place.Spells.not_mem_semicolon {p q : Place} {ts : List Token} (h : p.Spells ts q)
    (joined : ∀ t ∈ ts, Phrase.Joined t) {text : List Char} (hs : p.Spans text q) : ';' ∉ text := by
  induction h generalizing text with
  | nil =>
    rw [hs.text_unique .nil]
    exact List.not_mem_nil
  | last ht =>
    rw [hs.text_unique ht.spans]
    exact joined _ List.mem_cons_self
  | cons ht hg hr ih =>
    obtain ⟨here, later⟩ := List.forall_mem_cons.1 joined
    obtain ⟨blanks, hb, blank⟩ := hg.spans
    obtain ⟨more, hm⟩ := hr.spans
    rw [hs.text_unique (ht.spans.trans (hb.trans hm))]
    have no_blank : ';' ∉ blanks := by
      intro hmem
      have := blank ';' hmem
      revert this
      decide
    simp only [List.mem_append, not_or]
    exact ⟨here, no_blank, ih later hm⟩

/-! ## Matches and sentences -/

section Leaf

variable {p q : Place} {text : List Char}

theorem mem_ends_iff_sentence (spaced : Spaced p.rest) (hs : p.Spans text q) :
    q ∈ Grammar.lambda.ends p ↔ Sentence text :=
  (Grammar.mem_ends_lambda_iff spaced).trans (sentence_iff hs).symm

theorem Sentence.not_mem_semicolon (h : Sentence text) : ';' ∉ text := by
  obtain ⟨r, hr, at_end⟩ := Place.exists_end text
  obtain ⟨ts, hts, spelled⟩ := (sentence_iff hr).1 h
  exact spelled.not_mem_semicolon (Phrase.joined_lambda hts) hr

/-- **The lambdas of a leaf are its leftmost shortest sentences.** In a leaf of a normal structural
text each match is a sentence, without a semicolon, and the beginning of every other sentence that
starts there; the matches follow one another without overlap; and wherever a sentence starts, it
starts within a match. -/
theorem lambdas_sentences {s : Structural} (normal : s.Normal) {leaf : Leaf}
    (hl : leaf ∈ s.flatten.leaves) :
    (∀ m ∈ leaf.lambdas, ∃ before sentence after,
      leaf.text = before ++ sentence ++ after ∧ m.start = byteLength before ∧
        m.stop = m.start + byteLength sentence ∧ Sentence sentence ∧ ';' ∉ sentence ∧
        ∀ other, Sentence other → other <+: sentence ++ after → sentence <+: other) ∧
      (leaf.lambdas.Pairwise fun a b => a.stop ≤ b.start) ∧
      ∀ before sentence after, leaf.text = before ++ sentence ++ after → Sentence sentence →
        ∃ m ∈ leaf.lambdas, m.start ≤ byteLength before ∧ byteLength before < m.stop := by
  have spaced : Spaced leaf.text := spaced_of_mem_leaves normal.spaced hl
  have spaced_at {before : List Char} {p : Place} (hp : (Place.ofText leaf.text).Spans before p) :
      Spaced p.rest := spaced.suffix ⟨before, hp.rest_eq.symm⟩
  refine ⟨?_, ?_, ?_⟩
  · intro m hm
    obtain ⟨range, hrange, rfl⟩ := List.mem_map.1 hm
    obtain ⟨before, start, stop, hstart, first, rfl⟩ := Pattern.exists_place_of_mem hrange
    have hstop := Pattern.mem_ends_of_firstEnd? first
    obtain ⟨sentence, hs⟩ := Pattern.spans_of_mem_ends hstop
    have is_sentence := (mem_ends_iff_sentence (spaced_at hstart) hs).1 hstop
    refine ⟨before, sentence, stop.rest, ?_, ?_, hs.offset_eq, is_sentence,
      is_sentence.not_mem_semicolon, ?_⟩
    · rw [List.append_assoc, ← hs.rest_eq]
      exact hstart.rest_eq
    · exact hstart.offset_eq.trans (Nat.zero_add _)
    · rintro other hother ⟨rest, hrest⟩
      rw [← hs.rest_eq] at hrest
      obtain ⟨r, hr, -⟩ := Place.spans_of_rest hrest.symm
      have least := Grammar.offset_le_of_firstEnd? first
        ((mem_ends_iff_sentence (spaced_at hstart) hr).2 hother)
      obtain ⟨more, rfl, -⟩ := hs.extend hr least
      exact List.prefix_append sentence more
  · unfold Leaf.lambdas
    rw [List.pairwise_map]
    exact Pattern.pairwise_matchesFrom Grammar.lambda (.ofText leaf.text)
  · intro before sentence after ht hsentence
    rw [List.append_assoc] at ht
    obtain ⟨p, hp, hrest⟩ := Place.spans_of_rest (p := Place.ofText leaf.text) ht
    obtain ⟨q, hq, -⟩ := Place.spans_of_rest hrest
    obtain ⟨r, first⟩ := exists_firstEnd? ((mem_ends_iff_sentence (spaced_at hp) hq).2 hsentence)
    obtain ⟨range, hrange, from_start, to_stop⟩ := Pattern.covered hp first
    have here : p.offset = byteLength before := hp.offset_eq.trans (Nat.zero_add _)
    rw [here] at from_start to_stop
    exact ⟨_, List.mem_map_of_mem hrange, from_start, to_stop⟩

end Leaf

theorem lambdas_sentences_trailing :
    (⟨.brace, "[] -> a \x7b\x7d \x7b\x7d;".toList, [(0, 0)]⟩ : Leaf) ∈
        (Structural.ofSource "[] -> a \x7b\x7d \x7b\x7d;".toList).flatten.leaves ∧
      ∃ sentence after, "[] -> a \x7b\x7d \x7b\x7d;".toList = sentence ++ after ∧
        byteLength sentence = 10 ∧ Sentence sentence := by
  have delivered : (⟨.brace, "[] -> a \x7b\x7d \x7b\x7d;".toList, [(0, 0)]⟩ : Leaf) ∈
      (Structural.ofSource "[] -> a \x7b\x7d \x7b\x7d;".toList).flatten.leaves := by
    decide +kernel
  refine ⟨delivered, ?_⟩
  obtain ⟨shown, -⟩ := lambdas_sentences (.source "[] -> a \x7b\x7d \x7b\x7d;".toList) delivered
  obtain ⟨before, sentence, after, text, start, stop, is_sentence, -⟩ :=
    shown ⟨0, 0, 10⟩ (by decide +kernel)
  have nothing : before = [] := by
    cases before with
    | nil => rfl
    | cons ch before =>
      have := byteLength_pos (List.cons_ne_nil ch before)
      rw [← start] at this
      exact absurd this (Nat.lt_irrefl 0)
  rw [nothing, List.nil_append] at text
  exact ⟨sentence, after, text, by simpa using stop.symm, is_sentence⟩

end LambdaTally
