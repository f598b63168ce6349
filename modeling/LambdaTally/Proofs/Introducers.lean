import LambdaTally.Outcome
import LambdaTally.Proofs.Grammar.Reading
import LambdaTally.Proofs.Nesting.Failure
import LambdaTally.Proofs.Nesting.Origins
import LambdaTally.Proofs.Pattern.Matches
import Mathlib.Data.List.Sort

/-!
# LambdaTally.Proofs.Introducers

Where the lambdas of a source were written. A match starts at a `[]` of its leaf, so the table of the
leaf has its origin; the starts ascend, so no entry of a table is read twice, and over all leaves no
`[` of the source is in two tables. The main result is `introducers`.
-/

namespace LambdaTally

open Utf8 Structural
open scoped List

/-! ## The matches of a leaf and its table -/

variable {leaf : Leaf}

theorem Leaf.standsAt_start {m : LambdaMatch} (h : m ∈ leaf.lambdas) :
    StandsAt '[' leaf.text m.start := by
  obtain ⟨range, hr, rfl⟩ := List.mem_map.1 h
  obtain ⟨before, start, stop, hs, first, rfl⟩ := Pattern.exists_place_of_mem hr
  obtain ⟨r, -, introduced, -⟩ :=
    Grammar.exists_introducer (Pattern.mem_ends_of_firstEnd? first)
  refine ⟨before, ']' :: r.rest, ?_, ?_⟩
  · have here : start.rest = '[' :: ']' :: r.rest := introduced.rest_eq
    rw [← here]
    exact hs.rest_eq
  · rw [hs.offset_eq]
    exact Nat.zero_add _

/-- The start of a match is a position of the table, and the offset of the match is its entry. -/
theorem Leaf.Tabled.mem_origins (h : leaf.Tabled) {m : LambdaMatch} (hm : m ∈ leaf.lambdas) :
    (m.start, m.offset) ∈ leaf.origins ∧ leaf.originAt? m.start = some m.offset := by
  have listed : m.start ∈ leaf.origins.map Prod.fst := (mem_of_tabled h).2 (standsAt_start hm)
  obtain ⟨⟨position, origin⟩, entry, rfl⟩ := List.mem_map.1 listed
  have found : leaf.originAt? m.start = some origin := lookup_of_mem (pairwise_of_tabled h) entry
  have offset : m.offset = origin := by
    obtain ⟨range, -, rfl⟩ := List.mem_map.1 hm
    dsimp only at found ⊢
    rw [found, Option.getD_some]
  rw [offset]
  exact ⟨entry, found⟩

theorem Leaf.pairwise_start (leaf : Leaf) :
    leaf.lambdas.Pairwise fun a b => a.start < b.start := by
  unfold Leaf.lambdas
  rw [List.pairwise_map]
  refine (Pattern.pairwise_matchesFrom Grammar.lambda (.ofText leaf.text)).imp_of_mem ?_
  intro a b ha _ apart
  exact Nat.lt_of_lt_of_le (Pattern.le_of_mem_matchesFrom ha).2 apart

/-- No entry of the table is read for two matches. -/
theorem Leaf.Tabled.offsets_sublist (h : leaf.Tabled) :
    leaf.lambdas.map LambdaMatch.offset <+ leaf.origins.map Prod.snd := by
  let earlier (a b : Nat × Nat) : Prop := a.1 < b.1
  have : Std.Antisymm earlier := ⟨fun a b hab hba => absurd hab (Nat.lt_asymm hba)⟩
  have read : (leaf.lambdas.map fun m => (m.start, m.offset)).Pairwise earlier :=
    List.pairwise_map.2 leaf.pairwise_start
  have table : leaf.origins.Pairwise earlier := by
    have positions := pairwise_squarePositions 0 leaf.text
    rw [← h] at positions
    exact List.pairwise_map.1 positions
  have listed : (leaf.lambdas.map fun m => (m.start, m.offset)) ⊆ leaf.origins := by
    intro entry he
    obtain ⟨m, hm, rfl⟩ := List.mem_map.1 he
    exact (h.mem_origins hm).1
  have distinct : (leaf.lambdas.map fun m => (m.start, m.offset)).Nodup :=
    read.imp fun hab e => Nat.ne_of_lt hab (congrArg Prod.fst e)
  have entries := List.sublist_of_subperm_of_pairwise (distinct.subperm listed) read table
  have offsets := entries.map Prod.snd
  rwa [List.map_map] at offsets

/-! ## The matches of a source -/

/-- No square bracket of a source introduces two of its lambdas. -/
theorem subperm_offsets {s : Structural} (h : s.Tabled) (nested : WellNested s.text) :
    (s.flatten.leaves.flatMap Leaf.lambdas).map LambdaMatch.offset <+~ s.squares.map Prod.snd := by
  rw [List.map_flatMap]
  have read : s.flatten.leaves.flatMap (fun leaf => leaf.lambdas.map LambdaMatch.offset) <+
      s.flatten.leaves.flatMap (fun leaf => leaf.origins.map Prod.snd) :=
    List.Sublist.flatMap_right _ fun leaf hl => (tabled_of_mem_leaves h nested hl).offsets_sublist
  exact read.subperm.trans (subperm_origins h nested)

theorem Structural.Tabled.length_squares {s : Structural} (h : s.Tabled) :
    s.squares.length = s.text.count '[' := by
  rw [← length_squarePositions 0, ← h, List.length_map]

/-! ## The samples -/

namespace Sampler

/-- The sample of a lambda that is drawn. -/
def sampleOf (source : List Char) (margin : Nat) (found : LambdaMatch) : Sample :=
  ⟨found.offset, Window.around source found.offset margin⟩

/-- One draw keeps the sample of its own lambda or nothing. -/
theorem observe_eq (s : Sampler) (found : LambdaMatch) :
    ∃ kept, kept <+ [found] ∧ (s.observe found.offset).source = s.source ∧
      (s.observe found.offset).sampling = s.sampling ∧
      (s.observe found.offset).samples =
        s.samples ++ kept.map (sampleOf s.source s.sampling.margin) := by
  unfold observe
  split
  · exact ⟨[], List.nil_sublist _, rfl, rfl, by simp⟩
  · dsimp only
    split
    · exact ⟨[found], List.Sublist.refl _, rfl, rfl, by simp [samples, sampleOf]⟩
    · exact ⟨[], List.nil_sublist _, rfl, rfl, by simp [samples]⟩

theorem samples_foldl (s : Sampler) (found : List LambdaMatch) :
    ∃ kept, kept <+ found ∧
      (found.foldl (fun sampler m => sampler.observe m.offset) s).samples =
        s.samples ++ kept.map (sampleOf s.source s.sampling.margin) := by
  induction found generalizing s with
  | nil => exact ⟨[], List.Sublist.refl _, by simp⟩
  | cons m found ih =>
    obtain ⟨first, hfirst, hsource, hsampling, here⟩ := s.observe_eq m
    obtain ⟨later, hlater, rest⟩ := ih (s.observe m.offset)
    refine ⟨first ++ later, hfirst.append hlater, ?_⟩
    rw [List.foldl_cons, rest, here, hsource, hsampling, List.map_append, List.append_assoc]

end Sampler

/-- **Every lambda is reported where its introducer was written.** In a source whose brackets pair
up, each match reads its offset from the table of its leaf. That offset is a `[` of the source and of
its structural text, no two matches have the same, so no more lambdas are counted than the text has
`[`; and each sample is that of one of the matches, in their order. -/
theorem introducers (source : List Char) (nested : WellNested (ofSource source).text) :
    ∃ found, (ofSource source).lambdas = .ok found ∧
      found = (ofSource source).flatten.leaves.flatMap Leaf.lambdas ∧
      (∀ leaf ∈ (ofSource source).flatten.leaves, ∀ m ∈ leaf.lambdas,
        leaf.originAt? m.start = some m.offset) ∧
      (∀ m ∈ found, (encode source)[m.offset]? = some 0x5B ∧
        m.offset ∈ (ofSource source).squares.map Prod.snd) ∧
      (found.map LambdaMatch.offset).Nodup ∧
      ∀ sampling, ∃ detection, Outcome.ofSource sampling source = .detected detection ∧
        detection.count = found.length ∧ detection.count ≤ (ofSource source).text.count '[' ∧
        ∃ kept, kept <+ found ∧
          detection.samples = kept.map (Sampler.sampleOf source sampling.margin) := by
  have tabled := tabled_ofSource source
  have read := subperm_offsets tabled nested
  have lambdas : (ofSource source).lambdas =
      .ok ((ofSource source).flatten.leaves.flatMap Leaf.lambdas) := by
    have unbroken : (ofSource source).flatten.failure = none := by
      rw [failure_flatten]
      exact (verdict_wellNested_iff _).2 nested
    rw [Structural.lambdas, unbroken]
  refine ⟨_, lambdas, rfl, ?_, ?_, ?_, ?_⟩
  · intro leaf hl m hm
    exact ((tabled_of_mem_leaves tabled nested hl).mem_origins hm).2
  · intro m hm
    have listed := read.subset (List.mem_map_of_mem hm)
    obtain ⟨entry, he, offset⟩ := List.mem_map.1 listed
    refine ⟨?_, listed⟩
    rw [← offset, (standsAt_of_mem_squares he).octet]
    rfl
  · obtain ⟨some_of, same, within⟩ := read
    refine same.nodup_iff.1 (List.Nodup.sublist within ?_)
    exact (pairwise_offsets source).imp Nat.ne_of_lt
  · intro sampling
    obtain ⟨kept, hkept, samples⟩ := (Sampler.start source sampling).samples_foldl
      ((ofSource source).flatten.leaves.flatMap Leaf.lambdas)
    refine ⟨_, by rw [Outcome.ofSource, lambdas], rfl, ?_, kept, hkept, samples⟩
    have := read.length_le
    rwa [List.length_map, List.length_map, tabled.length_squares] at this

theorem introducers_call :
    WellNested (ofSource "f([n] {});".toList).text ∧
      ∀ sampling, ∃ detection,
        Outcome.ofSource sampling "f([n] {});".toList = .detected detection ∧
          detection.count = 1 ∧ ∀ sample ∈ detection.samples, sample.offset = 2 := by
  have nested : WellNested (ofSource "f([n] {});".toList).text := by
    refine (verdict_wellNested_iff _).1 ?_
    decide +kernel
  refine ⟨nested, ?_⟩
  intro sampling
  obtain ⟨found, -, all, -, -, -, samples⟩ := introducers "f([n] {});".toList nested
  have one : (ofSource "f([n] {});".toList).flatten.leaves.flatMap Leaf.lambdas =
      [⟨2, 0, 5⟩] := by
    decide +kernel
  obtain ⟨detection, detected, count, -, kept, hkept, shown⟩ := samples sampling
  rw [all, one] at count hkept
  refine ⟨detection, detected, count, ?_⟩
  intro sample h
  rw [shown] at h
  obtain ⟨m, hm, rfl⟩ := List.mem_map.1 h
  rw [List.mem_singleton.1 (hkept.subset hm)]
  rfl

end LambdaTally
