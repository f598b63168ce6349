import LambdaTally.Proofs.Introducers
import LambdaTally.Proofs.Sampling.Generator
import LambdaTally.Proofs.Tally

/-!
# LambdaTally.Proofs.Sampling.Thinning

The samples of a source as a thinning of its lambdas: the draw of a lambda is the one of its own
number, whatever has been kept before it, so a probability selects by number (`Stream.thin`). A
greater probability selects more, zero selects nothing, and one selects everything, as every draw is
below it. The main result is `sampling_thins`. Of the hash that tells contents apart it uses nothing, so
it is stated for any.
-/

namespace LambdaTally

open scoped List

namespace Stream

/-- The stream of a run seed and a source, under a hash of contents. -/
def ofSourceBy (hash : ByteArray → UInt64) (seed : UInt64) (source : List Char) : Stream :=
  ofSeed (seed ^^^ hash ⟨(Utf8.encode source).toArray⟩)

/-- The draw that comes after `k` others. -/
def draw (s : Stream) : (k : Nat) → Binary64
  | 0 => s.drawUnit.1
  | k + 1 => s.drawUnit.2.draw k

/-- The elements of a list whose own draw is below a probability, if one is drawn for each. -/
def thin {α : Type} (s : Stream) (p : Binary64) (elements : List α) : List α :=
  (elements.zipIdx.filter fun numbered => (s.draw numbered.2).lt p).map Prod.fst

theorem exists_draw_eq (s : Stream) (k : Nat) : ∃ word, s.draw k = unit word := by
  induction k generalizing s with
  | zero => exact ⟨s.next.state, rfl⟩
  | succ k ih => exact ih s.drawUnit.2

/-- Every draw is in `[0, 1)`. -/
theorem draw_bounds (s : Stream) (k : Nat) :
    (Binary64.zero false).le (s.draw k) ∧ (s.draw k).lt .one := by
  obtain ⟨word, same⟩ := s.exists_draw_eq k
  rw [same]
  exact Binary64.nearest_fraction_bounds (unitNumerator_lt word)

section Thin

variable {α : Type} {s : Stream} {p q : Binary64} {elements : List α}

@[simp] theorem thin_nil (s : Stream) (p : Binary64) : s.thin p ([] : List α) = [] := rfl

/-- The first draw decides about the first element, and the draws after it about the others. -/
theorem thin_cons (s : Stream) (p : Binary64) (a : α) (rest : List α) :
    s.thin p (a :: rest) = (if s.drawUnit.1.lt p then [a] else []) ++ s.drawUnit.2.thin p rest := by
  have later : ((rest.zipIdx 1).filter fun numbered => (s.draw numbered.2).lt p).map Prod.fst =
      s.drawUnit.2.thin p rest := by
    have shifted : rest.zipIdx 1 = rest.zipIdx.map fun numbered => (numbered.1, numbered.2 + 1) :=
      List.zipIdx_succ
    rw [shifted, List.filter_map, List.map_map]
    rfl
  have first : s.draw 0 = s.drawUnit.1 := rfl
  rw [← later, thin, List.zipIdx_cons, List.filter_cons, first]
  split <;> rfl

theorem thin_sublist (h : p.le q) : s.thin p elements <+ s.thin q elements :=
  (List.monotone_filter_right _ fun _ below => Binary64.lt_of_lt_of_le below h).map Prod.fst

theorem thin_eq_nil (h : (Binary64.zero false).lt p = false) : s.thin p elements = [] := by
  rw [thin, List.map_eq_nil_iff, List.filter_eq_nil_iff]
  rintro ⟨a, k⟩ - below
  have positive := Binary64.lt_of_le_of_lt (s.draw_bounds k).1 below
  rw [h] at positive
  cases positive

theorem thin_one : s.thin .one elements = elements := by
  have all : (elements.zipIdx.filter fun numbered => (s.draw numbered.2).lt .one) = elements.zipIdx :=
    List.filter_eq_self.2 fun numbered _ => (s.draw_bounds numbered.2).2
  rw [thin, all, List.zipIdx_map_fst]

end Thin
end Stream

namespace Sampler

/-- The sampler of a file whose content is told apart by a hash. -/
def startBy (hash : ByteArray → UInt64) (source : List Char) (sampling : Sampling) : Sampler :=
  let stream :=
    if sampling.isEnabled then some (Stream.ofSourceBy hash sampling.seed source) else none
  ⟨source, sampling, stream, []⟩

end Sampler

namespace Outcome

/-- The outcome of a source whose content is told apart by a hash. -/
def ofSourceBy (hash : ByteArray → UInt64) (sampling : Sampling) (source : List Char) : Outcome :=
  match (Structural.ofSource source).lambdas with
  | .error e => skipped e.skipReason
  | .ok lambdas =>
    let sampler := lambdas.foldl (fun sampler found => sampler.observe found.offset)
      (Sampler.startBy hash source sampling)
    detected ⟨lambdas.length, sampler.samples⟩

end Outcome

namespace Sampler

variable {s : Sampler} {stream : Stream}

theorem observe_none (h : s.stream = none) (offset : Nat) : s.observe offset = s := by
  rw [observe, h]

/-- A draw is taken whether or not the lambda is kept. -/
theorem observe_some (h : s.stream = some stream) (found : LambdaMatch) :
    s.observe found.offset =
      { s with
        stream := some stream.drawUnit.2
        kept := ((if stream.drawUnit.1.lt s.sampling.probability then [found] else []).map
          (sampleOf s.source s.sampling.margin)) ++ s.kept } := by
  rw [observe, h]
  dsimp only
  split <;> rfl

theorem foldl_observe_none (h : s.stream = none) (found : List LambdaMatch) :
    found.foldl (fun sampler m => sampler.observe m.offset) s = s := by
  induction found with
  | nil => rfl
  | cons m found ih => rw [List.foldl_cons, observe_none h, ih]

theorem foldl_observe_some (h : s.stream = some stream) (found : List LambdaMatch) :
    (found.foldl (fun sampler m => sampler.observe m.offset) s).samples =
      s.samples ++ (stream.thin s.sampling.probability found).map
        (sampleOf s.source s.sampling.margin) := by
  induction found generalizing s stream with
  | nil => simp
  | cons m found ih =>
    rw [List.foldl_cons, observe_some h, ih rfl, Stream.thin_cons, List.map_append,
      ← List.append_assoc]
    congr 1
    split <;> simp [samples]

/-- All samples of a file, under any settings. -/
theorem samples_startBy (hash : ByteArray → UInt64) (source : List Char) (sampling : Sampling)
    (found : List LambdaMatch) :
    (found.foldl (fun sampler m => sampler.observe m.offset) (startBy hash source sampling)).samples =
      ((Stream.ofSourceBy hash sampling.seed source).thin sampling.probability found).map
        (sampleOf source sampling.margin) := by
  cases enabled : sampling.isEnabled with
  | true =>
    have drawing : (startBy hash source sampling).stream =
        some (Stream.ofSourceBy hash sampling.seed source) := by simp [startBy, enabled]
    exact foldl_observe_some drawing found
  | false =>
    have idle : (startBy hash source sampling).stream = none := by simp [startBy, enabled]
    rw [foldl_observe_none idle, Stream.thin_eq_nil enabled]
    rfl

end Sampler

namespace Outcome

variable (hash : ByteArray → UInt64) (sampling : Sampling) {source : List Char}

theorem ofSourceBy_error {e : NestingError} (h : (Structural.ofSource source).lambdas = .error e) :
    ofSourceBy hash sampling source = .skipped e.skipReason := by
  rw [ofSourceBy, h]

theorem ofSourceBy_ok {found : List LambdaMatch}
    (h : (Structural.ofSource source).lambdas = .ok found) :
    ofSourceBy hash sampling source = .detected ⟨found.length,
      ((Stream.ofSourceBy hash sampling.seed source).thin sampling.probability found).map
        (Sampler.sampleOf source sampling.margin)⟩ := by
  rw [ofSourceBy, h, ← Sampler.samples_startBy]

end Outcome

/-- **Sampling thins the lambdas of a source and does nothing else.** Whatever hash tells contents
apart, the samples of a source are its lambdas whose own draw is below the probability, each with its
offset and the lines around it; whether the source is counted and how much does not depend on the
settings. So a greater probability keeps all that a smaller one keeps, zero keeps nothing, and one
keeps a sample of every lambda that is counted. -/
theorem sampling_thins (hash : ByteArray → UInt64) (source : List Char) :
    (∀ sampling, Outcome.ofSource sampling source =
      Outcome.ofSourceBy ContentHash.hash sampling source) ∧
    (∀ sampling, Outcome.ofSourceBy hash sampling source =
      match (Structural.ofSource source).lambdas with
      | .error e => .skipped e.skipReason
      | .ok found => .detected ⟨found.length,
          ((Stream.ofSourceBy hash sampling.seed source).thin sampling.probability found).map
            (Sampler.sampleOf source sampling.margin)⟩) ∧
    (∀ one other,
      (Outcome.ofSourceBy hash one source).skipReason? =
          (Outcome.ofSourceBy hash other source).skipReason? ∧
        (Outcome.ofSourceBy hash one source).count? =
          (Outcome.ofSourceBy hash other source).count?) ∧
    (∀ (sampling : Sampling) (p q : Binary64), p.le q →
      (Outcome.ofSourceBy hash (sampling.withProbability p) source).samples <+
        (Outcome.ofSourceBy hash (sampling.withProbability q) source).samples) ∧
    ∀ sampling : Sampling,
      (Outcome.ofSourceBy hash (sampling.withProbability (.zero false)) source).samples = [] ∧
        (Outcome.ofSourceBy hash (sampling.withProbability .one) source).samples.length =
          (Outcome.ofSourceBy hash (sampling.withProbability .one) source).count?.getD 0 := by
  refine ⟨fun _ => rfl, ?_⟩
  cases lambdas : (Structural.ofSource source).lambdas with
  | error e =>
    have skipped (sampling : Sampling) :
        Outcome.ofSourceBy hash sampling source = .skipped e.skipReason :=
      Outcome.ofSourceBy_error hash sampling lambdas
    refine ⟨skipped, ?_, ?_, ?_⟩
    · intro one other
      rw [skipped one, skipped other]
      exact ⟨rfl, rfl⟩
    · intro sampling p q _
      rw [skipped, skipped]
    · intro sampling
      rw [skipped, skipped]
      exact ⟨rfl, rfl⟩
  | ok found =>
    have detected (sampling : Sampling) := Outcome.ofSourceBy_ok hash sampling lambdas
    have idle : (Binary64.zero false).lt (.zero false) = false := by decide
    refine ⟨detected, ?_, ?_, ?_⟩
    · intro one other
      rw [detected one, detected other]
      exact ⟨rfl, rfl⟩
    · intro sampling p q ordered
      rw [detected, detected]
      exact (Stream.thin_sublist ordered).map _
    · intro sampling
      rw [detected, detected]
      refine ⟨?_, ?_⟩
      · exact congrArg (List.map _) (Stream.thin_eq_nil idle)
      · exact (List.length_map _).trans (congrArg List.length Stream.thin_one)

/-- At one in four, one of three lambdas is kept, and at three in four another one besides. -/
theorem sampling_thins_three :
    (Binary64.nearest false 1 4).le (.nearest false 3 4) ∧
      ∃ fewer more : List Sample,
        (Outcome.ofSource ⟨.nearest false 1 4, 0, 3⟩
          "[]\x7b\x7d;[]\x7b\x7d;[]\x7b\x7d".toList).samples = fewer ∧
        (Outcome.ofSource ⟨.nearest false 3 4, 0, 3⟩
          "[]\x7b\x7d;[]\x7b\x7d;[]\x7b\x7d".toList).samples = more ∧
        fewer.map Sample.offset = [5] ∧ more.map Sample.offset = [5, 10] ∧ fewer <+ more := by
  have ordered : (Binary64.nearest false 1 4).le (.nearest false 3 4) := by decide +kernel
  obtain ⟨same, -, -, greater, -⟩ :=
    sampling_thins ContentHash.hash "[]\x7b\x7d;[]\x7b\x7d;[]\x7b\x7d".toList
  refine ⟨ordered, _, _, rfl, rfl, by decide +kernel, by decide +kernel, ?_⟩
  rw [same, same]
  exact greater ⟨.nearest false 1 4, 0, 3⟩ _ _ ordered

end LambdaTally
