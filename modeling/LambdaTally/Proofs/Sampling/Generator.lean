import LambdaTally.Proofs.Number.Exact
import LambdaTally.Sampling.Stream
import Mathlib.Data.FinEnum
import Mathlib.Logic.Function.Iterate

/-!
# LambdaTally.Proofs.Sampling.Generator

The register behind a stream. Each of its three shifts can be undone bit by bit, so a move of the register
permutes the words (`step_bijective`). Zero is the word that stays, and no other word comes to it; a
stream that does not start there never gets there. Two streams that come to one state were already on one
way (`Draws.meet`).

A number drawn is the upper 53 bits of the word drawn over `2 ^ 53`, as computed and without rounding.
The main result is `generator_sound`. Of the hash that tells contents apart it uses nothing, so it is
stated for any.
-/

namespace LambdaTally
namespace Stream

/-! ## The register -/

section Register

variable {width k : Nat}

/-- From the lowest bit on, each bit is fixed by the result and the bits below it. -/
theorem xor_shiftLeft_injective (pos : 0 < k) :
    Function.Injective fun x : BitVec width => x ^^^ (x <<< k) := by
  intro x y h
  have bits : ∀ i, x.getLsbD i = y.getLsbD i := by
    intro i
    induction i using Nat.strongRecOn with
    | ind i ih =>
      have bit := congrArg (BitVec.getLsbD · i) h
      simp only [BitVec.getLsbD_xor, BitVec.getLsbD_shiftLeft] at bit
      by_cases low : i < k
      · simpa [low] using bit
      · simpa [ih (i - k) (by omega)] using bit
  exact BitVec.eq_of_getLsbD_eq fun i _ => bits i

/-- From the highest bit on, each bit is fixed by the result and the bits above it. -/
theorem xor_shiftRight_injective (pos : 0 < k) :
    Function.Injective fun x : BitVec width => x ^^^ (x >>> k) := by
  intro x y h
  -- by induction on how many bits lie above
  have bits : ∀ n i, width ≤ i + n → x.getLsbD i = y.getLsbD i := by
    intro n
    induction n with
    | zero =>
      intro i beyond
      simp [BitVec.getLsbD_of_ge, show width ≤ i by omega]
    | succ n ih =>
      intro i _
      have bit := congrArg (BitVec.getLsbD · i) h
      simp only [BitVec.getLsbD_xor, BitVec.getLsbD_ushiftRight] at bit
      simpa [ih (k + i) (by omega)] using bit
  exact BitVec.eq_of_getLsbD_eq fun i _ => bits width i (by omega)

theorem step_injective : Function.Injective step := by
  intro x y h
  have same := congrArg UInt64.toBitVec h
  have third := xor_shiftLeft_injective (k := 17) (by omega) same
  have second := xor_shiftRight_injective (k := 7) (by omega) third
  have first := xor_shiftLeft_injective (k := 13) (by omega) second
  exact UInt64.toBitVec_inj.1 first

theorem step_bijective : Function.Bijective step :=
  Finite.injective_iff_bijective.1 step_injective

theorem step_zero : step 0 = 0 := rfl

theorem step_ne_zero {x : UInt64} (h : x ≠ 0) : step x ≠ 0 := by
  intro zero
  exact h (step_injective (zero.trans step_zero.symm))

theorem next_injective : Function.Injective next := by
  intro s t h
  have same : step s.state = step t.state := congrArg state h
  cases s
  cases t
  exact congrArg Stream.mk (step_injective same)

end Register

/-! ## Draws -/

/-- What a stream is after some draws, each of a word or of a number. -/
inductive Draws : Stream → Nat → Stream → Prop where
  | start {s : Stream} : Draws s 0 s
  | word {s t : Stream} {n : Nat} : Draws s n t → Draws s (n + 1) t.drawWord.2
  | number {s t : Stream} {n : Nat} : Draws s n t → Draws s (n + 1) t.drawUnit.2

section Draws

variable {s s' t : Stream} {n k : Nat}

/-- Which draws they were does not matter. -/
theorem draws_iff : Draws s n t ↔ t = next^[n] s := by
  constructor
  · intro h
    induction h with
    | start => rfl
    | word _ ih => rw [Function.iterate_succ_apply', ← ih]; rfl
    | number _ ih => rw [Function.iterate_succ_apply', ← ih]; rfl
  · rintro rfl
    induction n with
    | zero => exact .start
    | succ n ih =>
      rw [Function.iterate_succ_apply']
      exact .word ih

/-- Where two streams come to one state, one of them started on the way of the other. -/
theorem Draws.meet (h : Draws s n t) (h' : Draws s' (n + k) t) : Draws s' k s := by
  rw [draws_iff] at *
  rw [h, Function.iterate_add_apply] at h'
  exact next_injective.iterate n h'

theorem Draws.state_ne_zero (h : Draws s n t) (nonzero : s.state ≠ 0) : t.state ≠ 0 := by
  induction h with
  | start => exact nonzero
  | word _ ih => exact step_ne_zero ih
  | number _ ih => exact step_ne_zero ih

end Draws

theorem state_ofSeed_ne_zero (seed : UInt64) : (ofSeed seed).state ≠ 0 := by
  unfold ofSeed
  split
  · decide
  · assumption

/-- The stream of a run seed and a content, under a hash of contents. -/
def ofContentBy (hash : ByteArray → UInt64) (seed : UInt64) (content : ByteArray) : Stream :=
  ofSeed (seed ^^^ hash content)

/-! ## Numbers -/

theorem unitNumerator_lt (word : UInt64) : unitNumerator word < 2 ^ 53 := by
  have whole : word.toNat < 2 ^ 64 := word.toNat_lt
  rw [unitNumerator, UInt64.toNat_shiftRight, show (11 : UInt64).toNat % 64 = 11 from rfl,
    Nat.shiftRight_eq_div_pow]
  omega

/-- The number for a word: its upper 53 bits times the constant `1 / 2 ^ 53`, which comes to the fraction
itself. -/
theorem unit_exact (word : UInt64) :
    unit word = (Binary64.ofNat (unitNumerator word)).mul (Binary64.one.div (.ofNat (Nat.pow 2 53))) ∧
      (unit word).isFinite ∧ (unit word).value = unitNumerator word / 2 ^ 53 :=
  ⟨(Binary64.mul_fraction (unitNumerator_lt word)).symm,
    Binary64.isFinite_nearest (unitNumerator_lt word) (by omega),
    Binary64.value_fraction (unitNumerator_lt word)⟩

/-- **The generator is sound.** Whatever hash tells contents apart, no draws bring a stream to the state
zero, so no word drawn is zero. A move of the register permutes the words; streams of different states
are never in one state after as many draws, and where they are after `n` and `n + k` draws, the first one
started where the second was after `k`. And every number drawn, computed as the upper 53 bits of the
word times `1 / 2 ^ 53`, is exactly the fraction `m / 2 ^ 53`, at least zero and below one. -/
theorem generator_sound (hash : ByteArray → UInt64) :
    (∀ seed content, ofContent seed content = ofContentBy ContentHash.hash seed content) ∧
    (∀ seed content s n t, s = ofSeed seed ∨ s = ofContentBy hash seed content → Draws s n t →
      t.state ≠ 0 ∧ t.drawWord.1 ≠ 0) ∧
    Function.Bijective step ∧
    (∀ s s' t n, Draws s n t → Draws s' n t → s = s') ∧
    (∀ s s' t n k, Draws s n t → Draws s' (n + k) t → Draws s' k s) ∧
    ∀ s : Stream, ∃ m, m = (s.drawWord.1 >>> 11).toNat ∧ m < 2 ^ 53 ∧
      s.drawUnit.1 = (Binary64.ofNat m).mul (Binary64.one.div (.ofNat (Nat.pow 2 53))) ∧
      s.drawUnit.1.isFinite ∧ s.drawUnit.1.value = m / 2 ^ 53 ∧
      0 ≤ s.drawUnit.1.value ∧ s.drawUnit.1.value < 1 := by
  refine ⟨fun _ _ => rfl, ?_, step_bijective, ?_, fun _ _ _ _ _ => Draws.meet, ?_⟩
  · intro seed content s n t begins draws
    have nonzero : s.state ≠ 0 := by
      rcases begins with rfl | rfl <;> exact state_ofSeed_ne_zero _
    have state := draws.state_ne_zero nonzero
    exact ⟨state, step_ne_zero state⟩
  · intro s s' t n draws draws'
    have apart := Draws.meet (k := 0) draws draws'
    exact draws_iff.1 apart
  · intro s
    have small := unitNumerator_lt s.drawWord.1
    obtain ⟨computed, finite, value⟩ := unit_exact s.drawWord.1
    refine ⟨_, rfl, small, computed, finite, value, ?_, ?_⟩
    · exact value.symm ▸ by positivity
    · have below : (unitNumerator s.drawWord.1 : ℚ) < 2 ^ 53 := by exact_mod_cast small
      have fraction : s.drawUnit.1.value = unitNumerator s.drawWord.1 / 2 ^ 53 := value
      rw [fraction, div_lt_one (by positivity)]
      exact below

/-- A seed that the hash of the content cancels is replaced, and the words drawn go on from there. -/
theorem generator_sound_cancelled :
    let s := ofContentBy (fun _ => 5) 5 ByteArray.empty
    s = ⟨zeroSeed⟩ ∧ Draws s 2 s.drawWord.2.drawUnit.2 ∧ s.drawWord.2.drawUnit.2.state ≠ 0 := by
  intro s
  have draws : Draws s 2 s.drawWord.2.drawUnit.2 := .number (.word .start)
  obtain ⟨-, nonzero, -⟩ := generator_sound fun _ => 5
  exact ⟨rfl, draws, (nonzero 5 ByteArray.empty s 2 _ (.inr rfl) draws).1⟩

end Stream
end LambdaTally
