import LambdaTally.CommandLine.Value
import LambdaTally.Proofs.Number.Natural
import LambdaTally.Proofs.Text.Trimming
import Mathlib.Algebra.Group.Nat.Defs

/-!
# LambdaTally.Proofs.Sizes

What a size argument means (`size_exact`). After trimming, without its underscores and in small letters
(`plainSize`), a size is a number alone or a number before one of nine suffixes, with blanks around the
number if wanted (`SizeText`). Every such text is read as the product of its number and its unit as long
as both fit 64 bits, and no other text is read.

The suffixes are searched in some order, but the order decides nothing: no suffix ends in another one
(`suffix_unique`), and the digit at the end of a number ends no suffix.
-/

namespace LambdaTally
namespace CommandLine

open CharClass Natural

variable {n unit value : Nat} {suffix text before : List Char}

/-- The letters of the units, with the power of 1024 that each stands for. -/
def powers : List (Char × Nat) := [('k', 1), ('m', 2), ('g', 3)]

/-- The suffix stands for that power of 1024: the letter of the unit, alone, before `b` or before
`ib`. -/
def IsSuffix (suffix : List Char) (power : Nat) : Prop :=
  ∃ letter, (letter, power) ∈ powers ∧ suffix ∈ [[letter], [letter, 'b'], [letter, 'i', 'b']]

/-- The text is that number of that unit. -/
inductive SizeText : List Char → Nat → Nat → Prop where
  | octets {number : List Char} {n : Nat} : Denotes number n → SizeText number n 1
  | suffixed {before number after suffix : List Char} {n power : Nat} :
      (∀ ch ∈ before, isBlank ch = true) → Denotes number n → (∀ ch ∈ after, isBlank ch = true) →
      IsSuffix suffix power → SizeText (before ++ number ++ after ++ suffix) n (1024 ^ power)

/-- A size argument as its suffix is searched: trimmed, without underscores, in small letters. -/
def plainSize (text : List Char) : List Char := asciiLower ((trim text).filter (· != '_'))

/-! ## The suffixes -/

/-- The table of units lists the suffixes. -/
theorem isSuffix_iff : (∃ power, IsSuffix suffix power ∧ 1024 ^ power = value) ↔
    (suffix, value) ∈ sizeUnits := by
  simp only [IsSuffix, powers, sizeUnits, List.mem_cons, Prod.mk.injEq, List.not_mem_nil, or_false]
  constructor
  · rintro ⟨power, ⟨letter, ⟨rfl, rfl⟩ | ⟨rfl, rfl⟩ | ⟨rfl, rfl⟩, rfl | rfl | rfl⟩, rfl⟩ <;> simp
  · rintro (⟨rfl, rfl⟩ | ⟨rfl, rfl⟩ | ⟨rfl, rfl⟩ | ⟨rfl, rfl⟩ | ⟨rfl, rfl⟩ | ⟨rfl, rfl⟩ |
      ⟨rfl, rfl⟩ | ⟨rfl, rfl⟩ | ⟨rfl, rfl⟩)
    all_goals first
      | exact ⟨3, ⟨'g', by simp⟩, rfl⟩
      | exact ⟨2, ⟨'m', by simp⟩, rfl⟩
      | exact ⟨1, ⟨'k', by simp⟩, rfl⟩

/-- No suffix ends in another one. -/
theorem eq_of_suffix : ∀ u ∈ sizeUnits, ∀ u' ∈ sizeUnits, u.1 <:+ u'.1 → u = u' := by
  decide

/-- At the end of a text stands at most one suffix. -/
theorem suffix_unique {u u' : List Char × Nat} (h : u ∈ sizeUnits) (h' : u' ∈ sizeUnits)
    (ends : u.1 <:+ text) (ends' : u'.1 <:+ text) : u = u' := by
  rcases List.suffix_or_suffix_of_suffix ends ends' with inside | inside
  · exact eq_of_suffix u h u' h' inside
  · exact (eq_of_suffix u' h' u h inside).symm

theorem splitUnit_append (h : (suffix, value) ∈ sizeUnits) :
    splitUnit (before ++ suffix) = (trim before, value) := by
  have stands : suffix <:+ before ++ suffix := List.suffix_append before suffix
  unfold splitUnit
  cases found : sizeUnits.find? fun unit => unit.1.isSuffixOf (before ++ suffix) with
  | none =>
    have none_stands := List.find?_eq_none.1 found (suffix, value) h
    exact absurd (List.isSuffixOf_iff_suffix.2 stands) none_stands
  | some u =>
    have listed : u ∈ sizeUnits := List.mem_of_find?_eq_some found
    have tested : u.1.isSuffixOf (before ++ suffix) = true := by simpa using List.find?_some found
    have ends : u.1 <:+ before ++ suffix := List.isSuffixOf_iff_suffix.1 tested
    obtain rfl := suffix_unique h listed stands ends
    simp

theorem splitUnit_plain (h : ∀ u ∈ sizeUnits, ¬ u.1 <:+ text) : splitUnit text = (text, 1) := by
  have found : (sizeUnits.find? fun unit => unit.1.isSuffixOf text) = none := by
    refine List.find?_eq_none.2 fun u member => ?_
    rw [List.isSuffixOf_iff_suffix]
    exact h u member
  rw [splitUnit, found]

/-! ## The number before the unit -/

theorem isBlank_of_isDigit {ch : Char} (h : ch.isDigit = true) : isBlank ch = false :=
  isBlank_of_isAlphanum (by simp [Char.isAlphanum, h])

/-- A number begins and ends in no blank, so trimming gives it back. -/
theorem trim_number {after number : List Char} (front : ∀ ch ∈ before, isBlank ch = true)
    (numeral : Denotes number n) (back : ∀ ch ∈ after, isBlank ch = true) :
    trim (before ++ number ++ after) = number := by
  refine trim_surrounded (fun ch first => ?_) (fun ch last => ?_) front back
  · rcases numeral.isDigit_of_mem (List.mem_of_head? first) with rfl | digit
    · decide
    · exact isBlank_of_isDigit digit
  · exact isBlank_of_isDigit (numeral.isDigit_getLast last)

/-- No suffix stands at the end of a number. -/
theorem not_suffix_number (numeral : Denotes text n) {u : List Char × Nat} (h : u ∈ sizeUnits) :
    ¬ u.1 <:+ text := by
  have letters : ∀ u ∈ sizeUnits, ∃ ch, u.1.getLast? = some ch ∧ ch.isDigit = false := by
    simp [sizeUnits]
  rintro ⟨front, rfl⟩
  obtain ⟨ch, last, letter⟩ := letters u h
  have digit := numeral.isDigit_getLast (by rw [List.getLast?_append, last]; rfl)
  rw [letter] at digit
  cases digit

/-- Splitting finds the number and the unit of a size. -/
theorem sizeText_iff :
    SizeText text n unit ↔ Denotes (splitUnit text).1 n ∧ (splitUnit text).2 = unit := by
  constructor
  · intro size
    cases size with
    | octets numeral =>
      rw [splitUnit_plain fun u => not_suffix_number numeral]
      exact ⟨numeral, rfl⟩
    | @suffixed _ _ _ _ _ power front numeral back isSuffix =>
      have listed := isSuffix_iff.1 ⟨power, isSuffix, rfl⟩
      rw [splitUnit_append listed, trim_number front numeral back]
      exact ⟨numeral, rfl⟩
  · rintro ⟨numeral, rfl⟩
    by_cases plain : ∀ u ∈ sizeUnits, ¬ u.1 <:+ text
    · rw [splitUnit_plain plain] at numeral ⊢
      exact .octets numeral
    · push Not at plain
      obtain ⟨⟨suffix, value⟩, listed, body, rfl⟩ := plain
      obtain ⟨power, isSuffix, rfl⟩ := isSuffix_iff.2 listed
      obtain ⟨before, after, whole, front, back⟩ := exists_trim body
      rw [splitUnit_append listed] at numeral ⊢
      rw [whole]
      exact .suffixed front numeral back isSuffix

/-! ## The size -/

theorem readSize_eq (text : List Char) : readSize text =
    let split := splitUnit (plainSize text)
    match Natural.read max64 split.1 with
    | .error _ => .error (.sizeNumber split.1)
    | .ok n =>
      if n * split.2 ≤ max64 then .ok (n * split.2)
      else .error (.sizeTooLarge ((trim text).filter (· != '_'))) :=
  rfl

theorem readSize_eq_ok_iff : readSize text = .ok value ↔
    ∃ n unit, SizeText (plainSize text) n unit ∧ n ≤ max64 ∧ value = n * unit ∧ value ≤ max64 := by
  simp only [sizeText_iff, readSize_eq]
  cases done : Natural.read max64 (splitUnit (plainSize text)).1 with
  | error cause =>
    simp only [reduceCtorEq, false_iff]
    rintro ⟨n, unit, ⟨numeral, -⟩, fits, -⟩
    rw [read_eq_ok_iff.2 ⟨numeral, fits⟩] at done
    cases done
  | ok m =>
    obtain ⟨numeral, fits⟩ := read_eq_ok_iff.1 done
    constructor
    · intro result
      by_cases small : m * (splitUnit (plainSize text)).2 ≤ max64
      · simp only [small, if_true, Except.ok.injEq] at result
        exact ⟨m, _, ⟨numeral, rfl⟩, fits, result.symm, result ▸ small⟩
      · simp [small] at result
    · rintro ⟨n, unit, ⟨numeral', rfl⟩, -, rfl, small⟩
      obtain rfl := numeral.value_unique numeral'
      simp [small]

/-- A size argument is read exactly if it is a number of some unit, and both the number and the size
in octets are below `2 ^ 64`; every other argument is refused. The text is a size in one way only, and
at its end stands one suffix at most. -/
theorem size_exact (text : List Char) :
    (∀ value, readSize text = .ok value ↔
      ∃ n unit, SizeText (plainSize text) n unit ∧ n < 2 ^ 64 ∧ value = n * unit ∧ value < 2 ^ 64) ∧
    ((∃ e, readSize text = .error e) ↔
      ∀ n unit, SizeText (plainSize text) n unit → 2 ^ 64 ≤ n ∨ 2 ^ 64 ≤ n * unit) ∧
    (∀ n unit n' unit', SizeText (plainSize text) n unit → SizeText (plainSize text) n' unit' →
      n = n' ∧ unit = unit') ∧
    ∀ suffix power suffix' power', IsSuffix suffix power → IsSuffix suffix' power' →
      suffix <:+ plainSize text → suffix' <:+ plainSize text → suffix = suffix' ∧ power = power' := by
  have bound {m : Nat} : m ≤ max64 ↔ m < 2 ^ 64 := by
    unfold max64
    omega
  have accepted (value : Nat) : readSize text = .ok value ↔ ∃ n unit,
      SizeText (plainSize text) n unit ∧ n < 2 ^ 64 ∧ value = n * unit ∧ value < 2 ^ 64 := by
    simp only [readSize_eq_ok_iff, bound]
  refine ⟨accepted, ⟨?_, ?_⟩, ?_, ?_⟩
  · rintro ⟨e, refused⟩ n unit size
    by_contra fits
    push Not at fits
    have read := (accepted (n * unit)).2 ⟨n, unit, size, fits.1, rfl, fits.2⟩
    rw [refused] at read
    cases read
  · intro large
    cases result : readSize text with
    | error e => exact ⟨e, rfl⟩
    | ok value =>
      obtain ⟨n, unit, size, number, rfl, product⟩ := (accepted value).1 result
      rcases large n unit size with above | above
      · exact absurd number (Nat.not_lt.2 above)
      · exact absurd product (Nat.not_lt.2 above)
  · intro n unit n' unit' size size'
    obtain ⟨numeral, rfl⟩ := sizeText_iff.1 size
    obtain ⟨numeral', rfl⟩ := sizeText_iff.1 size'
    exact ⟨numeral.value_unique numeral', rfl⟩
  · intro suffix power suffix' power' known known' ends ends'
    have same := suffix_unique (isSuffix_iff.1 ⟨power, known, rfl⟩) (isSuffix_iff.1 ⟨power', known', rfl⟩)
      ends ends'
    obtain ⟨rfl, value⟩ := Prod.mk.inj same
    exact ⟨rfl, Nat.pow_right_injective (by decide) value⟩

example : readSize " +1_0 KiB".toList = .ok 10240 := by rfl

example : readSize "17_179_869_184G".toList = .error (.sizeTooLarge "17179869184G".toList) := by rfl

end CommandLine
end LambdaTally
