import LambdaTally.Number.Natural

/-!
# LambdaTally.Proofs.Number.Natural

Which texts are read as which natural number. `Denotes text n` says that the text is `n` in decimal
digits, perhaps with one plus sign in front; the reader gives `n` exactly for those texts, unless `n`
passes the bound (`read_eq_ok_iff`). It stops as soon as the digits so far pass the bound, which it may
because more digits never make a number smaller (`le_ofDigitChars`).
-/

namespace LambdaTally
namespace Natural

variable {bound n n' r : Nat} {ch : Char} {text : List Char}

/-- The text is the number, in decimal digits behind at most one plus sign. -/
inductive Denotes : List Char → Nat → Prop where
  | digits {ds : List Char} : ds ≠ [] → (∀ ch ∈ ds, ch.isDigit = true) →
      Denotes ds (Nat.ofDigitChars 10 ds 0)
  | plus {ds : List Char} : ds ≠ [] → (∀ ch ∈ ds, ch.isDigit = true) →
      Denotes ('+' :: ds) (Nat.ofDigitChars 10 ds 0)

theorem le_ofDigitChars (digits : List Char) (r : Nat) : r ≤ Nat.ofDigitChars 10 digits r := by
  induction digits generalizing r with
  | nil => exact Nat.le_refl r
  | cons ch rest ih =>
    rw [Nat.ofDigitChars_cons]
    have more := ih (10 * r + (ch.toNat - '0'.toNat))
    omega

theorem readDigits_eq_ok_iff (upto : r ≤ bound) :
    readDigits bound r text = .ok n ↔
      (∀ ch ∈ text, ch.isDigit = true) ∧ Nat.ofDigitChars 10 text r = n ∧ n ≤ bound := by
  induction text generalizing r with
  | nil =>
    simp only [readDigits, Except.ok.injEq, List.not_mem_nil, false_implies, implies_true,
      Nat.ofDigitChars_nil, true_and]
    constructor
    · rintro rfl
      exact ⟨rfl, upto⟩
    · exact And.left
  | cons ch rest ih =>
    rw [readDigits, Nat.mul_comm r 10]
    by_cases digit : ch.isDigit = true
    · by_cases fits : 10 * r + (ch.toNat - '0'.toNat) ≤ bound
      · simp only [digit, fits, if_true, ih fits, Nat.ofDigitChars_cons, List.forall_mem_cons, true_and]
      · have above := le_ofDigitChars rest (10 * r + (ch.toNat - '0'.toNat))
        simp only [digit, fits, if_true, if_false, reduceCtorEq, Nat.ofDigitChars_cons, false_iff]
        rintro ⟨-, rfl, within⟩
        exact fits (Nat.le_trans above within)
    · simp [digit]

/-- The reader takes the numerals up to the bound and gives each its value. -/
theorem read_eq_ok_iff : read bound text = .ok n ↔ Denotes text n ∧ n ≤ bound := by
  have zero : 0 ≤ bound := Nat.zero_le bound
  constructor
  · intro done
    unfold read at done
    split at done
    · cases done
    · cases done
    · rename_i digits alone
      obtain ⟨all, rfl, within⟩ := (readDigits_eq_ok_iff zero).1 done
      exact ⟨.plus (fun none => alone (by rw [none])) all, within⟩
    · rename_i some_text _ _
      obtain ⟨all, rfl, within⟩ := (readDigits_eq_ok_iff zero).1 done
      exact ⟨.digits some_text all, within⟩
  · rintro ⟨numeral, within⟩
    cases numeral with
    | digits some_digit all =>
      have read_digits : read bound text = readDigits bound 0 text := by
        unfold read
        split
        · exact absurd rfl some_digit
        · exact absurd (all '+' (by simp)) (by decide)
        · exact absurd (all '+' (by simp)) (by decide)
        · rfl
      rw [read_digits, readDigits_eq_ok_iff zero]
      exact ⟨all, rfl, within⟩
    | @plus ds some_digit all =>
      have read_digits : read bound ('+' :: ds) = readDigits bound 0 ds := by
        cases ds with
        | nil => exact absurd rfl some_digit
        | cons _ _ => rfl
      rw [read_digits, readDigits_eq_ok_iff zero]
      exact ⟨all, rfl, within⟩

namespace Denotes

/-- A text is no more than one number. -/
theorem value_unique (h : Denotes text n) (h' : Denotes text n') : n = n' := by
  have one := read_eq_ok_iff.2 ⟨h, Nat.le_max_left n n'⟩
  have other := read_eq_ok_iff.2 ⟨h', Nat.le_max_right n n'⟩
  exact Except.ok.inj (one.symm.trans other)

theorem isDigit_of_mem (h : Denotes text n) (mem : ch ∈ text) : ch = '+' ∨ ch.isDigit = true := by
  cases h with
  | digits _ all => exact .inr (all ch mem)
  | plus _ all => exact (List.mem_cons.1 mem).imp_right (all ch)

theorem isDigit_getLast (h : Denotes text n) (last : text.getLast? = some ch) : ch.isDigit = true := by
  cases h with
  | digits _ all => exact all ch (List.mem_of_getLast? last)
  | plus some_digit all =>
    rw [List.getLast?_cons_of_ne_nil some_digit] at last
    exact all ch (List.mem_of_getLast? last)

end Denotes
end Natural
end LambdaTally
