import LambdaTally.Json.Field
import LambdaTally.Number.Natural
import LambdaTally.Proofs.Json.ReadBack
import LambdaTally.Proofs.Number.Binary64
import Mathlib.Data.List.Perm.Basic

/-!
# LambdaTally.Proofs.Json.Fields

Laws of reading values out of a document. The order of an object's fields is nothing to a reader that
asks for them by name (`record?_perm`), and a natural number of 64 bits is taken for what it is, never
rounded and never too large (`nat?_eq_some_iff`, `isWithin_natural`).
-/

namespace LambdaTally

namespace Numeral

/-- Digits of a number that fits a word are all taken up. -/
theorem takeDigits_eq {digits : List Char} {significand : Nat}
    (h : digits.foldl (fun n c => n * 10 + (c.toNat - '0'.toNat)) significand ≤ maxSignificand) :
    takeDigits significand digits =
      (digits.foldl (fun n c => n * 10 + (c.toNat - '0'.toNat)) significand, []) := by
  have grows (digits : List Char) (n : Nat) :
      n ≤ digits.foldl (fun n c => n * 10 + (c.toNat - '0'.toNat)) n := by
    induction digits generalizing n with
    | nil => exact Nat.le_refl n
    | cons c digits ih => exact Nat.le_trans (by omega) (ih (n * 10 + (c.toNat - '0'.toNat)))
  induction digits generalizing significand with
  | nil => rfl
  | cons c digits ih =>
    rw [List.foldl_cons] at h ⊢
    rw [takeDigits, if_pos (Nat.le_trans (grows digits _) h), ih h]

theorem takeDigits_toDigits {n : Nat} (h : n ≤ maxSignificand) :
    takeDigits 0 (Nat.toDigits 10 n) = (n, []) := by
  have value : (Nat.toDigits 10 n).foldl (fun n c => n * 10 + (c.toNat - '0'.toNat)) 0 = n :=
    Json.digitsValue_toDigits n
  rw [takeDigits_eq (by rwa [value]), value]

theorem isSome_scale?_zero {n : Nat} (h : n ≤ maxSignificand) : (scale? n 0).isSome = true := by
  have word : n < 2 ^ 64 := Nat.lt_of_le_of_lt h (by decide)
  have finite : ((Binary64.ofNat n).mul (.tenPower 0)).isFinite = true := by
    refine Binary64.isFinite_mul (Nat.le_trans ?_ (show 1090 + 1090 ≤ 3000 by decide))
    exact Nat.add_le_add (Binary64.scale_ofNat_le word) (Binary64.scale_ofNat_le (by decide))
  unfold scale?
  dsimp only
  rw [if_neg (by decide), if_pos (by decide), show Int.natAbs 0 = 0 from rfl, if_pos finite]
  rfl

theorem isSome_toBinary64?_ofNat {n : Nat} (h : n ≤ maxSignificand) :
    (ofNat n).toBinary64?.isSome = true := by
  have size : (ofNat n).size? = scale? n 0 := by
    simp only [size?, ofNat, takeDigits_toDigits h, takeDigits]
    rfl
  rw [toBinary64?, Option.isSome_map, size, isSome_scale?_zero h]

end Numeral

namespace Json

/-! ## Numbers -/

theorem nat?_eq_some_iff {max n : Nat} {j : Json} :
    j.nat? max = some n ↔ j = natural n ∧ n ≤ max := by
  constructor
  · intro h
    cases j with
    | number value =>
      obtain ⟨negative, whole, fraction, exponent⟩ := value
      rw [nat?, Numeral.toNat?] at h
      split at h
      · rename_i plain
        obtain ⟨rfl, rfl, rfl, small⟩ := plain
        cases h
        exact ⟨rfl, small⟩
      · cases h
    | _ => cases h
  · rintro ⟨rfl, small⟩
    rw [natural, nat?, Numeral.toNat?, if_pos ⟨rfl, rfl, rfl, small⟩]
    rfl

theorem isWithin_natural {n : Nat} (levels : Nat) (h : n ≤ Natural.max64) :
    (natural n).isWithin levels = true := by
  rw [natural, isWithin]
  exact Numeral.isSome_toBinary64?_ofNat h

/-! ## Fields -/

theorem areWithin_eq_all (levels : Nat) (items : List Json) :
    areWithin levels items = items.all (isWithin levels) := by
  induction items with
  | nil => rfl
  | cons item items ih => rw [areWithin, ih, List.all_cons]

theorem fieldsAreWithin_eq_all (levels : Nat) (fields : List (List Char × Json)) :
    fieldsAreWithin levels fields = fields.all fun field => isWithin levels field.2 := by
  induction fields with
  | nil => rfl
  | cons field fields ih => rw [fieldsAreWithin, ih, List.all_cons]

section Order

variable {fields others : List (List Char × Json)}

theorem isWithin_perm (levels : Nat) (h : fields.Perm others) :
    isWithin levels (object fields) = isWithin levels (object others) := by
  rw [isWithin, isWithin, fieldsAreWithin_eq_all, fieldsAreWithin_eq_all, h.all_eq]

theorem only?_perm (name : String) (h : fields.Perm others) : only? name fields = only? name others := by
  have found := h.filter fun field => field.1 == name.toList
  have size := found.length_eq
  unfold only?
  generalize fields.filter _ = left at found size ⊢
  generalize others.filter _ = right at found size ⊢
  cases left with
  | nil => rw [found.symm.eq_nil]
  | cons first more =>
    cases more with
    | nil => rw [List.perm_singleton.1 found.symm]
    | cons second more =>
      match right, size with
      | _ :: _ :: _, _ => rfl

theorem record?_perm (names : List String) (h : fields.Perm others) :
    (object fields).record? names = (object others).record? names := by
  simp only [record?, only?_perm _ h]

end Order
end Json
end LambdaTally
