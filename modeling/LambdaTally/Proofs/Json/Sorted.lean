import LambdaTally.Proofs.Json.ReadBack
import Mathlib.Data.List.Perm.Basic

/-!
# LambdaTally.Proofs.Json.Sorted

Documents of strings and natural numbers (`IsPlain`), whose written form is a single line that is read
back. They stay so when their fields are put in the order of their names, which only moves the fields
(`sortedFields_perm`).
-/

namespace LambdaTally
namespace Json

theorem insertField_perm (name : List Char) (value : Json) (fields : List (List Char × Json)) :
    (insertField name value fields).Perm ((name, value) :: fields) := by
  induction fields with
  | nil => exact List.Perm.refl _
  | cons field fields ih =>
    rw [insertField]
    split
    · exact List.Perm.refl _
    · exact (ih.cons field).trans (List.Perm.swap _ _ _)

/-- The fields with sorted values, themselves in the order that they were in. -/
def sortedValues (fields : List (List Char × Json)) : List (List Char × Json) :=
  fields.map fun field => (field.1, field.2.sorted)

theorem sortedFields_perm (fields : List (List Char × Json)) :
    (sortedFields fields).Perm (sortedValues fields) := by
  induction fields with
  | nil => exact List.Perm.refl _
  | cons field fields ih => exact (insertField_perm _ _ _).trans (ih.cons _)

theorem sortedItems_eq_map (items : List Json) : sortedItems items = items.map sorted := by
  induction items with
  | nil => rfl
  | cons item items ih => rw [sortedItems, ih, List.map_cons]

/-- A document of strings and natural numbers. -/
inductive IsPlain : Json → Prop where
  | string (text : List Char) : IsPlain (string text)
  | natural (n : Nat) : IsPlain (natural n)
  | array {items : List Json} (each : ∀ item ∈ items, IsPlain item) : IsPlain (array items)
  | object {fields : List (List Char × Json)} (each : ∀ field ∈ fields, IsPlain field.2) :
    IsPlain (object fields)

theorem IsPlain.readsBack {j : Json} (plain : IsPlain j) : ReadsBack j := by
  induction plain with
  | string text => exact readsBack_string text
  | natural n => exact readsBack_natural n
  | array _ ih => exact ReadsBack.array ih
  | object _ ih => exact ReadsBack.object ih

theorem IsPlain.sorted {j : Json} (plain : IsPlain j) : IsPlain j.sorted := by
  induction plain with
  | string text => exact .string text
  | natural n => exact .natural n
  | array _ ih =>
    rw [Json.sorted, sortedItems_eq_map]
    exact .array (List.forall_mem_map.2 ih)
  | @object fields _ ih =>
    refine .object fun field member => ?_
    rw [(sortedFields_perm fields).mem_iff] at member
    obtain ⟨unsorted, found, rfl⟩ := List.mem_map.1 member
    exact ih unsorted found

/-! ## Documents on one line -/

theorem newline_notMem_escape (c : Char) : '\n' ∉ escape c := by
  have digit : ∀ n < 16, '\n' ≠ hexDigit n := by decide
  unfold escape
  -- The seven characters with a short escape.
  iterate 7
    split
    · decide
  split
  · have high := digit (c.toNat / 16) (by omega)
    have low := digit (c.toNat % 16) (by omega)
    simp [high, low]
  · rename_i other _ _ _
    rw [List.mem_singleton]
    exact Ne.symm other

theorem newline_notMem_quote (text : List Char) : '\n' ∉ quote text := by
  have inside : '\n' ∉ text.flatMap escape := by
    intro member
    obtain ⟨c, -, found⟩ := List.mem_flatMap.1 member
    exact newline_notMem_escape c found
  simp [quote, inside]

theorem newline_notMem_compactItems {items : List Json} (each : ∀ item ∈ items, '\n' ∉ item.compact) :
    '\n' ∉ compactItems items := by
  induction items with
  | nil => exact List.not_mem_nil
  | cons item items ih =>
    obtain ⟨first, others⟩ := List.forall_mem_cons.1 each
    cases items with
    | nil => exact first
    | cons next items =>
      have behind := ih others
      have more : compactItems (item :: next :: items) =
          item.compact ++ ',' :: compactItems (next :: items) := rfl
      rw [more]
      simp [first, behind]

theorem newline_notMem_compactFields {fields : List (List Char × Json)}
    (each : ∀ field ∈ fields, '\n' ∉ field.2.compact) : '\n' ∉ compactFields fields := by
  induction fields with
  | nil => exact List.not_mem_nil
  | cons field fields ih =>
    obtain ⟨name, value⟩ := field
    obtain ⟨first, others⟩ := List.forall_mem_cons.1 each
    have named := newline_notMem_quote name
    cases fields with
    | nil => simp [compactFields, named, first]
    | cons next fields =>
      have behind := ih others
      have more : compactFields ((name, value) :: next :: fields) =
          quote name ++ ':' :: value.compact ++ ',' :: compactFields (next :: fields) := rfl
      rw [more]
      simp [named, first, behind]

/-- Characters that would end the line are escaped. -/
theorem IsPlain.newline_notMem {j : Json} (plain : IsPlain j) : '\n' ∉ j.compact := by
  induction plain with
  | string text => exact newline_notMem_quote text
  | natural n =>
    rw [compact_natural]
    intro member
    cases isDigit_of_mem member
  | array _ ih =>
    have items := newline_notMem_compactItems ih
    simp [compact, items]
  | object _ ih =>
    have fields := newline_notMem_compactFields ih
    simp [compact, fields]

end Json
end LambdaTally
