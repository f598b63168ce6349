import LambdaTally.Text.CharClass
import Mathlib.Data.List.Infix

/-!
# LambdaTally.Proofs.Text.Trimming

What the blanks at the ends of a text are. A text is its trimmed form with blanks around it
(`exists_trim`), and what ends in no blank at either side is the trimmed form of itself with any blanks
around it (`trim_surrounded`).
-/

namespace LambdaTally
namespace CharClass

variable {text before after : List Char}

/-- The letters and digits of ASCII are no blanks. -/
theorem isBlank_of_isAlphanum {ch : Char} (letter : ch.isAlphanum = true) : isBlank ch = false := by
  have range : 48 ≤ ch.toNat ∧ ch.toNat ≤ 122 := by
    change ((decide (65 ≤ ch.val ∧ ch.val ≤ 90) || (97 ≤ ch.val && ch.val ≤ 122)) ||
      (48 ≤ ch.val && ch.val ≤ 57)) = true at letter
    simp only [Bool.or_eq_true, Bool.and_eq_true, decide_eq_true_eq, UInt32.le_iff_toNat_le] at letter
    change ((65 ≤ ch.toNat ∧ ch.toNat ≤ 90) ∨ (97 ≤ ch.toNat ∧ ch.toNat ≤ 122)) ∨
      (48 ≤ ch.toNat ∧ ch.toNat ≤ 57) at letter
    omega
  simp only [isBlank, Bool.or_eq_false_iff, Bool.and_eq_false_imp, decide_eq_true_eq,
    decide_eq_false_iff_not, beq_eq_false_iff_ne]
  omega

theorem trimEnd_append (text : List Char) :
    ∃ blanks, text = trimEnd text ++ blanks ∧ ∀ ch ∈ blanks, isBlank ch = true := by
  refine ⟨(text.reverse.takeWhile isBlank).reverse, ?_, ?_⟩
  · unfold trimEnd
    rw [← List.reverse_append, List.takeWhile_append_dropWhile, List.reverse_reverse]
  · intro ch h
    exact List.all_eq_true.1 List.all_takeWhile ch (List.mem_reverse.1 h)

theorem isBlank_getLast_trimEnd (text : List Char) :
    ∀ ch ∈ (trimEnd text).getLast?, isBlank ch = false := by
  intro ch last
  have kept := List.head?_dropWhile_not isBlank text.reverse
  rw [trimEnd, List.getLast?_reverse, Option.mem_def] at last
  rw [last] at kept
  simpa using kept

/-- Blanks at the end are no part of a text in front of them that ends in none. -/
theorem prefix_trimEnd (h : before <+: text) (kept : ∀ ch ∈ before.getLast?, isBlank ch = false) :
    before <+: trimEnd text := by
  obtain ⟨blanks, whole, blank⟩ := trimEnd_append text
  rcases List.prefix_or_prefix_of_prefix h ⟨blanks, whole.symm⟩ with shorter | ⟨more, rfl⟩
  · exact shorter
  · -- what is left of `before` is part of the blanks
    obtain ⟨later, same⟩ := h
    rw [List.append_assoc] at same
    have cut : more ++ later = blanks := List.append_cancel_left (same.trans whole)
    cases none_left : more.getLast? with
    | none =>
      rw [List.getLast?_eq_none_iff.1 none_left, List.append_nil]
    | some last =>
      have plain := kept last (by rw [List.getLast?_append, none_left]; rfl)
      have member : last ∈ blanks := cut ▸ List.mem_append_left _ (List.mem_of_getLast? none_left)
      rw [blank last member] at plain
      cases plain


theorem trimEnd_append_blanks (kept : ∀ ch ∈ text.getLast?, isBlank ch = false)
    (blank : ∀ ch ∈ after, isBlank ch = true) : trimEnd (text ++ after) = text := by
  have stop : text.reverse.dropWhile isBlank = text.reverse := by
    cases same : text.reverse with
    | nil => rfl
    | cons last rest =>
      have plain : isBlank last = false := by
        apply kept
        rw [← List.head?_reverse, same]
        rfl
      exact List.dropWhile_cons_of_neg (by simp [plain])
  rw [trimEnd, List.reverse_append,
    List.dropWhile_append_of_pos (fun ch h => blank ch (List.mem_reverse.1 h)), stop,
    List.reverse_reverse]

/-- Nothing but blanks is trimmed. -/
theorem exists_trim (text : List Char) :
    ∃ before after, text = before ++ trim text ++ after ∧
      (∀ ch ∈ before, isBlank ch = true) ∧ ∀ ch ∈ after, isBlank ch = true := by
  obtain ⟨after, ends, blank⟩ := trimEnd_append (text.dropWhile isBlank)
  refine ⟨text.takeWhile isBlank, after, ?_, ?_, blank⟩
  · rw [List.append_assoc, trim, ← ends, List.takeWhile_append_dropWhile]
  · intro ch h
    exact List.all_eq_true.1 List.all_takeWhile ch h

theorem trim_surrounded (first : ∀ ch ∈ text.head?, isBlank ch = false)
    (last : ∀ ch ∈ text.getLast?, isBlank ch = false) (front : ∀ ch ∈ before, isBlank ch = true)
    (back : ∀ ch ∈ after, isBlank ch = true) : trim (before ++ text ++ after) = text := by
  rw [trim, List.append_assoc, List.dropWhile_append_of_pos front]
  cases text with
  | nil =>
    rw [List.nil_append, ← List.append_nil after, List.dropWhile_append_of_pos back]
    rfl
  | cons ch rest =>
    have plain : isBlank ch = false := first ch rfl
    rw [List.cons_append, List.dropWhile_cons_of_neg (by simp [plain]), ← List.cons_append]
    exact trimEnd_append_blanks last back

end CharClass
end LambdaTally
