import LambdaTally.Source.Literal

/-!
# LambdaTally.Proofs.Source.Scanners

What each scanner does with the next logical characters, one equation for each way it can go on. Later
modules take steps by these and do not open the scanners.
-/

namespace LambdaTally
namespace Literal

open Cursor

variable {c d e : Cursor} {ch : Char}

/-- A scanner that stops at a line break and at the end, and goes on elsewhere. -/
theorem eq_or_lt {scan : Cursor → Cursor} (at_end : ∀ {c}, c.next? = none → scan c = c)
    (at_break : ∀ {c d}, c.next? = some ('\n', d) → scan c = c)
    (elsewhere : ∀ {c d ch}, c.next? = some (ch, d) → ch ≠ '\n' →
      (scan c).rest.length < c.rest.length) (c : Cursor) :
    scan c = c ∨ (scan c).rest.length < c.rest.length := by
  cases next : c.next? with
  | none => exact .inl (at_end next)
  | some r =>
    obtain ⟨ch, d⟩ := r
    by_cases newline : ch = '\n'
    · subst newline
      exact .inl (at_break next)
    · exact .inr (elsewhere next newline)

/-! ## The rest of a line -/

theorem skipLine_end (h : c.next? = none) : skipLine c = c := by
  rw [skipLine]
  split
  · rfl
  · rename_i found
    rw [h] at found
    cases found

theorem skipLine_step (h : c.next? = some (ch, d)) :
    skipLine c = if ch = '\n' then c else skipLine d := by
  rw [skipLine]
  split
  · rename_i none_here
    rw [h] at none_here
    cases none_here
  · rename_i found
    rw [h] at found
    cases found
    rfl

theorem skipLine_newline (h : c.next? = some ('\n', d)) : skipLine c = c := by
  rw [skipLine_step h, if_pos rfl]

theorem skipLine_next (h : c.next? = some (ch, d)) (ne : ch ≠ '\n') : skipLine c = skipLine d := by
  rw [skipLine_step h, if_neg ne]

theorem skipLine_length_lt (h : c.next? = some (ch, d)) (no_break : ch ≠ '\n') :
    (skipLine c).rest.length < c.rest.length := by
  rw [skipLine_next h no_break]
  exact Nat.lt_of_le_of_lt (skipLine_length_le d) (next?_length_lt h)

/-! ## A block comment -/

theorem skipBlockComment_end (h : c.next? = none) : skipBlockComment c = c := by
  rw [skipBlockComment]
  split
  · rfl
  · rename_i found
    rw [h] at found
    cases found

theorem skipBlockComment_step (h : c.next? = some (ch, d)) :
    skipBlockComment c =
      if ch = '*' then
        match d.next? with
        | some ('/', e) => e
        | _ => skipBlockComment d
      else skipBlockComment d := by
  rw [skipBlockComment]
  split
  · rename_i none_here
    rw [h] at none_here
    cases none_here
  · rename_i found
    rw [h] at found
    cases found
    rfl

theorem skipBlockComment_close (h : c.next? = some ('*', d)) (hd : d.next? = some ('/', e)) :
    skipBlockComment c = e := by
  rw [skipBlockComment_step h, if_pos rfl, hd]
  rfl

theorem skipBlockComment_star (h : c.next? = some ('*', d)) (hd : ∀ e, d.next? ≠ some ('/', e)) :
    skipBlockComment c = skipBlockComment d := by
  rw [skipBlockComment_step h, if_pos rfl]
  split
  · rename_i he
    exact absurd he (hd _)
  · rfl

theorem skipBlockComment_next (h : c.next? = some (ch, d)) (ne : ch ≠ '*') :
    skipBlockComment c = skipBlockComment d := by
  rw [skipBlockComment_step h, if_neg ne]

theorem skipBlockComment_length_lt (h : c.next? = some (ch, d)) :
    (skipBlockComment c).rest.length < c.rest.length := by
  have first := next?_length_lt h
  have later := skipBlockComment_length_le d
  rw [skipBlockComment_step h]
  split
  · split
    · rename_i e he
      have second := next?_length_lt he
      omega
    · omega
  · omega

theorem skipBlockComment_eq_or_lt (c : Cursor) :
    skipBlockComment c = c ∨ (skipBlockComment c).rest.length < c.rest.length := by
  cases next : c.next? with
  | none => exact .inl (skipBlockComment_end next)
  | some r => exact .inr (skipBlockComment_length_lt next)

/-! ## A directive -/

theorem skipDirective_end (h : c.next? = none) : skipDirective c = c := by
  rw [skipDirective]
  split
  · rfl
  · rename_i found
    rw [h] at found
    cases found

theorem skipDirective_step (h : c.next? = some (ch, d)) :
    skipDirective c =
      if ch = '\n' then c
      else if ch = '/' then
        match d.next? with
        | some ('*', e) => skipDirective (skipBlockComment e)
        | some ('/', e) => skipLine e
        | _ => skipDirective d
      else skipDirective d := by
  rw [skipDirective]
  split
  · rename_i none_here
    rw [h] at none_here
    cases none_here
  · rename_i found
    rw [h] at found
    cases found
    split
    · rfl
    · split
      · split <;> simp_all
      · rfl

theorem skipDirective_newline (h : c.next? = some ('\n', d)) : skipDirective c = c := by
  rw [skipDirective_step h, if_pos rfl]

theorem skipDirective_comment (h : c.next? = some ('/', d)) (hd : d.next? = some ('*', e)) :
    skipDirective c = skipDirective (skipBlockComment e) := by
  rw [skipDirective_step h, if_neg (by decide), if_pos rfl, hd]
  rfl

theorem skipDirective_line (h : c.next? = some ('/', d)) (hd : d.next? = some ('/', e)) :
    skipDirective c = skipLine e := by
  rw [skipDirective_step h, if_neg (by decide), if_pos rfl, hd]
  rfl

theorem skipDirective_slash (h : c.next? = some ('/', d)) (no_comment : ∀ e, d.next? ≠ some ('*', e))
    (no_line : ∀ e, d.next? ≠ some ('/', e)) : skipDirective c = skipDirective d := by
  rw [skipDirective_step h, if_neg (by decide), if_pos rfl]
  split
  · rename_i he
    exact absurd he (no_comment _)
  · rename_i he
    exact absurd he (no_line _)
  · rfl

theorem skipDirective_next (h : c.next? = some (ch, d)) (no_break : ch ≠ '\n') (no_slash : ch ≠ '/') :
    skipDirective c = skipDirective d := by
  rw [skipDirective_step h, if_neg no_break, if_neg no_slash]

theorem skipDirective_length_lt (h : c.next? = some (ch, d)) (no_break : ch ≠ '\n') :
    (skipDirective c).rest.length < c.rest.length := by
  have first := next?_length_lt h
  have later := skipDirective_length_le d
  rw [skipDirective_step h, if_neg no_break]
  split
  · split
    · rename_i e he
      have second := next?_length_lt he
      have comment := skipBlockComment_length_le e
      have third := skipDirective_length_le (skipBlockComment e)
      omega
    · rename_i e he
      have second := next?_length_lt he
      have third := skipLine_length_le e
      omega
    · omega
  · omega

/-! ## A string -/

theorem skipString_end (h : c.next? = none) : skipString c = c := by
  rw [skipString]
  split
  · rfl
  · rename_i found
    rw [h] at found
    cases found

theorem skipString_step (h : c.next? = some (ch, d)) :
    skipString c =
      if ch = '\n' then c
      else if ch = '"' then d
      else if ch = '\\' then
        match d.next? with
        | none => d
        | some (_, e) => skipString e
      else skipString d := by
  rw [skipString]
  split
  · rename_i none_here
    rw [h] at none_here
    cases none_here
  · rename_i found
    rw [h] at found
    cases found
    split
    · rfl
    · split
      · rfl
      · split
        · split <;> simp_all
        · rfl

theorem skipString_newline (h : c.next? = some ('\n', d)) : skipString c = c := by
  rw [skipString_step h, if_pos rfl]

theorem skipString_quote (h : c.next? = some ('"', d)) : skipString c = d := by
  rw [skipString_step h, if_neg (by decide), if_pos rfl]

theorem skipString_escape (h : c.next? = some ('\\', d)) (hd : d.next? = some (ch, e)) :
    skipString c = skipString e := by
  rw [skipString_step h, if_neg (by decide), if_neg (by decide), if_pos rfl, hd]

theorem skipString_escape_end (h : c.next? = some ('\\', d)) (hd : d.next? = none) :
    skipString c = d := by
  rw [skipString_step h, if_neg (by decide), if_neg (by decide), if_pos rfl, hd]

theorem skipString_next (h : c.next? = some (ch, d)) (no_break : ch ≠ '\n') (no_quote : ch ≠ '"')
    (no_escape : ch ≠ '\\') : skipString c = skipString d := by
  rw [skipString_step h, if_neg no_break, if_neg no_quote, if_neg no_escape]

theorem skipString_length_lt (h : c.next? = some (ch, d)) (no_break : ch ≠ '\n') :
    (skipString c).rest.length < c.rest.length := by
  have first := next?_length_lt h
  have later := skipString_length_le d
  rw [skipString_step h, if_neg no_break]
  split
  · omega
  · split
    · split
      · omega
      · rename_i e he
        have second := next?_length_lt he
        have third := skipString_length_le e
        omega
    · omega

/-! ## A character literal -/

theorem closeCharacter?_escape (h : c.next? = some ('\\', d)) (hd : d.next? = some (ch, e))
    (no_break : ch ≠ '\n') : closeCharacter? c = closeEscape? maxEscape e := by
  simp [closeCharacter?, h, hd, no_break]

theorem closeCharacter?_plain (h : c.next? = some (ch, d)) (no_break : ch ≠ '\n')
    (no_escape : ch ≠ '\\') (hd : d.next? = some ('\'', e)) : closeCharacter? c = some e := by
  simp [closeCharacter?, h, hd, no_break, no_escape]

theorem closeCharacter?_open (h : c.next? = some (ch, d)) (no_escape : ch ≠ '\\')
    (opened : ∀ e, d.next? ≠ some ('\'', e)) : closeCharacter? c = none := by
  unfold closeCharacter?
  rw [h]
  dsimp only
  by_cases newline : ch = '\n'
  · rw [if_pos newline]
  · rw [if_neg newline, if_neg no_escape]
    split
    · rename_i quote
      exact absurd quote (opened _)
    · rfl

theorem closeCharacter?_cases (h : closeCharacter? c = some e) :
    ∃ ch d, c.next? = some (ch, d) ∧ ch ≠ '\n' ∧
      ((ch = '\\' ∧ ∃ ch' d', d.next? = some (ch', d') ∧ ch' ≠ '\n' ∧
          closeEscape? maxEscape d' = some e) ∨
        ch ≠ '\\' ∧ d.next? = some ('\'', e)) := by
  unfold closeCharacter? at h
  split at h
  · cases h
  · rename_i ch d here
    split at h
    · cases h
    · rename_i no_break
      refine ⟨ch, d, here, no_break, ?_⟩
      split at h
      · rename_i escape
        split at h
        · cases h
        · rename_i ch' d' next
          split at h
          · cases h
          · rename_i no_break'
            exact .inl ⟨escape, ch', d', next, no_break', h⟩
      · rename_i no_escape
        split at h
        · rename_i next
          cases h
          exact .inr ⟨no_escape, next⟩
        · cases h

end Literal
end LambdaTally
