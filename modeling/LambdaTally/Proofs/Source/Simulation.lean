import LambdaTally.Proofs.Source.Pieces
import LambdaTally.Proofs.Source.Reach
import LambdaTally.Proofs.Source.Scanners

/-!
# LambdaTally.Proofs.Source.Simulation

Two sources read side by side. A `Simulation` relates places of the one to places of the other so that
the next characters correspond, and behind them the places again. What the scanners do then corresponds
as well: from related places each comes to related places (`skipLine_follows` and its companions), and
the pieces that stand there are the same but for the offsets of brackets (`Simulation.reading`).

Two freedoms make the notion fit more than texts of the same characters. The second source may have a
carriage return before a line break of the first, and the first may go on, behind some line break, with
a text that has nothing to do with the second.
-/

namespace LambdaTally

open Cursor

/-- How the next characters of two places correspond: there are none, or they are the same, or a line
break stands on the one side and a carriage return before a line break on the other. -/
inductive Cursor.Abreast (alike : Cursor → Cursor → Prop) (beyond : Cursor → Prop) (returns : Prop)
    (c₁ c₂ : Cursor) : Prop where
  | ended : c₁.next? = none → c₂.next? = none → Abreast alike beyond returns c₁ c₂
  | same {ch : Char} {d₁ d₂ : Cursor} : c₁.next? = some (ch, d₁) → c₂.next? = some (ch, d₂) →
      alike d₁ d₂ ∨ ch = '\n' ∧ beyond d₁ → Abreast alike beyond returns c₁ c₂
  | returned {d₁ x d₂ : Cursor} : returns → c₁.next? = some ('\n', d₁) →
      c₂.next? = some ('\r', x) → x.next? = some ('\n', d₂) → alike c₁ x → alike d₁ d₂ →
      Abreast alike beyond returns c₁ c₂

/-- Places of two sources that correspond. `beyond` are the places of the first source that correspond
to none, `returns` says whether the second may have carriage returns of its own, and `offsets` which
offsets a bracket may have on the two sides. -/
structure Simulation where
  alike : Cursor → Cursor → Prop
  beyond : Cursor → Prop
  returns : Prop
  offsets : Nat → Nat → Prop
  abreast {c₁ c₂ : Cursor} : alike c₁ c₂ → Abreast alike beyond returns c₁ c₂
  onward {c d : Cursor} : beyond c → c.Leads d → beyond d
  raw {c₁ c₂ : Cursor} : alike c₁ c₂ → Option.Rel (fun d₁ d₂ => alike d₁ d₂ ∨ beyond d₁)
    (Piece.skipRawString? c₁) (Piece.skipRawString? c₂)
  square {c₁ c₂ d₁ : Cursor} : alike c₁ c₂ → c₁.next? = some ('[', d₁) → offsets c₁.offset c₂.offset

/-- The same piece on two sides, where a square bracket may have two offsets. -/
inductive Piece.Alike (offsets : Nat → Nat → Prop) : Piece → Piece → Prop where
  | square {o₁ o₂ : Nat} : offsets o₁ o₂ → Alike offsets (.square o₁) (.square o₂)
  | other {piece : Piece} : (∀ o, piece ≠ .square o) → Alike offsets piece piece

/-- If a string is the piece at the place, no line break is part of it. -/
def Piece.StaysOnLine (c : Cursor) (lineStart : Bool) (word : Word) : Prop :=
  ∀ e, read? c lineStart word = some (.string, e) → ∀ chars, c.Reads chars e → '\n' ∉ chars

namespace Simulation

variable {m : Simulation} {c₁ c₂ d₁ e₁ : Cursor} {ch : Char}

/-- The places correspond, or the first is beyond. -/
def Follows (m : Simulation) (c₁ c₂ : Cursor) : Prop := m.alike c₁ c₂ ∨ m.beyond c₁

/-! ## The next character -/

theorem next_none (h : m.alike c₁ c₂) (here : c₁.next? = none) : c₂.next? = none := by
  cases m.abreast h with
  | ended _ there => exact there
  | same found => rw [here] at found; cases found
  | returned _ found => rw [here] at found; cases found

theorem next_cases (h : m.alike c₁ c₂) (here : c₁.next? = some (ch, d₁)) :
    (∃ d₂, c₂.next? = some (ch, d₂) ∧ (m.alike d₁ d₂ ∨ ch = '\n' ∧ m.beyond d₁)) ∨
      m.returns ∧ ch = '\n' ∧ ∃ x d₂, c₂.next? = some ('\r', x) ∧ x.next? = some ('\n', d₂) ∧
        m.alike c₁ x ∧ m.alike d₁ d₂ := by
  cases m.abreast h with
  | ended found => rw [here] at found; cases found
  | same found there after =>
    rw [here] at found
    cases found
    exact .inl ⟨_, there, after⟩
  | returned returns found there newline before after =>
    rw [here] at found
    cases found
    exact .inr ⟨returns, rfl, _, _, there, newline, before, after⟩

theorem next_of_ne (h : m.alike c₁ c₂) (here : c₁.next? = some (ch, d₁)) (no_break : ch ≠ '\n') :
    ∃ d₂, c₂.next? = some (ch, d₂) ∧ m.alike d₁ d₂ := by
  rcases m.next_cases h here with ⟨d₂, there, after⟩ | ⟨-, newline, -⟩
  · exact ⟨d₂, there, after.resolve_right fun border => no_break border.1⟩
  · exact absurd newline no_break

/-- A character that does not stand next on the one side does not on the other. -/
theorem no_next (h : m.alike c₁ c₂) (no_return : ch ≠ '\r') (absent : ∀ d, c₁.next? ≠ some (ch, d)) :
    ∀ d, c₂.next? ≠ some (ch, d) := by
  intro d found
  cases m.abreast h with
  | ended _ there => rw [there] at found; cases found
  | same here there =>
    rw [there] at found
    cases found
    exact absent _ here
  | returned _ _ there =>
    rw [there] at found
    cases found
    exact no_return rfl

/-! ## Comments, directives and strings -/

open Literal

theorem skipLine_follows (h : m.alike c₁ c₂) : m.Follows (skipLine c₁) (skipLine c₂) := by
  fun_induction skipLine c₁ generalizing c₂ with
  | case1 c at_end =>
    rw [skipLine_end (m.next_none h at_end)]
    exact .inl h
  | case2 c d here =>
    rcases m.next_cases h here with ⟨d₂, there, -⟩ | ⟨-, -, x, d₂, there, newline, before, -⟩
    · rw [skipLine_newline there]
      exact .inl h
    · rw [skipLine_next there (by decide), skipLine_newline newline]
      exact .inl before
  | case3 c ch d here no_break ih =>
    obtain ⟨d₂, there, after⟩ := m.next_of_ne h here no_break
    rw [skipLine_next there no_break]
    exact ih after

theorem skipBlockComment_follows (h : m.alike c₁ c₂) :
    m.Follows (skipBlockComment c₁) (skipBlockComment c₂) := by
  fun_induction skipBlockComment c₁ generalizing c₂ with
  | case1 c at_end =>
    rw [skipBlockComment_end (m.next_none h at_end)]
    exact .inl h
  | case2 c d e close here =>
    obtain ⟨d₂, there, after⟩ := m.next_of_ne h here (by decide)
    obtain ⟨e₂, there', after'⟩ := m.next_of_ne after close (by decide)
    rw [skipBlockComment_close there there']
    exact .inl after'
  | case3 c d opened here ih =>
    obtain ⟨d₂, there, after⟩ := m.next_of_ne h here (by decide)
    rw [skipBlockComment_star there (m.no_next after (by decide) opened)]
    exact ih after
  | case4 c ch d here no_star ih =>
    rcases m.next_cases h here with
      ⟨d₂, there, after | ⟨-, border⟩⟩ | ⟨-, -, x, d₂, there, newline, -, after⟩
    · rw [skipBlockComment_next there no_star]
      exact ih after
    · exact .inr (m.onward border (leads_skipBlockComment d))
    · rw [skipBlockComment_next there (by decide), skipBlockComment_next newline (by decide)]
      exact ih after

theorem skipDirective_follows (h : m.alike c₁ c₂) :
    m.Follows (skipDirective c₁) (skipDirective c₂) := by
  fun_induction skipDirective c₁ generalizing c₂ with
  | case1 c at_end =>
    rw [skipDirective_end (m.next_none h at_end)]
    exact .inl h
  | case2 c d here =>
    rcases m.next_cases h here with ⟨d₂, there, -⟩ | ⟨-, -, x, d₂, there, newline, before, -⟩
    · rw [skipDirective_newline there]
      exact .inl h
    · rw [skipDirective_next there (by decide) (by decide), skipDirective_newline newline]
      exact .inl before
  | case3 c d e comment here _ ih =>
    obtain ⟨d₂, there, after⟩ := m.next_of_ne h here (by decide)
    obtain ⟨e₂, there', after'⟩ := m.next_of_ne after comment (by decide)
    rw [skipDirective_comment there there']
    rcases skipBlockComment_follows after' with closed | border
    · exact ih closed
    · exact .inr (m.onward border (leads_skipDirective _))
  | case4 c d e line here =>
    obtain ⟨d₂, there, after⟩ := m.next_of_ne h here (by decide)
    obtain ⟨e₂, there', after'⟩ := m.next_of_ne after line (by decide)
    rw [skipDirective_line there there']
    exact skipLine_follows after'
  | case5 c d no_comment no_line here _ ih =>
    obtain ⟨d₂, there, after⟩ := m.next_of_ne h here (by decide)
    rw [skipDirective_slash there (m.no_next after (by decide) no_comment)
      (m.no_next after (by decide) no_line)]
    exact ih after
  | case6 c ch d here no_break no_slash ih =>
    obtain ⟨d₂, there, after⟩ := m.next_of_ne h here no_break
    rw [skipDirective_next there no_break no_slash]
    exact ih after

/-- Where carriage returns make a difference the string must not take in a line break: a backslash
before one takes the line break itself on the one side, and only the return on the other. -/
theorem skipString_follows (h : m.alike c₁ c₂)
    (stays : m.returns → ∀ chars, c₁.Reads chars (skipString c₁) → '\n' ∉ chars) :
    m.Follows (skipString c₁) (skipString c₂) := by
  fun_induction skipString c₁ generalizing c₂ with
  | case1 c at_end =>
    rw [skipString_end (m.next_none h at_end)]
    exact .inl h
  | case2 c d here =>
    rcases m.next_cases h here with ⟨d₂, there, -⟩ | ⟨-, -, x, d₂, there, newline, before, -⟩
    · rw [skipString_newline there]
      exact .inl h
    · rw [skipString_next there (by decide) (by decide) (by decide), skipString_newline newline]
      exact .inl before
  | case3 c d here =>
    obtain ⟨d₂, there, after⟩ := m.next_of_ne h here (by decide)
    rw [skipString_quote there]
    exact .inl after
  | case4 c d at_end here =>
    obtain ⟨d₂, there, after⟩ := m.next_of_ne h here (by decide)
    rw [skipString_escape_end there (m.next_none after at_end)]
    exact .inl after
  | case5 c d ch e escaped here _ _ ih =>
    obtain ⟨d₂, there, after⟩ := m.next_of_ne h here (by decide)
    rcases m.next_cases after escaped with ⟨e₂, there', after' | ⟨-, border⟩⟩ | ⟨returns, rfl, -⟩
    · rw [skipString_escape there there']
      refine ih after' fun returns chars reads newline => ?_
      exact stays returns _ (.cons here (.cons escaped reads))
        (List.mem_cons_of_mem _ (List.mem_cons_of_mem _ newline))
    · exact .inr (m.onward border (leads_skipString e))
    · obtain ⟨chars, reads⟩ := leads_skipString e
      exact absurd (by simp) (stays returns _ (.cons here (.cons escaped reads)))
  | case6 c ch d here no_break no_quote no_escape ih =>
    obtain ⟨d₂, there, after⟩ := m.next_of_ne h here no_break
    rw [skipString_next there no_break no_quote no_escape]
    refine ih after fun returns chars reads newline => ?_
    exact stays returns _ (.cons here reads) (List.mem_cons_of_mem _ newline)

/-! ## Character literals

No character literal reaches over a line break, so these come to related places or to none. -/

variable {room : Nat}

theorem closeEscape?_newline (here : c₁.next? = some ('\n', d₁)) (room : Nat) :
    closeEscape? room c₁ = none := by
  cases room with
  | zero => rfl
  | succ room => simp [closeEscape?, here]

theorem closeEscape?_rel (room : Nat) (h : m.alike c₁ c₂) :
    Option.Rel m.alike (closeEscape? room c₁) (closeEscape? room c₂) := by
  induction room generalizing c₁ c₂ with
  | zero => exact .none
  | succ room ih =>
    cases here : c₁.next? with
    | none => simp [closeEscape?, here, m.next_none h here]
    | some r =>
      obtain ⟨ch, d₁⟩ := r
      by_cases newline : ch = '\n'
      · subst newline
        have there : closeEscape? (room + 1) c₂ = none := by
          rcases m.next_cases h here with ⟨d₂, there, -⟩ | ⟨-, -, x, d₂, there, newline, -⟩
          · exact closeEscape?_newline there _
          · simpa [closeEscape?, there] using closeEscape?_newline newline room
        rw [closeEscape?_newline here, there]
        exact .none
      · obtain ⟨d₂, there, after⟩ := m.next_of_ne h here newline
        by_cases quote : ch = '\''
        · simpa [closeEscape?, here, there, quote] using Option.Rel.some after
        · simpa [closeEscape?, here, there, quote, newline] using ih after

/-- Behind a backslash. -/
theorem closeEscaped?_rel {d₂ : Cursor} (here : c₁.next? = some ('\\', d₁))
    (there : c₂.next? = some ('\\', d₂)) (after : m.alike d₁ d₂) :
    Option.Rel m.alike (closeCharacter? c₁) (closeCharacter? c₂) := by
  cases escaped : d₁.next? with
  | none => simp [closeCharacter?, here, there, escaped, m.next_none after escaped]
  | some r =>
    obtain ⟨ch, e₁⟩ := r
    by_cases newline : ch = '\n'
    · subst newline
      have none_there : closeCharacter? c₂ = none := by
        rcases m.next_cases after escaped with ⟨e₂, there', -⟩ | ⟨-, -, x, e₂, there', newline, -⟩
        · simp [closeCharacter?, there, there']
        · rw [closeCharacter?_escape there there' (by decide), closeEscape?_newline newline]
      rw [none_there]
      simp [closeCharacter?, here, escaped]
    · obtain ⟨e₂, there', after'⟩ := m.next_of_ne after escaped newline
      rw [closeCharacter?_escape here escaped newline, closeCharacter?_escape there there' newline]
      exact closeEscape?_rel maxEscape after'

theorem closeCharacter?_rel (h : m.alike c₁ c₂) :
    Option.Rel m.alike (closeCharacter? c₁) (closeCharacter? c₂) := by
  cases here : c₁.next? with
  | none => simp [closeCharacter?, here, m.next_none h here]
  | some r =>
    obtain ⟨ch, d₁⟩ := r
    by_cases newline : ch = '\n'
    · subst newline
      have there : closeCharacter? c₂ = none := by
        rcases m.next_cases h here with ⟨d₂, there, -⟩ | ⟨-, -, x, d₂, there, newline, -⟩
        · simp [closeCharacter?, there]
        · simp [closeCharacter?, there, newline]
      rw [there]
      simp [closeCharacter?, here]
    obtain ⟨d₂, there, after⟩ := m.next_of_ne h here newline
    by_cases escape : ch = '\\'
    · subst escape
      exact closeEscaped?_rel here there after
    by_cases close : ∃ e₁, d₁.next? = some ('\'', e₁)
    · obtain ⟨e₁, close⟩ := close
      obtain ⟨e₂, close', after'⟩ := m.next_of_ne after close (by decide)
      rw [closeCharacter?_plain here newline escape close,
        closeCharacter?_plain there newline escape close']
      exact .some after'
    · have opened : ∀ e, d₁.next? ≠ some ('\'', e) := fun e he => close ⟨e, he⟩
      rw [closeCharacter?_open here escape opened,
        closeCharacter?_open there escape (m.no_next after (by decide) opened)]
      exact .none

/-! ## Pieces -/

open Piece

variable {d₂ : Cursor} {lineStart : Bool} {word : Word}

/-- Pieces that are the same and end at places that follow each other. -/
def Corresponds (m : Simulation) (r₁ r₂ : Piece × Cursor) : Prop :=
  Piece.Alike m.offsets r₁.1 r₂.1 ∧ m.Follows r₁.2 r₂.2

theorem corresponds {piece : Piece} (no_square : ∀ o, piece ≠ .square o) (h : m.Follows d₁ d₂) :
    m.Corresponds (piece, d₁) (piece, d₂) :=
  ⟨.other no_square, h⟩

theorem readSlash_corresponds (h : m.alike d₁ d₂) : m.Corresponds (readSlash d₁) (readSlash d₂) := by
  by_cases line : ∃ e, d₁.next? = some ('/', e)
  · obtain ⟨e₁, here⟩ := line
    obtain ⟨e₂, there, after⟩ := m.next_of_ne h here (by decide)
    rw [readSlash_line here, readSlash_line there]
    exact corresponds nofun (skipLine_follows after)
  by_cases block : ∃ e, d₁.next? = some ('*', e)
  · obtain ⟨e₁, here⟩ := block
    obtain ⟨e₂, there, after⟩ := m.next_of_ne h here (by decide)
    rw [readSlash_block here, readSlash_block there]
    exact corresponds nofun (skipBlockComment_follows after)
  have no_line : ∀ e, d₁.next? ≠ some ('/', e) := fun e he => line ⟨e, he⟩
  have no_block : ∀ e, d₁.next? ≠ some ('*', e) := fun e he => block ⟨e, he⟩
  rw [readSlash_plain no_line no_block,
    readSlash_plain (m.no_next h (by decide) no_line) (m.no_next h (by decide) no_block)]
  exact corresponds nofun (.inl h)

theorem readQuote_corresponds (h : m.alike d₁ d₂) (word : Word) :
    m.Corresponds (readQuote d₁ word) (readQuote d₂ word) := by
  by_cases number : word = .number
  · subst number
    exact corresponds nofun (.inl h)
  have both := closeCharacter?_rel h
  cases here : closeCharacter? d₁ <;> cases there : closeCharacter? d₂ <;> rw [here, there] at both
  · rw [readQuote_plain number here, readQuote_plain number there]
    exact corresponds nofun (.inl h)
  · cases both
  · cases both
  · cases both with
    | some after =>
      rw [readQuote_character number here, readQuote_character number there]
      exact corresponds nofun (.inl after)

theorem rawOrPlain_corresponds (h : m.alike c₁ c₂) (after : m.alike d₁ d₂) (word : Word) (ch : Char) :
    m.Corresponds (rawOrPlain c₁ d₁ word ch) (rawOrPlain c₂ d₂ word ch) := by
  unfold rawOrPlain
  split
  · have both := m.raw h
    cases here : skipRawString? c₁ <;> cases there : skipRawString? c₂ <;> rw [here, there] at both
    · exact corresponds nofun (.inl after)
    · cases both
    · cases both
    · cases both with
      | some behind => exact corresponds nofun behind
  · exact corresponds nofun (.inl after)

/-- What the loop reads at related places: nothing, the same piece, or a line break on the one side and
a blank before one on the other. -/
inductive Reading (m : Simulation) (c₁ c₂ : Cursor) (lineStart : Bool) (word : Word) : Prop where
  | ended : read? c₁ lineStart word = none → read? c₂ lineStart word = none →
      Reading m c₁ c₂ lineStart word
  | same {r₁ r₂ : Piece × Cursor} : read? c₁ lineStart word = some r₁ →
      read? c₂ lineStart word = some r₂ → m.Corresponds r₁ r₂ → Reading m c₁ c₂ lineStart word
  | returned {d₁ x d₂ : Cursor} : read? c₁ lineStart word = some (.newline, d₁) →
      read? c₂ lineStart word = some (.blank, x) → x.next? = some ('\n', d₂) → m.alike d₁ d₂ →
      Reading m c₁ c₂ lineStart word

theorem reading (h : m.alike c₁ c₂) (stays : m.returns → StaysOnLine c₁ lineStart word) :
    m.Reading c₁ c₂ lineStart word := by
  cases here : c₁.next? with
  | none => exact .ended (read?_end here) (read?_end (m.next_none h here))
  | some r =>
    obtain ⟨ch, d₁⟩ := r
    by_cases newline : ch = '\n'
    · subst newline
      rcases m.next_cases h here with ⟨d₂, there, after⟩ | ⟨-, -, x, d₂, there, newline, -, after⟩
      · exact .same (read?_newline here) (read?_newline there)
          (corresponds nofun (after.imp_right And.right))
      · exact .returned (read?_newline here) (read?_blank there (by decide) (by decide)) newline after
    obtain ⟨d₂, there, after⟩ := m.next_of_ne h here newline
    cases kind lineStart ch with
    | newline => exact absurd rfl newline
    | blank no_break blank =>
      exact .same (read?_blank here no_break blank) (read?_blank there no_break blank)
        (corresponds nofun (.inl after))
    | directive start =>
      subst start
      exact .same (read?_directive here) (read?_directive there)
        (corresponds nofun (skipDirective_follows after))
    | slash => exact .same (read?_slash here) (read?_slash there) (readSlash_corresponds after)
    | string =>
      refine .same (read?_string here) (read?_string there) (corresponds nofun ?_)
      refine skipString_follows after fun returns chars reads newline => ?_
      exact stays returns _ (read?_string here) _ (.cons here reads) (List.mem_cons_of_mem _ newline)
    | quote => exact .same (read?_quote here) (read?_quote there) (readQuote_corresponds after word)
    | square =>
      exact .same (read?_square here) (read?_square there) ⟨.square (m.square h here), .inl after⟩
    | letter letter =>
      exact .same (read?_raw here letter) (read?_raw there letter)
        (rawOrPlain_corresponds h after word ch)
    | plain ordinary =>
      exact .same (read?_plain here ordinary) (read?_plain there ordinary)
        (corresponds nofun (.inl after))

end Simulation
end LambdaTally
