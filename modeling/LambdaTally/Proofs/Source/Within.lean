import LambdaTally.Proofs.Source.Reach
import LambdaTally.Proofs.Source.Scanners

/-!
# LambdaTally.Proofs.Source.Within

A source that stands among others. `c.within k behind` is the same place when `k` octets stand in
front of the source and `behind` follows it. Where no splice lies across the border (`Sealed`), the
logical characters are the same there (`next?_within`), and a scanner that stops before the border
stops at the same place: either because it does so without what follows, or because it leaves all of
that (`skipLine_within` and its companions).
-/

namespace LambdaTally

namespace Cursor

/-- The same place with octets in front of the source and a text behind it. -/
def within (skipped : Nat) (behind : List Char) (c : Cursor) : Cursor :=
  ⟨c.offset + skipped, c.rest ++ behind⟩

/-- No splice starts in the text and ends behind it. -/
def Sealed (text behind : List Char) : Prop :=
  ∀ part, part <:+ text → startsSplice part = false → startsSplice (part ++ behind) = false

namespace Sealed

variable {text behind : List Char}

theorem suffix {part : List Char} (h : Sealed text behind) (hs : part <:+ text) :
    Sealed part behind := fun _ hp => h _ (hp.trans hs)

theorem reaches {c d : Cursor} (h : Sealed c.rest behind) (hr : c.Reaches d) :
    Sealed d.rest behind := by
  obtain ⟨taken, whole, -⟩ := hr
  exact h.suffix ⟨taken, whole.symm⟩

theorem nil (text : List Char) : Sealed text [] := by
  intro part _ h
  rwa [List.append_nil]

theorem startsSplice_eq (h : Sealed text behind) : startsSplice behind = false :=
  h [] List.nil_suffix rfl

theorem apart (h : Sealed text behind) : Apart text behind := fun part hs _ => h part hs

theorem of_apart (h : Apart text behind) (plain : startsSplice behind = false) :
    Sealed text behind := by
  intro part hs none_here
  cases part with
  | nil => exact plain
  | cons ch part => exact h _ hs (List.cons_ne_nil _ _) none_here

/-- Whatever the text, a splice across the border would need a backslash or a line break there. -/
theorem of_head (text : List Char) {ch : Char} (h : ch ≠ '\\' ∧ ch ≠ '\n' ∧ ch ≠ '\r')
    (rest : List Char) : Sealed text (ch :: rest) := by
  intro part _ none_here
  rw [Bool.eq_false_iff] at *
  intro starts
  refine none_here (startsSplice_iff.2 ?_)
  rcases startsSplice_iff.1 starts with ⟨more, same⟩ | ⟨more, same⟩
  · rcases part with _ | ⟨a, _ | ⟨b, part⟩⟩
    · exact absurd (List.cons.inj same).1 h.1
    · exact absurd (List.cons.inj (List.cons.inj same).2).1 h.2.1
    · exact .inl ⟨part, by simp_all⟩
  · rcases part with _ | ⟨a, _ | ⟨b, _ | ⟨c, part⟩⟩⟩
    · exact absurd (List.cons.inj same).1 h.1
    · exact absurd (List.cons.inj (List.cons.inj same).2).1 h.2.2
    · exact absurd (List.cons.inj (List.cons.inj (List.cons.inj same).2).2).1 h.2.1
    · exact .inr ⟨part, by simp_all⟩

end Sealed

theorem skipSplices_within {rest behind : List Char} (h : Sealed rest behind) (offset skipped : Nat) :
    skipSplices (offset + skipped) (rest ++ behind) =
      (skipSplices offset rest).within skipped behind := by
  fun_induction skipSplices offset rest with
  | case1 offset rest ih =>
    have later := ih (h.suffix ⟨['\\', '\n'], rfl⟩)
    rw [Nat.add_right_comm] at later
    exact later
  | case2 offset rest ih =>
    have later := ih (h.suffix ⟨['\\', '\r', '\n'], rfl⟩)
    rw [Nat.add_right_comm] at later
    exact later
  | case3 offset rest no_break no_return =>
    have none_here : startsSplice rest = false := by
      unfold startsSplice
      split
      · exact absurd rfl (no_break _)
      · exact absurd rfl (no_return _)
      · rfl
    rw [skipSplices_of_not_starts (h rest (List.suffix_refl rest) none_here)]
    rfl

variable {c d : Cursor} {ch : Char} {k : Nat} {behind : List Char}

theorem next?_within (k : Nat) (sealed : Sealed c.rest behind) (h : c.next? = some (ch, d)) :
    (c.within k behind).next? = some (ch, d.within k behind) := by
  obtain ⟨rest, hr, rfl⟩ := next?_eq_some_iff.1 h
  have apart : Sealed rest behind := sealed.suffix ⟨[ch], hr.symm⟩
  refine next?_eq_some_iff.2 ⟨rest ++ behind, by simp [within, hr], ?_⟩
  rw [← skipSplices_within apart]
  simp [within, Nat.add_right_comm]

theorem rest_eq_nil (h : c.next? = none) : c.rest = [] := by
  unfold next? at h
  split at h
  · assumption
  · cases h

theorem exists_next? (h : c.rest ≠ []) : ∃ ch d, c.next? = some (ch, d) := by
  cases next : c.next? with
  | none => exact absurd (rest_eq_nil next) h
  | some r => exact ⟨r.1, r.2, rfl⟩

/-- The next character there is the one here, or the first of the text behind. -/
theorem next?_of_within (sealed : Sealed c.rest behind) (h : (c.within k behind).next? = some (ch, d)) :
    (∃ e, c.next? = some (ch, e) ∧ d = e.within k behind) ∨
      c.rest = [] ∧ d.rest.length < behind.length := by
  cases here : c.next? with
  | some r =>
    obtain ⟨ch', e⟩ := r
    rw [next?_within k sealed here] at h
    cases h
    exact .inl ⟨e, rfl, rfl⟩
  | none =>
    have empty := rest_eq_nil here
    have shorter := next?_length_lt h
    simp only [within, empty, List.nil_append] at shorter
    exact .inr ⟨empty, shorter⟩

/-- A scanner stops before the end of the source, or leaves all of the text behind it. -/
def Stops (scan : Cursor → Cursor) (k : Nat) (behind : List Char) (c : Cursor) : Prop :=
  (scan c).rest ≠ [] ∨ behind.length ≤ (scan (c.within k behind)).rest.length

/-- Reading on from here, a line break comes before the end of the source. -/
def Lined (c : Cursor) : Prop := ∃ d, c.Leads d ∧ d.rest.head? = some '\n'

theorem Lined.next?_ne_none (h : c.Lined) : c.next? ≠ none := by
  obtain ⟨d, ⟨chars, reads⟩, newline⟩ := h
  intro at_end
  cases reads with
  | nil => simp [rest_eq_nil at_end] at newline
  | cons hn _ =>
    rw [at_end] at hn
    cases hn

theorem Lined.rest_ne_nil (h : c.Lined) : c.rest ≠ [] := by
  intro empty
  exact h.next?_ne_none (by simp [next?, empty])

theorem Lined.of_leads (h : d.Lined) (leads : c.Leads d) : c.Lined := by
  obtain ⟨e, later, newline⟩ := h
  exact ⟨e, leads.trans later, newline⟩

theorem Lined.next (h : c.Lined) (hn : c.next? = some (ch, d)) (no_break : ch ≠ '\n') : d.Lined := by
  obtain ⟨e, ⟨chars, reads⟩, newline⟩ := h
  cases reads with
  | nil =>
    obtain ⟨rest, hr⟩ := rest_of_next hn
    rw [hr] at newline
    exact absurd (Option.some.inj newline) no_break
  | cons hn' later =>
    rw [hn] at hn'
    cases hn'
    exact ⟨e, ⟨_, later⟩, newline⟩

/-- The next character is already here, if what follows is left over or a line break comes. -/
theorem next?_of_near (sealed : Sealed c.rest behind) (h : (c.within k behind).next? = some (ch, d))
    (near : behind.length ≤ d.rest.length ∨ c.Lined) :
    ∃ e, c.next? = some (ch, e) ∧ d = e.within k behind := by
  obtain here | ⟨empty, shorter⟩ := next?_of_within sealed h
  · exact here
  · rcases near with keeps | lined
    · omega
    · exact absurd (by simp [next?, empty]) lined.next?_ne_none

end Cursor

namespace Literal

open Cursor

variable {c d : Cursor} {ch : Char} {k : Nat} {behind : List Char}

theorem not_stops {scan : Cursor → Cursor} (stops : Stops scan k behind c) (same : (scan c).rest = [])
    (beyond : (scan (c.within k behind)).rest.length < behind.length) : False := by
  rcases stops with inside | keeps
  · exact inside same
  · omega

/-- At the end of the source a scanner stays where it is, among others as well if it stops there. -/
theorem within_of_end {scan : Cursor → Cursor} (at_end : c.next? = none) (stays : scan c = c)
    (moves : scan (c.within k behind) = c.within k behind ∨
      (scan (c.within k behind)).rest.length < (c.within k behind).rest.length)
    (stops : Stops scan k behind c) : scan (c.within k behind) = (scan c).within k behind := by
  have empty := rest_eq_nil at_end
  rcases moves with same | shorter
  · rw [same, stays]
  · refine (not_stops stops (by rw [stays, empty]) ?_).elim
    simpa [within, empty] using shorter

theorem skipLine_within (sealed : Sealed c.rest behind) (stops : Stops skipLine k behind c) :
    skipLine (c.within k behind) = (skipLine c).within k behind := by
  fun_induction skipLine c with
  | case1 c at_end =>
    have moves := eq_or_lt skipLine_end skipLine_newline skipLine_length_lt (c.within k behind)
    rw [within_of_end at_end (skipLine_end at_end) moves stops, skipLine_end at_end]
  | case2 c d here => exact skipLine_newline (next?_within k sealed here)
  | case3 c ch d here newline ih =>
    have next := next?_within k sealed here
    rw [skipLine_next next newline]
    refine ih (sealed.reaches (reaches_next here)) ?_
    rwa [Stops, skipLine_next here newline, skipLine_next next newline] at stops

theorem skipBlockComment_within (sealed : Sealed c.rest behind)
    (stops : Stops skipBlockComment k behind c) :
    skipBlockComment (c.within k behind) = (skipBlockComment c).within k behind := by
  fun_induction skipBlockComment c with
  | case1 c at_end =>
    rw [within_of_end at_end (skipBlockComment_end at_end) (skipBlockComment_eq_or_lt _) stops, skipBlockComment_end at_end]
  | case2 c d e close here =>
    exact skipBlockComment_close (next?_within k sealed here)
      (next?_within k (sealed.reaches (reaches_next here)) close)
  | case3 c d opened here ih =>
    have next := next?_within k sealed here
    have sealed_d := sealed.reaches (reaches_next here)
    have same : skipBlockComment c = skipBlockComment d := skipBlockComment_star here opened
    by_cases close : ∃ e, (d.within k behind).next? = some ('/', e)
    · -- the comment closes behind the border only
      obtain ⟨e, close⟩ := close
      obtain ⟨e', close', -⟩ | ⟨empty, shorter⟩ := next?_of_within sealed_d close
      · exact absurd close' (opened e')
      · refine (not_stops stops ?_ ?_).elim
        · have at_end : d.next? = none := by simp [next?, empty]
          rw [same, skipBlockComment_end at_end, empty]
        · rwa [skipBlockComment_close next close]
    · have star := skipBlockComment_star next fun e he => close ⟨e, he⟩
      rw [star]
      refine ih sealed_d ?_
      rwa [Stops, same, star] at stops
  | case4 c ch d here no_star ih =>
    have next := next?_within k sealed here
    rw [skipBlockComment_next next no_star]
    refine ih (sealed.reaches (reaches_next here)) ?_
    rwa [Stops, skipBlockComment_next here no_star, skipBlockComment_next next no_star] at stops

theorem skipDirective_within (sealed : Sealed c.rest behind) (stops : Stops skipDirective k behind c) :
    skipDirective (c.within k behind) = (skipDirective c).within k behind := by
  fun_induction skipDirective c with
  | case1 c at_end =>
    have moves := eq_or_lt skipDirective_end skipDirective_newline skipDirective_length_lt (c.within k behind)
    rw [within_of_end at_end (skipDirective_end at_end) moves stops, skipDirective_end at_end]
  | case2 c d here => exact skipDirective_newline (next?_within k sealed here)
  | case3 c d e comment here _ ih =>
    have sealed_d := sealed.reaches (reaches_next here)
    have sealed_e := sealed_d.reaches (reaches_next comment)
    have next := next?_within k sealed here
    have next' := next?_within k sealed_d comment
    have here_eq := skipDirective_comment here comment
    have next_eq := skipDirective_comment next next'
    rw [Stops, here_eq, next_eq] at stops
    -- the comment inside stops as well, or the directive would not
    have inner : Stops skipBlockComment k behind e := by
      by_cases empty : (skipBlockComment e).rest = []
      · refine .inr (Nat.le_trans (stops.resolve_left fun inside => inside ?_)
          (skipDirective_length_le _))
        have at_end : (skipBlockComment e).next? = none := by simp [next?, empty]
        rw [skipDirective_end at_end, empty]
      · exact .inl empty
    have closed := skipBlockComment_within sealed_e inner
    rw [next_eq, closed]
    refine ih (sealed_e.reaches (leads_skipBlockComment e).reaches) ?_
    rwa [closed] at stops
  | case4 c d e line here =>
    have sealed_d := sealed.reaches (reaches_next here)
    have next := next?_within k sealed here
    have next' := next?_within k sealed_d line
    rw [skipDirective_line next next']
    refine skipLine_within (sealed_d.reaches (reaches_next line)) ?_
    rwa [Stops, skipDirective_line here line, skipDirective_line next next'] at stops
  | case5 c d no_comment no_line here _ ih =>
    have sealed_d := sealed.reaches (reaches_next here)
    have next := next?_within k sealed here
    have same : skipDirective c = skipDirective d := skipDirective_slash here no_comment no_line
    by_cases opens : ∃ ch e, (ch = '*' ∨ ch = '/') ∧ (d.within k behind).next? = some (ch, e)
    · -- a comment opens with a character behind the border
      obtain ⟨ch, e, opens, next'⟩ := opens
      obtain ⟨e', here', -⟩ | ⟨empty, shorter⟩ := next?_of_within sealed_d next'
      · rcases opens with rfl | rfl
        · exact absurd here' (no_comment e')
        · exact absurd here' (no_line e')
      · refine (not_stops stops ?_ ?_).elim
        · have at_end : d.next? = none := by simp [next?, empty]
          rw [same, skipDirective_end at_end, empty]
        · rcases opens with rfl | rfl
          · rw [skipDirective_comment next next']
            exact Nat.lt_of_le_of_lt (Nat.le_trans (skipDirective_length_le _)
              (skipBlockComment_length_le e)) shorter
          · rw [skipDirective_line next next']
            exact Nat.lt_of_le_of_lt (skipLine_length_le e) shorter
    · have slash := skipDirective_slash next (fun e he => opens ⟨_, e, .inl rfl, he⟩)
        fun e he => opens ⟨_, e, .inr rfl, he⟩
      rw [slash]
      refine ih sealed_d ?_
      rwa [Stops, same, slash] at stops
  | case6 c ch d here no_break no_slash ih =>
    have next := next?_within k sealed here
    rw [skipDirective_next next no_break no_slash]
    refine ih (sealed.reaches (reaches_next here)) ?_
    rwa [Stops, skipDirective_next here no_break no_slash,
      skipDirective_next next no_break no_slash] at stops

theorem skipString_within (sealed : Sealed c.rest behind) (stops : Stops skipString k behind c) :
    skipString (c.within k behind) = (skipString c).within k behind := by
  fun_induction skipString c with
  | case1 c at_end =>
    have moves := eq_or_lt skipString_end skipString_newline skipString_length_lt (c.within k behind)
    rw [within_of_end at_end (skipString_end at_end) moves stops, skipString_end at_end]
  | case2 c d here => exact skipString_newline (next?_within k sealed here)
  | case3 c d here => exact skipString_quote (next?_within k sealed here)
  | case4 c d at_end here =>
    have next := next?_within k sealed here
    have empty := rest_eq_nil at_end
    cases next' : (d.within k behind).next? with
    | none => exact skipString_escape_end next next'
    | some r =>
      obtain ⟨ch, e⟩ := r
      have shorter := next?_length_lt next'
      simp only [within, empty, List.nil_append] at shorter
      refine (not_stops stops (by rw [skipString_escape_end here at_end, empty]) ?_).elim
      rw [skipString_escape next next']
      exact Nat.lt_of_le_of_lt (skipString_length_le e) shorter
  | case5 c d ch e escaped here _ _ ih =>
    have sealed_d := sealed.reaches (reaches_next here)
    have next := next?_within k sealed here
    have next' := next?_within k sealed_d escaped
    rw [skipString_escape next next']
    refine ih (sealed_d.reaches (reaches_next escaped)) ?_
    rwa [Stops, skipString_escape here escaped, skipString_escape next next'] at stops
  | case6 c ch d here no_break no_quote no_escape ih =>
    have next := next?_within k sealed here
    rw [skipString_next next no_break no_quote no_escape]
    refine ih (sealed.reaches (reaches_next here)) ?_
    rwa [Stops, skipString_next here no_break no_quote no_escape,
      skipString_next next no_break no_quote no_escape] at stops

/-! ## Character literals

A literal that closes in the source closes there whatever follows. One that closes with what follows
closes in the source, if that is left over or a line break comes before. -/

variable {room : Nat} {e : Cursor}

theorem closeEscape?_within (sealed : Sealed c.rest behind) (h : closeEscape? room c = some d) :
    closeEscape? room (c.within k behind) = some (d.within k behind) := by
  induction room generalizing c with
  | zero => cases h
  | succ room ih =>
    rw [closeEscape?] at h ⊢
    cases here : c.next? with
    | none =>
      rw [here] at h
      cases h
    | some r =>
      obtain ⟨ch, next⟩ := r
      rw [here] at h
      rw [next?_within k sealed here]
      dsimp only at h ⊢
      split
      · rename_i quote
        rw [if_pos quote] at h
        cases h
        rfl
      · rename_i no_quote
        rw [if_neg no_quote] at h
        split
        · rename_i newline
          rw [if_pos newline] at h
          cases h
        · rename_i no_break
          rw [if_neg no_break] at h
          exact ih (sealed.reaches (reaches_next here)) h

theorem exists_closeEscape? (sealed : Sealed c.rest behind)
    (h : closeEscape? room (c.within k behind) = some e)
    (near : behind.length ≤ e.rest.length ∨ c.Lined) : ∃ d, closeEscape? room c = some d := by
  induction room generalizing c with
  | zero => cases h
  | succ room ih =>
    rw [closeEscape?] at h ⊢
    cases there : (c.within k behind).next? with
    | none =>
      rw [there] at h
      cases h
    | some r =>
      obtain ⟨ch, x⟩ := r
      rw [there] at h
      dsimp only at h
      by_cases quote : ch = '\''
      · rw [if_pos quote] at h
        cases h
        obtain ⟨d, here, -⟩ := next?_of_near sealed there near
        rw [here]
        exact ⟨d, if_pos quote⟩
      by_cases newline : ch = '\n'
      · rw [if_neg quote, if_pos newline] at h
        cases h
      · rw [if_neg quote, if_neg newline] at h
        have shorter := closeEscape?_length_lt h
        obtain ⟨d, here, rfl⟩ := next?_of_near sealed there (near.imp_left fun keeps => by omega)
        rw [here]
        dsimp only
        rw [if_neg quote, if_neg newline]
        exact ih (sealed.reaches (reaches_next here)) h
          (near.imp_right fun lined => lined.next here newline)

theorem closeCharacter?_within (sealed : Sealed c.rest behind) (h : closeCharacter? c = some d) :
    closeCharacter? (c.within k behind) = some (d.within k behind) := by
  obtain ⟨ch, e, here, no_break, ⟨rfl, ch', e', next, no_break', close⟩ | ⟨no_escape, quote⟩⟩ :=
    closeCharacter?_cases h
  · have sealed_e := sealed.reaches (reaches_next here)
    rw [closeCharacter?_escape (next?_within k sealed here) (next?_within k sealed_e next) no_break']
    exact closeEscape?_within (sealed_e.reaches (reaches_next next)) close
  · have sealed_e := sealed.reaches (reaches_next here)
    exact closeCharacter?_plain (next?_within k sealed here) no_break no_escape
      (next?_within k sealed_e quote)

theorem exists_closeCharacter? (sealed : Sealed c.rest behind)
    (h : closeCharacter? (c.within k behind) = some e)
    (near : behind.length ≤ e.rest.length ∨ c.Lined) : ∃ d, closeCharacter? c = some d := by
  obtain ⟨ch, x, there, no_break, ⟨rfl, ch', x', next, no_break', close⟩ | ⟨no_escape, quote⟩⟩ :=
    closeCharacter?_cases h
  · have second := next?_length_lt next
    have third := closeEscape?_length_lt close
    obtain ⟨d, here, rfl⟩ := next?_of_near sealed there (near.imp_left fun keeps => by omega)
    have sealed_d := sealed.reaches (reaches_next here)
    have near_d := near.imp_right fun lined => lined.next here no_break
    obtain ⟨d', next', rfl⟩ := next?_of_near sealed_d next (near_d.imp_left fun keeps => by omega)
    rw [closeCharacter?_escape here next' no_break']
    exact exists_closeEscape? (sealed_d.reaches (reaches_next next')) close
      (near_d.imp_right fun lined => lined.next next' no_break')
  · have second := next?_length_lt quote
    obtain ⟨d, here, rfl⟩ := next?_of_near sealed there (near.imp_left fun keeps => by omega)
    have near_d := near.imp_right fun lined => lined.next here no_break
    obtain ⟨d', quote', rfl⟩ := next?_of_near (sealed.reaches (reaches_next here)) quote near_d
    exact ⟨d', closeCharacter?_plain here no_break no_escape quote'⟩

end Literal
end LambdaTally
