import LambdaTally.Proofs.Source.Logical
import LambdaTally.Proofs.Structural.Simulation
import LambdaTally.Proofs.Tally

/-!
# LambdaTally.Proofs.LineEndings

Carriage returns before line breaks. A source without any reduces to the same text when every line
break of it gets one, as long as no string of it takes in a line break (`line_endings`).

A string is meant to end with its line, but a backslash takes the next character with it, whatever it
is. So a string goes on behind a backslash that comes to stand right before a line break, which one
left over from a splice does; with a return between them it takes in only that
(`line_endings_escape`).
-/

namespace LambdaTally

open Structural Utf8 Cursor Literal

/-- The text with a carriage return before every line break. -/
def crlf (text : List Char) : List Char :=
  text.flatMap fun ch => if ch = '\n' then ['\r', '\n'] else [ch]

section Text

variable {text word front more : List Char} {ch : Char}

theorem crlf_append (a b : List Char) : crlf (a ++ b) = crlf a ++ crlf b := List.flatMap_append

theorem crlf_newline (rest : List Char) : crlf ('\n' :: rest) = '\r' :: '\n' :: crlf rest := rfl

theorem crlf_cons (no_break : ch ≠ '\n') (rest : List Char) : crlf (ch :: rest) = ch :: crlf rest := by
  simp [crlf, no_break]

theorem crlf_of_not_mem (h : '\n' ∉ text) : crlf text = text := by
  induction text with
  | nil => rfl
  | cons ch text ih =>
    rw [List.mem_cons, not_or] at h
    rw [crlf_cons (Ne.symm h.1), ih h.2]

/-- Taking the returns out again gives back the text. -/
theorem filter_crlf (no_return : '\r' ∉ text) : (crlf text).filter (· ≠ '\r') = text := by
  induction text with
  | nil => rfl
  | cons ch text ih =>
    rw [List.mem_cons, not_or] at no_return
    by_cases newline : ch = '\n'
    · subst newline
      simpa [crlf_newline] using ih no_return.2
    · rw [crlf_cons newline]
      simpa [Ne.symm no_return.1] using ih no_return.2

theorem infix_of_infix_crlf (no_return : '\r' ∉ text) (plain : '\r' ∉ word)
    (h : word <:+: crlf text) : word <:+: text := by
  have filtered := h.filter (· ≠ '\r')
  rw [filter_crlf no_return] at filtered
  have all_plain : ∀ ch ∈ word, decide (ch ≠ '\r') = true := by
    rintro ch member
    exact decide_eq_true fun same => plain (same ▸ member)
  rwa [List.filter_eq_self.2 all_plain] at filtered

/-- What stands in front there, if it has no line break of its own, stands in front here. -/
theorem exists_of_crlf_eq_append (h : crlf text = front ++ more) (no_break : '\n' ∉ front)
    (no_return : '\r' ∉ front) : ∃ rest, text = front ++ rest := by
  induction front generalizing text with
  | nil => exact ⟨text, rfl⟩
  | cons ch front ih =>
    rw [List.mem_cons, not_or] at no_break no_return
    cases text with
    | nil => cases h
    | cons first text =>
      by_cases newline : first = '\n'
      · subst newline
        exact absurd (List.cons.inj h).1 no_return.1
      · rw [crlf_cons newline] at h
        obtain ⟨rfl, later⟩ := List.cons.inj h
        obtain ⟨rest, rfl⟩ := ih later no_break.2 no_return.2
        exact ⟨rest, rfl⟩

end Text

/-! ## Splices and raw strings -/

theorem startsSplice_crlf {text : List Char} (no_return : '\r' ∉ text)
    (h : startsSplice text = false) : startsSplice (crlf text) = false := by
  cases text with
  | nil => rfl
  | cons ch rest =>
    by_cases newline : ch = '\n'
    · subst newline
      rfl
    rw [crlf_cons newline]
    cases rest with
    | nil => exact h
    | cons next rest =>
      by_cases newline' : next = '\n'
      · subst newline'
        have no_slash : ch ≠ '\\' := by
          rintro rfl
          cases h
        rw [Bool.eq_false_iff, Ne, startsSplice_iff]
        rintro (⟨more, whole⟩ | ⟨more, whole⟩) <;> exact no_slash (List.cons.inj whole).1
      · have no_return' : next ≠ '\r' := by
          rintro rfl
          simp at no_return
        rw [crlf_cons newline', Bool.eq_false_iff, Ne, startsSplice_iff]
        rintro (⟨more, whole⟩ | ⟨more, whole⟩)
        · exact newline' (List.cons.inj (List.cons.inj whole).2).1
        · exact no_return' (List.cons.inj (List.cons.inj whole).2).1

theorem skipSplices_crlf {rest : List Char} (no_return : '\r' ∉ rest) (o₁ o₂ : Nat) :
    (skipSplices o₂ (crlf rest)).rest = crlf (skipSplices o₁ rest).rest := by
  fun_induction skipSplices o₁ rest generalizing o₂ with
  | case1 offset rest ih =>
    simp only [List.mem_cons, not_or] at no_return
    exact ih no_return.2.2 (o₂ + 3)
  | case2 offset rest => simp at no_return
  | case3 offset rest no_break _ =>
    have none_here : startsSplice rest = false := by
      rw [Bool.eq_false_iff, Ne, startsSplice_iff]
      rintro (⟨more, rfl⟩ | ⟨more, rfl⟩)
      · exact no_break _ rfl
      · simp at no_return
    rw [skipSplices_of_not_starts (startsSplice_crlf no_return none_here)]

namespace Literal

variable {e d body text : List Char}

/-- No line break and no return is part of what opens a raw string, or of what closes it. -/
theorem not_mem_opening (he : e ∈ encodings) (valid : ValidDelimiter (encode d)) {ch : Char}
    (control : ch = '\n' ∨ ch = '\r') : ch ∉ e ∧ ch ∉ d := by
  have plain : ∀ e ∈ encodings, '\n' ∉ e ∧ '\r' ∉ e := by decide
  have octet {ch : Char} {b : UInt8} (single : String.utf8EncodeChar ch = [b])
      (forbidden : isForbidden b = true) : ch ∉ d := by
    intro member
    have inside : b ∈ encode d := List.mem_flatMap.2 ⟨ch, member, by simp [single]⟩
    rw [(valid.2 b inside).1] at forbidden
    cases forbidden
  rcases control with rfl | rfl
  · exact ⟨(plain e he).1, octet (b := 0x0A) rfl (by decide)⟩
  · exact ⟨(plain e he).2, octet (b := 0x0D) rfl (by decide)⟩

theorem crlf_opening (he : e ∈ encodings) (valid : ValidDelimiter (encode d)) (body : List Char) :
    crlf (e ++ ('R' :: '"' :: d ++ '(' :: body)) = e ++ ('R' :: '"' :: d ++ '(' :: crlf body) := by
  obtain ⟨plain_e, plain_d⟩ := not_mem_opening he valid (.inl rfl)
  rw [crlf_append, crlf_append, crlf_of_not_mem plain_e, crlf_cons (by decide), crlf_cons (by decide),
    crlf_cons (by decide), crlf_of_not_mem plain_d]

theorem crlf_closing (he : e ∈ encodings) (valid : ValidDelimiter (encode d)) :
    crlf (')' :: d ++ ['"']) = ')' :: d ++ ['"'] := by
  obtain ⟨-, plain_d⟩ := not_mem_opening he valid (.inl rfl)
  exact crlf_of_not_mem (by simp [plain_d])

theorem not_infix_crlf (he : e ∈ encodings) (valid : ValidDelimiter (encode d))
    (no_return : '\r' ∉ body) (none_in : ¬ (')' :: d ++ ['"']) <:+: body) :
    ¬ (')' :: d ++ ['"']) <:+: crlf body := by
  obtain ⟨-, plain_d⟩ := not_mem_opening he valid (.inr rfl)
  exact fun inside => none_in (infix_of_infix_crlf no_return (by simp [plain_d]) inside)

theorem RawString.crlf (h : RawString text) (no_return : '\r' ∉ text) :
    RawString (LambdaTally.crlf text) := by
  obtain @⟨e, d, body, he, valid, none_in⟩ := h
  have plain : '\r' ∉ body := fun member => no_return (by simp [member])
  have written : LambdaTally.crlf (e ++ ('R' :: '"' :: d ++ '(' :: body ++ (')' :: d ++ ['"']))) =
      e ++ ('R' :: '"' :: d ++ '(' :: LambdaTally.crlf body ++ (')' :: d ++ ['"'])) := by
    have opening := crlf_opening he valid (body ++ (')' :: d ++ ['"']))
    rw [crlf_append body, crlf_closing he valid] at opening
    simpa using opening
  rw [written]
  exact .intro he valid (not_infix_crlf he valid plain none_in)

theorem OpenRawString.crlf (h : OpenRawString text) (no_return : '\r' ∉ text) :
    OpenRawString (LambdaTally.crlf text) := by
  obtain @⟨e, d, body, he, valid, none_in⟩ := h
  have plain : '\r' ∉ body := fun member => no_return (by simp [member])
  rw [crlf_opening he valid]
  exact .intro he valid (not_infix_crlf he valid plain none_in)

/-- A raw string stands there with returns if one stands here. -/
theorem prefixedRawLength?_crlf (no_return : '\r' ∉ text) :
    Option.Rel (fun n m => ∃ taken rest, text = taken ++ rest ∧ n = byteLength taken ∧
      m = byteLength (crlf taken)) (prefixedRawLength? text) (prefixedRawLength? (crlf text)) := by
  cases here : prefixedRawLength? text with
  | some n =>
    rcases rawString_or_open here with ⟨raw, rest, rfl, closed⟩ | opened
    · have plain : '\r' ∉ raw := fun member => no_return (List.mem_append_left rest member)
      rw [closed.length rest] at here
      cases here
      rw [crlf_append, (closed.crlf plain).length]
      exact .some ⟨raw, rest, rfl, rfl, rfl⟩
    · rw [opened.length] at here
      cases here
      rw [(opened.crlf no_return).length]
      exact .some ⟨text, [], (List.append_nil text).symm, rfl, rfl⟩
  | none =>
    cases there : prefixedRawLength? (crlf text) with
    | none => exact .none
    | some m =>
      -- an opening there has no line break in it, so it stands here as well
      obtain ⟨e, d, body, he, valid, whole⟩ := exists_opening there
      have newline := not_mem_opening he valid (.inl rfl)
      have returned := not_mem_opening he valid (.inr rfl)
      have split : crlf text = (e ++ ('R' :: '"' :: d ++ ['('])) ++ body := by
        rw [whole]
        simp
      obtain ⟨more, rfl⟩ := exists_of_crlf_eq_append split (by simp [newline]) (by simp [returned])
      obtain ⟨n, opened⟩ := exists_length_of_opening he valid more
      rw [show e ++ ('R' :: '"' :: d ++ ['(']) ++ more = e ++ ('R' :: '"' :: d ++ '(' :: more) by simp,
        opened] at here
      cases here

end Literal

/-! ## Reading side by side -/

/-- A place of the source and one of the source with returns: at the same character, or there behind
the return that stands before a line break. -/
structure Returned (c₁ c₂ : Cursor) : Prop where
  no_return : '\r' ∉ c₁.rest
  rest : c₂.rest = crlf c₁.rest ∨ ∃ more, c₁.rest = '\n' :: more ∧ c₂.rest = '\n' :: crlf more

namespace Returned

variable {c₁ c₂ : Cursor}

theorem skipSplices {rest : List Char} (no_return : '\r' ∉ rest) (o₁ o₂ : Nat) :
    Returned (Cursor.skipSplices o₁ rest) (Cursor.skipSplices o₂ (crlf rest)) := by
  refine ⟨?_, .inl (skipSplices_crlf no_return o₁ o₂)⟩
  obtain ⟨taken, whole, -⟩ := reaches_skipSplices o₁ rest
  have whole : rest = taken ++ (Cursor.skipSplices o₁ rest).rest := whole
  exact fun member => no_return (whole ▸ List.mem_append_right taken member)

theorem abreast (h : Returned c₁ c₂) : Abreast Returned (fun _ => False) True c₁ c₂ := by
  have next {c : Cursor} {ch : Char} {more : List Char} (here : c.rest = ch :: more) :
      c.next? = some (ch, Cursor.skipSplices (c.offset + ch.utf8Size) more) :=
    next?_eq_some_iff.2 ⟨more, here, rfl⟩
  have no_return := h.no_return
  rcases h.rest with there | ⟨more, here, there⟩
  · cases here : c₁.rest with
    | nil =>
      rw [here] at there
      exact .ended (by simp [next?, here]) (by simp [next?, there, crlf])
    | cons ch more =>
      rw [here, List.mem_cons, not_or] at no_return
      by_cases newline : ch = '\n'
      · subst newline
        rw [here, crlf_newline] at there
        -- the return is no part of a splice: what stands behind it starts none
        have plain : startsSplice ('\n' :: crlf more) = false := rfl
        have first := next there
        rw [skipSplices_of_not_starts plain] at first
        exact .returned trivial (next here) first (next rfl)
          ⟨h.no_return, .inr ⟨more, here, rfl⟩⟩ (.skipSplices no_return.2 _ _)
      · rw [here, crlf_cons newline] at there
        exact .same (next here) (next there) (.inl (.skipSplices no_return.2 _ _))
  · rw [here, List.mem_cons, not_or] at no_return
    exact .same (next here) (next there) (.inl (.skipSplices no_return.2 _ _))

theorem raw (h : Returned c₁ c₂) : Option.Rel (fun d₁ d₂ => Returned d₁ d₂ ∨ False)
    (Piece.skipRawString? c₁) (Piece.skipRawString? c₂) := by
  unfold Piece.skipRawString?
  rcases h.rest with there | ⟨more, here, there⟩
  · have both := prefixedRawLength?_crlf h.no_return
    rw [← there] at both
    cases first : prefixedRawLength? c₁.rest <;> cases second : prefixedRawLength? c₂.rest <;>
      rw [first, second] at both
    · exact .none
    · cases both
    · cases both
    · cases both with
      | some read =>
        obtain ⟨taken, rest, whole, rfl, rfl⟩ := read
        have no_return : '\r' ∉ rest := fun member =>
          h.no_return (whole ▸ List.mem_append_right taken member)
        rw [whole, crlf_append] at there
        refine .some (.inl ?_)
        rw [jump, jump, whole, there, dropOctets_byteLength, dropOctets_byteLength]
        exact .skipSplices no_return _ _
  · have no_raw (more : List Char) : prefixedRawLength? ('\n' :: more) = none := rfl
    rw [here, there, no_raw, no_raw]
    exact .none

end Returned

/-- A source read beside the same with returns. -/
def Simulation.returned : Simulation where
  alike := Returned
  beyond _ := False
  returns := True
  offsets _ _ := True
  abreast := Returned.abreast
  onward h _ := h
  raw := Returned.raw
  square _ _ := trivial

/-- No string that the loop reads in the source takes in a line break. -/
def StringsEnd (source : List Char) : Prop :=
  ∀ c d, Visits source c d → Piece.StaysOnLine c d.lineStart d.word

/-- **Line endings.** A source without carriage returns, in which every string ends on its line, has
the same structural text when each line break gets a return: the same brackets at the same positions,
and with them the same status and count. -/
theorem line_endings {source : List Char} (no_return : '\r' ∉ source) (ends : StringsEnd source) :
    (Structural.ofSource (crlf source)).text = (Structural.ofSource source).text ∧
      (Structural.ofSource (crlf source)).squares.map Prod.fst =
        (Structural.ofSource source).squares.map Prod.fst ∧
      ∀ sampling,
        (Outcome.ofSource sampling (crlf source)).skipReason? =
            (Outcome.ofSource sampling source).skipReason? ∧
          (Outcome.ofSource sampling (crlf source)).count? =
            (Outcome.ofSource sampling source).count? := by
  obtain ⟨text, -⟩ := Simulation.returned.ofSource (fun _ h => h) (.skipSplices no_return 0 0)
    fun _ => ends
  refine ⟨text.symm, ?_, Outcome.same_count text.symm⟩
  have positions := tabled_ofSource source
  rw [Structural.Tabled, text] at positions
  exact (tabled_ofSource (crlf source)).trans positions.symm

/-! ## Strings that end on their line -/

/-- A string takes in a line break only behind a backslash. -/
theorem Literal.escape_of_skipString {c : Cursor} {chars : List Char}
    (h : c.Reads chars (skipString c)) (newline : '\n' ∈ chars) : ['\\', '\n'] <:+: chars := by
  fun_induction skipString c generalizing chars with
  | case1 c at_end => simp [h.eq_nil] at newline
  | case2 c d here => simp [h.eq_nil] at newline
  | case3 c d here =>
    rcases h.of_next here with rfl | ⟨more, rfl, later⟩
    · cases newline
    · simp [later.eq_nil] at newline
  | case4 c d at_end here =>
    rcases h.of_next here with rfl | ⟨more, rfl, later⟩
    · cases newline
    · simp [later.eq_nil] at newline
  | case5 c d ch e escaped here _ _ ih =>
    rcases h.of_next here with rfl | ⟨more, rfl, later⟩
    · cases newline
    rcases later.of_next escaped with rfl | ⟨more, rfl, behind⟩
    · simp at newline
    by_cases first : ch = '\n'
    · subst first
      exact ⟨[], more, rfl⟩
    · have inside : '\n' ∈ more := by simpa [Ne.symm first] using newline
      exact (ih behind inside).trans ⟨['\\', ch], [], by simp⟩
  | case6 c ch d here no_break no_quote no_escape ih =>
    rcases h.of_next here with rfl | ⟨more, rfl, later⟩
    · cases newline
    · have inside : '\n' ∈ more := by simpa [Ne.symm no_break] using newline
      exact (ih later inside).trans ⟨[ch], [], by simp⟩

/-- Where no backslash is left before a line break, every string ends on its line. -/
theorem stringsEnd_of_unescaped {source : List Char} (h : ¬ ['\\', '\n'] <:+: unspliced source) :
    StringsEnd source := by
  intro c d visits e read chars reads newline
  obtain ⟨front, before⟩ := Steps.leads visits
  have whole : unspliced source = front ++ (chars ++ e.logical) := by
    rw [← logical_ofSource, logical_of_reads before, logical_of_reads reads]
  obtain ⟨x, next, rfl⟩ := Piece.exists_of_read?_string read
  rcases reads.of_next next with rfl | ⟨more, rfl, later⟩
  · cases newline
  · have escape := Literal.escape_of_skipString later (by simpa using newline)
    exact h (whole ▸ escape.trans ⟨front ++ ['"'], (Literal.skipString x).logical, by simp⟩)

theorem line_endings_string :
    (Structural.ofSource (crlf "a[\"\\\"[\n\"\\\n];[1]\n".toList)).text =
      (Structural.ofSource "a[\"\\\"[\n\"\\\n];[1]\n".toList).text := by
  have ends : StringsEnd "a[\"\\\"[\n\"\\\n];[1]\n".toList :=
    stringsEnd_of_unescaped (by decide)
  exact (line_endings (by decide) ends).1

/-- Behind an escaped backslash that a splice has left over, a string takes in the line break, and
with a return before that it does not. -/
theorem line_endings_escape :
    '\r' ∉ "\"\\\\\n\n[]\x7b\x7d\n".toList ∧
      (Structural.ofSource "\"\\\\\n\n[]\x7b\x7d\n".toList).text = "\"\" ".toList ∧
      (Structural.ofSource (crlf "\"\\\\\n\n[]\x7b\x7d\n".toList)).text =
        "\"\" []\x7b\x7d ".toList ∧
      ∀ sampling,
        (Outcome.ofSource sampling "\"\\\\\n\n[]\x7b\x7d\n".toList).count? = some 0 ∧
          (Outcome.ofSource sampling (crlf "\"\\\\\n\n[]\x7b\x7d\n".toList)).count? =
            some 1 := by
  have text : (Structural.ofSource "\"\\\\\n\n[]\x7b\x7d\n".toList).text = "\"\" ".toList := by
    decide +kernel
  have text_crlf : (Structural.ofSource (crlf "\"\\\\\n\n[]\x7b\x7d\n".toList)).text =
      "\"\" []\x7b\x7d ".toList := by decide +kernel
  have nested {text : List Char} (paired : verdict (scan 0 [] text) = none) : WellNested text :=
    (verdict_wellNested_iff text).1 paired
  refine ⟨by decide, text, text_crlf, fun sampling => ⟨?_, ?_⟩⟩
  · obtain ⟨-, count⟩ := Outcome.count?_ofSource sampling (nested (by rw [text]; decide +kernel))
    rw [count, text]
    decide +kernel
  · obtain ⟨-, count⟩ :=
      Outcome.count?_ofSource sampling (nested (by rw [text_crlf]; decide +kernel))
    rw [count, text_crlf]
    decide +kernel

end LambdaTally
