import LambdaTally.Proofs.Structural.Steps
import LambdaTally.Proofs.Text.Trimming
import Mathlib.Data.List.Basic

/-!
# LambdaTally.Proofs.DigitSeparators

Quotes inside a number. Where a number begins, the loop copies it as it stands, quotes included, and
goes on as behind any other number (`NumberToken.steps`). So the structural texts of two sources that
differ in the quotes of a number differ in these quotes only (`digit_separators`).

`Draft.onto` is the frame of the argument: what is written behind a number is the same whatever stands
in front of it, but for the positions of the brackets (`reduceFrom_onto`).
-/

namespace LambdaTally

open Structural Utf8 Cursor

/-- A letter, a digit or the underscore, of ASCII. -/
def NumberChar (ch : Char) : Prop := ch.isAlphanum = true ∨ ch = '_'

instance (ch : Char) : Decidable (NumberChar ch) := inferInstanceAs (Decidable (_ ∨ _))

/-- What may follow the first digit of a number. A quote stands between two other characters. -/
inductive NumberRest : List Char → Prop where
  | nil : NumberRest []
  | char {ch : Char} {more : List Char} : NumberChar ch → NumberRest more → NumberRest (ch :: more)
  | separator {ch : Char} {more : List Char} : NumberChar ch → NumberRest more →
      NumberRest ('\'' :: ch :: more)

/-- A number, with or without quotes that separate its digits. -/
inductive NumberToken : List Char → Prop where
  | intro {digit : Char} {more : List Char} : digit.isDigit = true → NumberRest more →
      NumberToken (digit :: more)

/-- A number without the quotes that separate its digits. -/
def withoutSeparators (number : List Char) : List Char := number.filter (· ≠ '\'')

theorem withoutSeparators_cons {ch : Char} (other : ch ≠ '\'') (number : List Char) :
    withoutSeparators (ch :: number) = ch :: withoutSeparators number :=
  List.filter_cons_of_pos (by simpa using other)

theorem withoutSeparators_quote (number : List Char) :
    withoutSeparators ('\'' :: number) = withoutSeparators number :=
  List.filter_cons_of_neg (by simp)

theorem byteLength_withoutSeparators (number : List Char) :
    byteLength number = byteLength (withoutSeparators number) + number.count '\'' := by
  induction number with
  | nil => rfl
  | cons ch number ih =>
    by_cases quote : ch = '\''
    · subst quote
      have width : '\''.utf8Size = 1 := rfl
      rw [withoutSeparators_quote, List.count_cons_self, byteLength_cons, ih, width]
      omega
    · rw [withoutSeparators_cons quote, List.count_cons_of_ne quote, byteLength_cons, byteLength_cons, ih]
      omega

namespace NumberChar

variable {ch other : Char}

theorem of_digit (h : ch.isDigit = true) : NumberChar ch := by
  simp [NumberChar, Char.isAlphanum, h]

theorem isNameChar (h : NumberChar ch) : CharClass.isNameChar ch = true := by
  rcases h with letter | rfl
  · simp [CharClass.isNameChar, CharClass.isAlphanumeric, letter]
  · decide

theorem ne (h : NumberChar ch) (no_number : ¬ NumberChar other) : ch ≠ other := by
  rintro rfl
  exact no_number h

theorem isBlank_eq (h : NumberChar ch) : CharClass.isBlank ch = false := by
  rcases h with letter | rfl
  · exact CharClass.isBlank_of_isAlphanum letter
  · decide

theorem startsSplice_eq (h : NumberChar ch) (more : List Char) : startsSplice (ch :: more) = false := by
  rw [Bool.eq_false_iff, Ne, startsSplice_iff]
  rintro (⟨_, same⟩ | ⟨_, same⟩) <;>
    exact h.ne (by decide : ¬ NumberChar '\\') (List.cons.inj same).1

end NumberChar

theorem NumberRest.withoutSeparators {text : List Char} (h : NumberRest text) :
    NumberRest (withoutSeparators text) := by
  induction h with
  | nil => exact .nil
  | char letter _ ih =>
    rw [withoutSeparators_cons (letter.ne (by decide))]
    exact .char letter ih
  | separator letter _ ih =>
    rw [withoutSeparators_quote, withoutSeparators_cons (letter.ne (by decide))]
    exact .char letter ih

theorem NumberToken.withoutSeparators {number : List Char} (h : NumberToken number) :
    NumberToken (withoutSeparators number) := by
  cases h with
  | intro digit rest =>
    rw [withoutSeparators_cons ((NumberChar.of_digit digit).ne (by decide))]
    exact .intro digit rest.withoutSeparators

theorem NumberRest.notMem {text : List Char} {other : Char} (h : NumberRest text)
    (no_number : ¬ NumberChar other) (no_quote : other ≠ '\'') : other ∉ text := by
  induction h with
  | nil => exact List.not_mem_nil
  | char letter _ ih =>
    exact List.not_mem_cons_of_ne_of_not_mem (letter.ne no_number).symm ih
  | separator letter _ ih =>
    exact List.not_mem_cons_of_ne_of_not_mem no_quote
      (List.not_mem_cons_of_ne_of_not_mem (letter.ne no_number).symm ih)

theorem NumberToken.notMem {number : List Char} {other : Char} (h : NumberToken number)
    (no_number : ¬ NumberChar other) (no_quote : other ≠ '\'') : other ∉ number := by
  cases h with
  | intro digit rest =>
    exact List.not_mem_cons_of_ne_of_not_mem ((NumberChar.of_digit digit).ne no_number).symm
      (rest.notMem no_number no_quote)

/-! ## Reading a number -/

/-- A character of a number is a piece of its own, unless a raw string may start with it. -/
theorem Piece.read?_numberChar {c d : Cursor} {ch : Char} {lineStart : Bool} {word : Word}
    (h : c.next? = some (ch, d)) (letter : NumberChar ch)
    (inside : opensRaw ch = true → word ≠ .none) :
    read? c lineStart word = some (.plain ch, d) := by
  by_cases raw : opensRaw ch = true
  · rw [read?_raw h raw, rawOrPlain, if_neg (inside raw)]
  · refine read?_plain h ⟨?_, letter.isBlank_eq, ?_, ?_, ?_, ?_, ?_, by simpa using raw⟩
    · exact letter.ne (by decide)
    · exact fun start => letter.ne (by decide) start.1
    all_goals exact letter.ne (by decide)

variable {text : List Char}

/-- Inside a number, one more character of it. -/
theorem NumberChar.steps {ch : Char} (letter : NumberChar ch) (rest : List Char) (offset : Nat)
    (written : List Char) (length : Nat) (squares : List (Nat × Nat)) :
    Steps ⟨offset, ch :: rest⟩ ⟨written, length, squares, .number, false⟩
      (skipSplices (offset + ch.utf8Size) rest)
      ⟨ch :: written, length + ch.utf8Size, squares, .number, false⟩ := by
  have read : Piece.read? ⟨offset, ch :: rest⟩ false .number =
      some (.plain ch, skipSplices (offset + ch.utf8Size) rest) :=
    Piece.read?_numberChar rfl letter fun _ => nofun
  have step := Steps.single (d := ⟨written, length, squares, .number, false⟩) read
  simpa [Draft.add, Draft.push, Word.after, letter.isNameChar] using step

/-- Inside a number, all the rest of it. -/
theorem NumberRest.steps (h : NumberRest text) (rest : List Char) (offset : Nat)
    (written : List Char) (length : Nat) (squares : List (Nat × Nat)) :
    Steps (skipSplices offset (text ++ rest)) ⟨written, length, squares, .number, false⟩
      (skipSplices (offset + byteLength text) rest)
      ⟨text.reverse ++ written, length + byteLength text, squares, .number, false⟩ := by
  induction h generalizing offset written length with
  | nil => exact .refl
  | @char ch more letter _ ih =>
    have later := ih (offset + ch.utf8Size) (ch :: written) (length + ch.utf8Size)
    rw [List.cons_append, skipSplices_of_not_starts (letter.startsSplice_eq _)]
    simpa [Nat.add_assoc] using (letter.steps _ _ _ _ _).trans later
  | @separator ch more letter _ ih =>
    have later := ih (offset + 1 + ch.utf8Size) (ch :: '\'' :: written) (length + 1 + ch.utf8Size)
    have here : skipSplices offset ('\'' :: ch :: (more ++ rest)) =
        ⟨offset, '\'' :: ch :: (more ++ rest)⟩ := skipSplices_of_not_starts rfl offset
    have behind : skipSplices (offset + 1) (ch :: (more ++ rest)) =
        ⟨offset + 1, ch :: (more ++ rest)⟩ := skipSplices_of_not_starts (letter.startsSplice_eq _) _
    have read : Piece.read? ⟨offset, '\'' :: ch :: (more ++ rest)⟩ false .number =
        some (.digitSeparator, ⟨offset + 1, ch :: (more ++ rest)⟩) := by
      rw [← behind]
      exact Piece.read?_quote rfl
    have quote := Steps.single (d := ⟨written, length, squares, .number, false⟩) read
    have width : '\''.utf8Size = 1 := rfl
    rw [List.cons_append, List.cons_append, here]
    simpa [Nat.add_assoc, width] using quote.trans ((letter.steps _ _ _ _ _).trans later)

/-- A draft with a number written. -/
def Structural.Draft.number (d : Draft) (text : List Char) : Draft :=
  ⟨text.reverse ++ d.written, d.length + byteLength text, d.squares, .number, false⟩

/-- The loop copies a number, and is inside a number behind it. -/
theorem NumberToken.steps (h : NumberToken text) (rest : List Char) (offset : Nat) {d : Draft}
    (no_word : d.word = .none) :
    Steps ⟨offset, text ++ rest⟩ d (skipSplices (offset + byteLength text) rest) (d.number text) := by
  obtain @⟨digit, more, isDigit, inside⟩ := h
  have letter : NumberChar digit := .of_digit isDigit
  have later := inside.steps rest (offset + digit.utf8Size) (digit :: d.written)
    (d.length + digit.utf8Size) d.squares
  have first : Steps ⟨offset, digit :: more ++ rest⟩ d
      (skipSplices (offset + digit.utf8Size) (more ++ rest))
      ⟨digit :: d.written, d.length + digit.utf8Size, d.squares, .number, false⟩ := by
    have no_raw : Piece.opensRaw digit = false := by
      rw [Bool.eq_false_iff]
      simp only [Piece.opensRaw, Ne, Bool.or_eq_true, beq_iff_eq]
      rintro (((rfl | rfl) | rfl) | rfl) <;> cases isDigit
    have step := Steps.single (d := d)
      (Piece.read?_numberChar (c := ⟨offset, digit :: more ++ rest⟩) rfl letter (by simp [no_raw]))
    simpa [Draft.add, Draft.push, Word.after, letter.isNameChar, no_word, isDigit] using step
  simpa [Draft.number, Nat.add_assoc] using first.trans later

/-! ## Behind a number -/

namespace Structural

/-- The draft `d`, written behind another one. -/
def Draft.onto (front d : Draft) : Draft :=
  { d with
    written := d.written ++ front.written
    length := front.length + d.length
    squares := d.squares.map (fun entry => (front.length + entry.1, entry.2)) ++ front.squares }

variable {front : Draft}

theorem Draft.onto_space (ends : front.written.head? ≠ some ' ') (d : Draft) :
    (front.onto d).space = front.onto d.space := by
  have same : (front.onto d).written.head? = some ' ' ↔ d.written.head? = some ' ' := by
    obtain ⟨written, length, squares, word, lineStart⟩ := d
    cases written with
    | nil => simpa [Draft.onto] using ends
    | cons ch written => rfl
  unfold Draft.space
  by_cases space : d.written.head? = some ' '
  · rw [if_pos space, if_pos (same.2 space)]
    rfl
  · rw [if_neg space, if_neg (mt same.1 space)]
    rfl

theorem Draft.onto_add (ends : front.written.head? ≠ some ' ') (d : Draft) (piece : Piece) :
    (front.onto d).add piece = front.onto (d.add piece) := by
  cases piece with
  | newline => simp only [Draft.add, onto_space ends]; rfl
  | blank => exact onto_space ends d
  | blockComment => exact onto_space ends d
  | plain ch => simp [Draft.add, Draft.push, Draft.onto, Nat.add_assoc]
  | _ => rfl

theorem reduceFrom_onto (ends : front.written.head? ≠ some ' ') (c : Cursor) (d : Draft) :
    reduceFrom c (front.onto d) = front.onto (reduceFrom c d) := by
  fun_induction reduceFrom c d with
  | case1 c d at_end => exact reduceFrom_end at_end
  | case2 c d piece next hr ih =>
    have there : Piece.read? c (front.onto d).lineStart (front.onto d).word = some (piece, next) := hr
    rw [reduceFrom_step there, Draft.onto_add ends, ih]

/-- What a source leaves behind a number. -/
def behindNumber (rest : List Char) : Structural :=
  (reduceFrom (skipSplices 0 rest) ⟨[], 0, [], .number, false⟩).finish

/-- A structural text, a number behind it, and a structural text behind that. Its source stands `k`
octets further back than the source of the last. -/
def withNumber (before : Structural) (number : List Char) (k : Nat) (behind : Structural) : Structural where
  text := before.text ++ number ++ behind.text
  squares := before.squares ++
    behind.squares.map fun entry => (byteLength (before.text ++ number) + entry.1, entry.2 + k)

end Structural

variable {front number rest : List Char} {c : Cursor} {d : Draft}

/-- What a source with a number reduces to: what stands in front of the number does, the number, and
what is left behind a number. -/
theorem NumberToken.ofSource_eq (h : NumberToken number) (visits : Visits (front ++ number ++ rest) c d)
    (here : c.offset = byteLength front) (no_word : d.word = .none) :
    Structural.ofSource (front ++ number ++ rest) =
      (Structural.ofSource front).withNumber number (byteLength front + byteLength number)
        (behindNumber rest) := by
  have sealed : Sealed front (number ++ rest) := by
    cases h with
    | intro digit more =>
      have letter : NumberChar _ := .of_digit digit
      exact .of_head front ⟨letter.ne (by decide), letter.ne (by decide), letter.ne (by decide)⟩ _
  rw [List.append_assoc] at visits ⊢
  obtain ⟨rfl, written⟩ := visits.past here sealed
  have tabled : d.Tabled := written ▸ tabled_reduceFrom Draft.tabled_empty
  have alone : Structural.ofSource front = d.finish := written ▸ rfl
  have ends : ({ d.number number with squares := [] } : Draft).written.head? ≠ some ' ' := by
    have nonempty : number.reverse ≠ [] := by cases h; simp
    rw [Draft.number, List.head?_append_of_ne_nil _ nonempty, List.head?_reverse]
    exact fun last => h.notMem (by decide) (by decide) (List.mem_of_getLast? last)
  have behind : reduceFrom (skipSplices 0 rest) { d.number number with squares := [] } =
      Draft.onto { d.number number with squares := [] }
        (reduceFrom (skipSplices 0 rest) ⟨[], 0, [], .number, false⟩) :=
    reduceFrom_onto ends _ ⟨[], 0, [], .number, false⟩
  rw [visits.ofSource_eq, (h.steps rest _ no_word).reduceFrom_eq, reduceFrom_skipSplices, behind, alone]
  simp [withNumber, behindNumber, Draft.finish, Draft.moved, Draft.onto, Structural.moved, Draft.number,
    tabled.length_eq, byteLength_append, Function.comp_def]

variable {c₁ c₂ : Cursor} {d₁ d₂ : Draft}

/-- **Digit separators are transparent.** Let the loop come to a number outside of any word, in a source
and in the same source without the quotes between the digits of that number. Then both structural texts
are the same in front of the number, copy the number, and are the same behind it. The brackets in front
of it stand at the same places in both, and those behind it further on by the number of quotes, in the
text and in the source. -/
theorem digit_separators (token : NumberToken number)
    (visits₁ : Visits (front ++ number ++ rest) c₁ d₁) (here₁ : c₁.offset = byteLength front)
    (no_word₁ : d₁.word = .none)
    (visits₂ : Visits (front ++ withoutSeparators number ++ rest) c₂ d₂)
    (here₂ : c₂.offset = byteLength front) (no_word₂ : d₂.word = .none) :
    ∃ before behind earlier later,
      Structural.ofSource (front ++ number ++ rest) =
          ⟨before ++ number ++ behind, earlier ++ later.map fun entry =>
            (entry.1 + number.count '\'', entry.2 + number.count '\'')⟩ ∧
        Structural.ofSource (front ++ withoutSeparators number ++ rest) =
          ⟨before ++ withoutSeparators number ++ behind, earlier ++ later⟩ ∧
        Structural.ofSource front = ⟨before, earlier⟩ ∧
        (∀ entry ∈ earlier, entry.1 < byteLength before ∧ entry.2 < byteLength front) ∧
        ∀ entry ∈ later, byteLength (before ++ withoutSeparators number) ≤ entry.1 ∧
          byteLength (front ++ withoutSeparators number) ≤ entry.2 := by
  have width := byteLength_withoutSeparators number
  refine ⟨(Structural.ofSource front).text, (behindNumber rest).text, (Structural.ofSource front).squares,
    (behindNumber rest).squares.map fun entry =>
      (byteLength ((Structural.ofSource front).text ++ withoutSeparators number) + entry.1,
        entry.2 + (byteLength front + byteLength (withoutSeparators number))), ?_, ?_, rfl, ?_, ?_⟩
  · rw [token.ofSource_eq visits₁ here₁ no_word₁, withNumber, List.map_map]
    refine congrArg _ (congrArg _ (List.map_congr_left fun entry _ => Prod.ext ?_ ?_))
    · simp only [byteLength_append, Function.comp_apply]
      omega
    · simp only [Function.comp_apply]
      omega
  · exact token.withoutSeparators.ofSource_eq visits₂ here₂ no_word₂
  · intro entry member
    have listed := (mem_of_tabled (tabled_ofSource front)).1 (List.mem_map_of_mem member)
    exact ⟨listed.lt, (standsAt_of_mem_squares member).lt⟩
  · intro entry member
    obtain ⟨entry, -, rfl⟩ := List.mem_map.1 member
    rw [byteLength_append front]
    exact ⟨Nat.le_add_right _ _, Nat.le_add_left _ _⟩

/-- Behind a quote an `R` goes on with the number, so that no raw string starts there. -/
theorem digit_separators_letter :
    NumberToken "0'R".toList ∧
      ∃ before behind earlier later,
        Structural.ofSource "a[0'R\"(\"]b[1]".toList =
            ⟨before ++ "0'R".toList ++ behind, earlier ++ later.map fun entry =>
              (entry.1 + 1, entry.2 + 1)⟩ ∧
          Structural.ofSource "a[0R\"(\"]b[1]".toList =
            ⟨before ++ "0R".toList ++ behind, earlier ++ later⟩ := by
  have token : NumberToken "0'R".toList := .intro rfl (.separator (by decide) .nil)
  let rest := "\"(\"]b[1]".toList
  have visits₁ : Visits ("a[".toList ++ "0'R".toList ++ rest) ⟨2, "0'R\"(\"]b[1]".toList⟩
      ⟨"[a".toList, 2, [(1, 1)], .none, false⟩ := .cons rfl (.cons rfl .refl)
  have visits₂ : Visits ("a[".toList ++ withoutSeparators "0'R".toList ++ rest)
      ⟨2, "0R\"(\"]b[1]".toList⟩ ⟨"[a".toList, 2, [(1, 1)], .none, false⟩ := .cons rfl (.cons rfl .refl)
  obtain ⟨before, behind, earlier, later, quoted, plain, -⟩ :=
    digit_separators token visits₁ rfl rfl visits₂ rfl rfl
  exact ⟨token, before, behind, earlier, later, quoted, plain⟩

end LambdaTally
