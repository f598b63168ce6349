import LambdaTally.Json.Reader
import Mathlib.Data.List.Basic

/-!
# LambdaTally.Proofs.Json.ReadBack

Reading a document back from its compact form. A string is read back character by character, as the
reader undoes the escape of every character (`readString?_escape`), and a natural number digit by digit.
What stands behind a value ends it (`Closed`), so values are read back inside arrays and objects too, and
one lemma for each form of a document puts them together (`ReadsBack.array`, `ReadsBack.object`).
-/

namespace LambdaTally
namespace Json

/-! ## Strings -/

theorem hexValue?_hexDigit : ∀ n < 16, hexValue? (hexDigit n) = some n := by decide

section Strings

variable {c d : Char} {read rest tail : List Char}

theorem readString?_close : readString? read ('"' :: rest) = some (read.reverse, rest) := by
  rw [readString?]
  simp

theorem readString?_backslash (h : readEscape? rest = some (d, tail)) :
    readString? read ('\\' :: rest) = readString? (d :: read) tail := by
  rw [readString?]
  simp only [Char.reduceEq, if_false, if_true]
  split
  · rename_i found
    rw [h] at found
    cases found
    rfl
  · rename_i found
    rw [h] at found
    cases found

theorem readString?_plain (quote : c ≠ '"') (backslash : c ≠ '\\') (printed : ¬ c.toNat < 0x20) :
    readString? read (c :: rest) = readString? (c :: read) rest := by
  rw [readString?]
  simp [quote, backslash, printed]

theorem readEscape?_code (small : c.toNat < 0x20) :
    readEscape? ('u' :: '0' :: '0' :: hexDigit (c.toNat / 16) :: hexDigit (c.toNat % 16) :: rest) =
      some (c, rest) := by
  have zero : hexValue? '0' = some 0 := rfl
  have high := hexValue?_hexDigit (c.toNat / 16) (by omega)
  have low := hexValue?_hexDigit (c.toNat % 16) (by omega)
  have unit : readUnit? ('0' :: '0' :: hexDigit (c.toNat / 16) :: hexDigit (c.toNat % 16) :: rest) =
      some (c.toNat, rest) := by
    simp only [readUnit?, zero, high, low, Option.bind_eq_bind, Option.bind_some, Option.pure_def]
    have value : (0 * 16 + 0) * 256 + c.toNat / 16 * 16 + c.toNat % 16 = c.toNat := by omega
    rw [value]
  rw [readEscape?, readCode?, unit]
  simp only
  rw [if_neg (by omega), if_neg (by omega), Char.ofNat_toNat]

/-- The reader undoes the escape of a character. -/
theorem readString?_escape (c : Char) (read rest : List Char) :
    readString? read (escape c ++ rest) = readString? (c :: read) rest := by
  unfold escape
  -- The seven characters with a short escape.
  iterate 7
    split
    · subst c
      exact readString?_backslash rfl
  split
  · rename_i small
    exact readString?_backslash (readEscape?_code small)
  · exact readString?_plain ‹_› ‹_› ‹_›

theorem readString?_flatMap_escape (text read rest : List Char) :
    readString? read (text.flatMap escape ++ '"' :: rest) = some (read.reverse ++ text, rest) := by
  induction text generalizing read with
  | nil => rw [List.flatMap_nil, List.nil_append, readString?_close, List.append_nil]
  | cons c text ih =>
    rw [List.flatMap_cons, List.append_assoc, readString?_escape, ih, List.reverse_cons,
      List.append_assoc]
    rfl

end Strings

/-! ## Natural numbers -/

theorem digitsValue_toDigits (n : Nat) : digitsValue (Nat.toDigits 10 n) = n := by
  have same (digits : List Char) : digitsValue digits = Nat.ofDigitChars 10 digits 0 := by
    simp only [digitsValue, Nat.ofDigitChars, Nat.mul_comm]
  rw [same, Nat.ofDigitChars_ten_toDigits]

theorem isDigit_of_mem {n : Nat} {c : Char} (h : c ∈ Nat.toDigits 10 n) : c.isDigit = true :=
  Nat.isDigit_of_mem_toDigits (by decide) (by decide) h

/-- Only zero is written with a zero in front. -/
theorem head?_toDigits {n : Nat} (pos : n ≠ 0) : (Nat.toDigits 10 n).head? ≠ some '0' := by
  induction n using Nat.strongRecOn with
  | ind n ih =>
    rw [Nat.toDigits_eq_if (by decide)]
    split
    · rename_i small
      have nonzero : ∀ m < 10, m ≠ 0 → [Nat.digitChar m].head? ≠ some '0' := by decide
      exact nonzero n small pos
    · rw [List.head?_append_of_ne_nil _ Nat.toDigits_ne_nil]
      exact ih (n / 10) (by omega) (by omega)

/-- Nothing follows a document, or a sign that ends an item or a field. -/
def Closed (rest : List Char) : Prop := ∀ c ∈ rest.head?, c = ',' ∨ c = ']' ∨ c = '\x7d'

theorem closed_nil : Closed [] := fun _ member => (nomatch member)

theorem closed_cons {c : Char} {rest : List Char} (h : c = ',' ∨ c = ']' ∨ c = '\x7d') :
    Closed (c :: rest) := by
  intro d member
  rwa [← Option.some.inj (Option.mem_def.1 member)]

section Numbers

variable {rest : List Char}

theorem Closed.takeWhile_isDigit (h : Closed rest) :
    rest.takeWhile Char.isDigit = [] ∧ rest.dropWhile Char.isDigit = rest := by
  cases rest with
  | nil => exact ⟨rfl, rfl⟩
  | cons c rest =>
    have other : c.isDigit = false := by
      rcases h c rfl with rfl | rfl | rfl <;> rfl
    simp [other]

theorem Closed.readFraction?_eq (h : Closed rest) : readFraction? rest = some ([], rest) := by
  cases rest with
  | nil => rfl
  | cons c rest => rcases h c rfl with rfl | rfl | rfl <;> rfl

theorem Closed.readExponent?_eq (h : Closed rest) : readExponent? rest = some (none, rest) := by
  cases rest with
  | nil => rfl
  | cons c rest => rcases h c rfl with rfl | rfl | rfl <;> rfl

theorem readWhole?_toDigits (n : Nat) (h : Closed rest) :
    readWhole? (Nat.toDigits 10 n ++ rest) = some (n, rest) := by
  obtain ⟨none_taken, all_left⟩ := h.takeWhile_isDigit
  by_cases zero : n = 0
  · subst zero
    rw [Nat.toDigits_zero, List.singleton_append, readWhole?, if_neg]
    cases rest with
    | nil => simp
    | cons c rest => rcases h c rfl with rfl | rfl | rfl <;> simp
  · have taken : (Nat.toDigits 10 n ++ rest).takeWhile Char.isDigit = Nat.toDigits 10 n := by
      rw [List.takeWhile_append_of_pos fun c => isDigit_of_mem, none_taken, List.append_nil]
    have left : (Nat.toDigits 10 n ++ rest).dropWhile Char.isDigit = rest := by
      rw [List.dropWhile_append_of_pos fun c => isDigit_of_mem, all_left]
    unfold readWhole?
    split
    · rename_i same
      refine absurd ?_ (head?_toDigits zero)
      rw [← List.head?_append_of_ne_nil _ Nat.toDigits_ne_nil, same]
      rfl
    · simp only [taken, left, Nat.toDigits_ne_nil, if_false, digitsValue_toDigits]

end Numbers

/-! ## Documents -/

/-- The document is read back from its compact form, whatever ends it there. -/
def ReadsBack (j : Json) : Prop :=
  ∀ fuel rest, j.compact.length ≤ fuel → Closed rest →
    readValue? fuel (j.compact ++ rest) = some (j, rest)

theorem skipBlanks_cons {c : Char} (rest : List Char) (h : isBlank c = false) :
    skipBlanks (c :: rest) = c :: rest := by
  simp [skipBlanks, h]

theorem isBlank_of_isDigit {c : Char} (h : c.isDigit = true) : isBlank c = false := by
  refine Bool.eq_false_iff.2 fun blank => ?_
  simp only [isBlank, Bool.or_eq_true, beq_iff_eq] at blank
  rcases blank with ((rfl | rfl) | rfl) | rfl <;> cases h

/-- A document starts with a sign of its own, never with a blank or the end of an array. -/
theorem exists_head (j : Json) : ∃ c tail, j.compact = c :: tail ∧ isBlank c = false ∧ c ≠ ']' := by
  cases j with
  | null => exact ⟨'n', _, rfl, rfl, by decide⟩
  | bool value =>
    cases value with
    | false => exact ⟨'f', _, rfl, rfl, by decide⟩
    | true => exact ⟨'t', _, rfl, rfl, by decide⟩
  | number n =>
    obtain ⟨c, digits, written⟩ := List.exists_cons_of_ne_nil (Nat.toDigits_ne_nil (n := n.whole) (b := 10))
    cases negative : n.negative with
    | true => exact ⟨'-', _, by rw [compact, Numeral.write, negative]; rfl, rfl, by decide⟩
    | false =>
      have digit : c.isDigit = true := isDigit_of_mem (by rw [written]; exact List.mem_cons_self)
      refine ⟨c, _, by rw [compact, Numeral.write, negative, written]; rfl, isBlank_of_isDigit digit, ?_⟩
      rintro rfl
      cases digit
  | string text => exact ⟨'"', _, by rw [compact, quote]; rfl, rfl, by decide⟩
  | array items => exact ⟨'[', _, by rw [compact]; rfl, rfl, by decide⟩
  | object fields => exact ⟨'\x7b', _, by rw [compact]; rfl, rfl, by decide⟩

theorem readsBack_string (text : List Char) : ReadsBack (string text) := by
  intro fuel rest enough _
  have written : (string text).compact ++ rest = '"' :: (text.flatMap escape ++ '"' :: rest) := by
    rw [compact, quote]
    simp
  cases fuel with
  | zero => simp [compact, quote] at enough
  | succ fuel =>
    rw [written, readValue?, skipBlanks_cons _ rfl]
    simp only [readString?_flatMap_escape]
    rfl

theorem readValue?_digit {c : Char} (digit : c.isDigit = true) (fuel : Nat) {n : Numeral}
    {behind rest : List Char} (read : readUnsigned? false (c :: behind) = some (n, rest)) :
    readValue? (fuel + 1) (c :: behind) = some (number n, rest) := by
  have numeral : readNumeral? (c :: behind) = some (n, rest) := by
    unfold readNumeral?
    split
    · rename_i same
      cases same
      cases digit
    · exact read
  rw [readValue?, skipBlanks_cons _ (isBlank_of_isDigit digit)]
  split
  case h_7 =>
    rw [numeral]
    rfl
  all_goals
    rename_i same
    cases same
    cases digit

theorem compact_natural (n : Nat) : (natural n).compact = Nat.toDigits 10 n := by
  simp [natural, compact, Numeral.write, Numeral.ofNat]

theorem readsBack_natural (n : Nat) : ReadsBack (natural n) := by
  intro fuel rest enough closed
  have read : readUnsigned? false (Nat.toDigits 10 n ++ rest) = some (.ofNat n, rest) := by
    rw [readUnsigned?, readWhole?_toDigits n closed]
    simp only [closed.readFraction?_eq, closed.readExponent?_eq]
    rfl
  obtain ⟨c, digits, first⟩ := List.exists_cons_of_ne_nil (Nat.toDigits_ne_nil (n := n) (b := 10))
  have digit : c.isDigit = true := isDigit_of_mem (by rw [first]; exact List.mem_cons_self)
  cases fuel with
  | zero => simp [compact_natural] at enough
  | succ fuel =>
    rw [compact_natural]
    rw [first] at read ⊢
    exact readValue?_digit digit fuel read

/-- Items that are read back one by one are read back in a row. -/
theorem readItems?_compactItems {item : Json} {items : List Json}
    (each : ∀ j ∈ item :: items, ReadsBack j) {fuel : Nat}
    (enough : (compactItems (item :: items)).length < fuel) (read : List Json) (rest : List Char) :
    readItems? fuel read (compactItems (item :: items) ++ ']' :: rest) =
      some (read.reverse ++ item :: items, rest) := by
  induction items generalizing item fuel read with
  | nil =>
    obtain ⟨fuel, rfl⟩ := Nat.exists_eq_add_one_of_ne_zero (Nat.ne_zero_of_lt enough)
    have first : ReadsBack item := each item List.mem_cons_self
    rw [compactItems] at enough ⊢
    rw [readItems?, first fuel _ (by omega) (closed_cons (by decide))]
    simp only [skipBlanks_cons rest (show isBlank ']' = false from rfl), List.reverse_cons]
  | cons next items ih =>
    obtain ⟨fuel, rfl⟩ := Nat.exists_eq_add_one_of_ne_zero (Nat.ne_zero_of_lt enough)
    obtain ⟨first, others⟩ := List.forall_mem_cons.1 each
    have more : compactItems (item :: next :: items) =
        item.compact ++ ',' :: compactItems (next :: items) := rfl
    rw [more, List.length_append, List.length_cons] at enough
    rw [more, List.append_assoc, List.cons_append, readItems?,
      first fuel _ (by omega) (closed_cons (by decide))]
    simp only [skipBlanks_cons _ (show isBlank ',' = false from rfl)]
    rw [ih others (by omega) (item :: read), List.reverse_cons, List.append_assoc]
    rfl

theorem readValue?_bracket {fuel : Nat} {c : Char} {tail rest : List Char} {items : List Json}
    (solid : isBlank c = false) (unclosed : c ≠ ']')
    (row : readItems? fuel [] (c :: tail) = some (items, rest)) :
    readValue? (fuel + 1) ('[' :: c :: tail) = some (array items, rest) := by
  rw [readValue?, skipBlanks_cons _ rfl]
  simp only [skipBlanks_cons _ solid]
  split
  · rename_i same
    cases same
    exact absurd rfl unclosed
  · rw [row]
    rfl

theorem ReadsBack.array {items : List Json} (each : ∀ item ∈ items, ReadsBack item) :
    ReadsBack (array items) := by
  intro fuel rest enough _
  have written : (Json.array items).compact ++ rest = '[' :: (compactItems items ++ ']' :: rest) := by
    simp [compact]
  rw [compact, List.length_append, List.length_cons, List.length_singleton] at enough
  obtain ⟨fuel, rfl⟩ := Nat.exists_eq_add_one_of_ne_zero (show fuel ≠ 0 by omega)
  rw [written]
  cases items with
  | nil => rfl
  | cons item items =>
    have row := readItems?_compactItems each (show _ < fuel by omega) [] rest
    obtain ⟨c, tail, head, solid, unclosed⟩ : ∃ c tail,
        compactItems (item :: items) ++ ']' :: rest = c :: tail ∧ isBlank c = false ∧ c ≠ ']' := by
      obtain ⟨c, tail, head, solid, unclosed⟩ := exists_head item
      cases items with
      | nil => exact ⟨c, _, by rw [compactItems, head]; rfl, solid, unclosed⟩
      | cons next items =>
        have more : compactItems (item :: next :: items) =
            item.compact ++ ',' :: compactItems (next :: items) := rfl
        exact ⟨c, _, by rw [more, head]; rfl, solid, unclosed⟩
    rw [head] at row ⊢
    exact readValue?_bracket solid unclosed row

section Fields

variable {fuel : Nat} {read : List (List Char × Json)} {name behind rest : List Char} {value : Json}

theorem readFields?_comma (first : readValue? fuel behind = some (value, ',' :: rest)) :
    readFields? (fuel + 1) read ('"' :: (name.flatMap escape ++ '"' :: ':' :: behind)) =
      readFields? fuel ((name, value) :: read) rest := by
  rw [readFields?, skipBlanks_cons _ rfl]
  simp only [readString?_flatMap_escape, List.reverse_nil, List.nil_append,
    skipBlanks_cons _ (show isBlank ':' = false from rfl), first,
    skipBlanks_cons _ (show isBlank ',' = false from rfl)]

theorem readFields?_last (first : readValue? fuel behind = some (value, '\x7d' :: rest)) :
    readFields? (fuel + 1) read ('"' :: (name.flatMap escape ++ '"' :: ':' :: behind)) =
      some (read.reverse ++ [(name, value)], rest) := by
  rw [readFields?, skipBlanks_cons _ rfl]
  simp only [readString?_flatMap_escape, List.reverse_nil, List.nil_append,
    skipBlanks_cons _ (show isBlank ':' = false from rfl), first,
    skipBlanks_cons _ (show isBlank '\x7d' = false from rfl), List.reverse_cons]

end Fields

/-- Fields whose values are read back one by one are read back in a row. -/
theorem readFields?_compactFields {field : List Char × Json} {fields : List (List Char × Json)}
    (each : ∀ f ∈ field :: fields, ReadsBack f.2) {fuel : Nat}
    (enough : (compactFields (field :: fields)).length < fuel) (read : List (List Char × Json))
    (rest : List Char) :
    readFields? fuel read (compactFields (field :: fields) ++ '\x7d' :: rest) =
      some (read.reverse ++ field :: fields, rest) := by
  induction fields generalizing field fuel read with
  | nil =>
    obtain ⟨fuel, rfl⟩ := Nat.exists_eq_add_one_of_ne_zero (Nat.ne_zero_of_lt enough)
    obtain ⟨name, value⟩ := field
    have first : ReadsBack value := each _ List.mem_cons_self
    have last : compactFields [(name, value)] ++ '\x7d' :: rest =
        '"' :: (name.flatMap escape ++ '"' :: ':' :: (value.compact ++ '\x7d' :: rest)) := by
      simp [compactFields, quote]
    simp only [compactFields, List.length_append, List.length_cons] at enough
    rw [last, readFields?_last (first fuel _ (by omega) (closed_cons (by decide)))]
  | cons next fields ih =>
    obtain ⟨fuel, rfl⟩ := Nat.exists_eq_add_one_of_ne_zero (Nat.ne_zero_of_lt enough)
    obtain ⟨name, value⟩ := field
    have first : ReadsBack value := each _ List.mem_cons_self
    have more : compactFields ((name, value) :: next :: fields) =
        quote name ++ ':' :: value.compact ++ ',' :: compactFields (next :: fields) := rfl
    have front : compactFields ((name, value) :: next :: fields) ++ '\x7d' :: rest =
        '"' :: (name.flatMap escape ++ '"' :: ':' ::
          (value.compact ++ ',' :: (compactFields (next :: fields) ++ '\x7d' :: rest))) := by
      rw [more, quote]
      simp
    simp only [more, List.length_append, List.length_cons] at enough
    rw [front, readFields?_comma (first fuel _ (by omega) (closed_cons (by decide))),
      ih (List.forall_mem_cons.1 each).2 (by omega) ((name, value) :: read), List.reverse_cons,
      List.append_assoc]
    rfl

theorem readValue?_brace {fuel : Nat} {tail rest : List Char} {fields : List (List Char × Json)}
    (row : readFields? fuel [] ('"' :: tail) = some (fields, rest)) :
    readValue? (fuel + 1) ('\x7b' :: '"' :: tail) = some (object fields, rest) := by
  rw [readValue?, skipBlanks_cons _ rfl]
  change (readFields? fuel [] ('"' :: tail)).map _ = _
  rw [row]
  rfl

theorem ReadsBack.object {fields : List (List Char × Json)}
    (each : ∀ field ∈ fields, ReadsBack field.2) : ReadsBack (object fields) := by
  intro fuel rest enough _
  have written : (Json.object fields).compact ++ rest =
      '\x7b' :: (compactFields fields ++ '\x7d' :: rest) := by
    simp [compact]
  rw [compact, List.length_append, List.length_cons, List.length_singleton] at enough
  obtain ⟨fuel, rfl⟩ := Nat.exists_eq_add_one_of_ne_zero (show fuel ≠ 0 by omega)
  rw [written]
  cases fields with
  | nil => rfl
  | cons field fields =>
    have row := readFields?_compactFields each (show _ < fuel by omega) [] rest
    obtain ⟨tail, head⟩ : ∃ tail,
        compactFields (field :: fields) ++ '\x7d' :: rest = '"' :: tail := by
      cases fields <;> exact ⟨_, rfl⟩
    rw [head] at row ⊢
    exact readValue?_brace row

theorem ReadsBack.read? {j : Json} (h : ReadsBack j) : read? j.compact = some j := by
  have whole := h (2 * j.compact.length + 2) [] (by omega) closed_nil
  rw [List.append_nil] at whole
  rw [Json.read?, whole]
  rfl

end Json
end LambdaTally
