import LambdaTally.Proofs.Source.Reach

/-!
# LambdaTally.Proofs.RawStrings

How far a raw string reaches (`raw_string_extent`). What opens one is read off the octets up to the
parenthesis behind its delimiter. From there it reaches through the first place where the delimiter
stands between a closing parenthesis and a quote, or to the end of the octets if there is none. That
place cannot begin in the body of a raw string written out and end behind it, so that such a one has
its own length whatever follows (`firstAt_closing`).

An encoding in front counts to the length. The length ends between two characters of the text, which
is what a cursor needs to move on by it.
-/

namespace LambdaTally

open Utf8

namespace Literal

variable {d body octets : List UInt8} {n : Nat}

/-- An octet that no delimiter has: a space, a parenthesis, a backslash, a quote or a control
character. -/
def Barred (b : UInt8) : Prop :=
  b = 0x20 ∨ b = 0x28 ∨ b = 0x29 ∨ b = 0x5C ∨ b = 0x22 ∨ b < 0x20 ∨ b = 0x7F

/-- A delimiter: at most sixteen octets, none of them barred. -/
def Delimiter (d : List UInt8) : Prop := d.length ≤ 16 ∧ ∀ b ∈ d, ¬ Barred b

/-- What opens a raw string with this delimiter. -/
def opening (d : List UInt8) : List UInt8 := 0x52 :: 0x22 :: d ++ [0x28]

theorem not_barred_iff {b : UInt8} : ¬ Barred b ↔ isForbidden b = false ∧ b ≠ 0x28 := by
  simp only [Barred, isForbidden, Bool.or_eq_false_iff, beq_eq_false_iff_ne, decide_eq_false_iff_not,
    not_or]
  grind

theorem delimiter_iff : Delimiter d ↔ ValidDelimiter d := by
  simp only [Delimiter, ValidDelimiter, maxDelimiter, not_barred_iff]

theorem length_opening (d : List UInt8) : (opening d).length = 2 + d.length + 1 := by
  simp only [opening, List.length_append, List.length_cons, List.length_nil]
  omega

/-- The length behind an opening is that of the opening and of what is passed through. -/
theorem rawLength?_opening (valid : Delimiter d) (body : List UInt8) :
    rawLength? (opening d ++ body) = some (lengthThrough (closing d) (opening d).length body) := by
  refine rawLength?_eq_some_iff.2 ⟨d, body, by simp [opening], delimiter_iff.1 valid, ?_⟩
  rw [length_opening]

theorem isSome_rawLength?_iff :
    (rawLength? octets).isSome ↔ ∃ d body, octets = opening d ++ body ∧ Delimiter d := by
  constructor
  · intro opened
    obtain ⟨n, here⟩ := Option.isSome_iff_exists.1 opened
    obtain ⟨d, body, whole, valid, -⟩ := rawLength?_eq_some_iff.1 here
    exact ⟨d, body, by simpa [opening] using whole, delimiter_iff.2 valid⟩
  · rintro ⟨d, body, rfl, valid⟩
    rw [rawLength?_opening valid]
    rfl

/-- A raw string has at least its `R` and its quote. -/
theorem two_le_of_rawLength? (h : rawLength? octets = some n) : 2 ≤ n := by
  obtain ⟨d, body, -, -, rfl⟩ := rawLength?_eq_some_iff.1 h
  rcases lengthThrough_eq (closing d) (2 + d.length + 1) body with hl | ⟨_, _, _, hl⟩ <;> omega

/-- The text that a length stands for: it holds the encoding and the two characters behind it. -/
theorem exists_taken {text : List Char} (h : prefixedRawLength? text = some n) :
    ∃ e ∈ encodings, ∃ raw taken rest, text = e ++ raw ∧ rawLength? (encode raw) = some (n - byteLength e) ∧
      text = taken ++ rest ∧ e ++ ['R', '"'] <+: taken ∧ n = byteLength taken := by
  obtain ⟨e, he, raw, m, rfl, here, rfl⟩ := prefixedRawLength?_eq_some_iff.1 h
  obtain ⟨taken, rest, split, rfl, -⟩ := rawLength?_boundary here
  obtain ⟨tail, rfl⟩ := exists_of_rawLength? here
  have two := two_le_of_rawLength? here
  refine ⟨e, he, 'R' :: '"' :: tail, e ++ taken, rest, rfl, ?_, by rw [split, List.append_assoc], ?_, ?_⟩
  · rw [Nat.add_sub_cancel_left]
    exact here
  · -- two octets at least, and so the two characters that stand in front
    refine (List.prefix_append_right_inj e).2 ?_
    match taken, split, two with
    | [], _, two => exact absurd two (by decide)
    | [ch], split, two =>
      obtain ⟨rfl, -⟩ := List.cons.inj split
      exact absurd two (by decide)
    | a :: b :: taken, split, _ =>
      obtain ⟨rfl, later⟩ := List.cons.inj split
      obtain ⟨rfl, -⟩ := List.cons.inj later
      exact ⟨taken, rfl⟩
  · rw [byteLength_append]

/-- **The extent of a raw string.** Octets have the length of a raw string exactly if an opening with a
delimiter stands in front. Behind the opening it runs through the first place that closes it, and to the
end where there is none; so a raw string written out has its own length, whatever follows it.

The length of a raw string of a text, with its encoding, is that of a part of the text in front, which
holds at least the encoding and what opens the string, and a cursor that moves on by it stands behind
that part. -/
theorem raw_string_extent :
    (∀ octets, (rawLength? octets).isSome ↔ ∃ d body, octets = opening d ++ body ∧ Delimiter d) ∧
      (∀ d body, Delimiter d →
        (closing d <:+: body → ∃ k, FirstAt (closing d) body k ∧
          rawLength? (opening d ++ body) = some ((opening d).length + k + (closing d).length)) ∧
        (¬ closing d <:+: body →
          rawLength? (opening d ++ body) = some (opening d ++ body).length ∧
          ∀ tail, rawLength? (opening d ++ body ++ closing d ++ tail) =
            some (opening d ++ body ++ closing d).length)) ∧
      ∀ text n, prefixedRawLength? text = some n →
        ∃ e ∈ encodings, ∃ raw taken rest, text = e ++ raw ∧
          rawLength? (encode raw) = some (n - byteLength e) ∧ text = taken ++ rest ∧
          e ++ ['R', '"'] <+: taken ∧ n = byteLength taken ∧ 0 < n ∧ n ≤ byteLength text ∧
          ∀ offset, (⟨offset, text⟩ : Cursor).jump n = .skipSplices (offset + n) rest := by
  refine ⟨fun octets => isSome_rawLength?_iff, ?_, ?_⟩
  · intro d body valid
    refine ⟨?_, fun none_in => ⟨?_, ?_⟩⟩
    · intro closed
      obtain ⟨k, first⟩ := exists_firstAt closed
      refine ⟨k, first, ?_⟩
      rw [rawLength?_opening valid, lengthThrough_first first (List.cons_ne_nil _ _)]
    · rw [rawLength?_opening valid, lengthThrough_absent none_in, List.length_append]
    · intro tail
      rw [List.append_assoc, List.append_assoc, rawLength?_opening valid,
        lengthThrough_closing (delimiter_iff.1 valid) none_in]
      simp only [List.length_append]
  · intro text n here
    obtain ⟨e, he, raw, taken, rest, whole, own, split, holds, rfl⟩ := exists_taken here
    have nonempty : taken ≠ [] := by
      rintro rfl
      have empty := List.prefix_nil.1 holds
      exact List.cons_ne_nil _ _ (List.append_eq_nil_iff.1 empty).2
    refine ⟨e, he, raw, taken, rest, whole, own, split, holds, rfl, byteLength_pos nonempty, ?_, ?_⟩
    · rw [split, byteLength_append]
      exact Nat.le_add_right _ _
    · intro offset
      rw [Cursor.jump, split, Cursor.dropOctets_byteLength]

/-- A parenthesis and a quote without the delimiter between them close nothing. -/
theorem raw_string_extent_quoted :
    Delimiter [0x78] ∧ ¬ closing [0x78] <:+: encode "a)\"".toList ∧
      rawLength? (encode "R\"x(a)\")x\";".toList) = some 10 := by
  have valid : Delimiter [0x78] := delimiter_iff.2 ⟨by decide, List.forall_mem_singleton.2 (by decide)⟩
  have none_in : ¬ closing [0x78] <:+: encode "a)\"".toList := by decide
  obtain ⟨-, extent, -⟩ := raw_string_extent
  exact ⟨valid, none_in, ((extent _ _ valid).2 none_in).2 [0x3B]⟩

end Literal
end LambdaTally
