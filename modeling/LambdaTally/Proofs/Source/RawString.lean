import LambdaTally.Proofs.Text.Octets
import LambdaTally.Source.Literal
import Mathlib.Data.Nat.Find

/-!
# LambdaTally.Proofs.Source.RawString

Raw strings, and what follows them. Whether one opens is settled by the text up to the parenthesis
behind its delimiter; where it ends is settled as soon as it is closed, at the first place where what
closes it stands (`FirstAt`). So a raw string that closes is
the same whatever follows (`prefixedRawLength?_append`), one that opens does so whatever follows
(`exists_prefixedRawLength?_append`), and a line break before that parenthesis opens none
(`exists_prefixedRawLength?_of_newline`). A raw string written out is read to its end
(`RawString.length`), and what is read as one is a raw string written out or one that nothing closes
(`rawString_or_open`).
-/

namespace LambdaTally

open Utf8

namespace Literal

variable {close body d u v octets : List UInt8} {passed room n : Nat}

/-! ## Octets -/

/-- The length runs through the first `close`, or to the end. -/
theorem lengthThrough_eq (close : List UInt8) (passed : Nat) (body : List UInt8) :
    lengthThrough close passed body = passed + body.length ∨
      ∃ before after, body = before ++ close ++ after ∧
        lengthThrough close passed body = passed + (before ++ close).length := by
  induction body generalizing passed with
  | nil => exact .inl rfl
  | cons b rest ih =>
    simp only [lengthThrough]
    split
    · rename_i hp
      obtain ⟨after, ha⟩ := List.isPrefixOf_iff_prefix.1 hp
      exact .inr ⟨[], after, by simp [ha], by simp⟩
    · rcases ih (passed + 1) with h | ⟨before, after, hb, h⟩
      · left
        rw [h, List.length_cons]
        omega
      · refine .inr ⟨b :: before, after, by simp [hb], ?_⟩
        rw [h]
        simp only [List.length_append, List.length_cons]
        omega

theorem lengthThrough_append (h : lengthThrough close passed (body ++ v) = passed + body.length)
    (more : v ≠ []) (nonempty : close ≠ []) (w : List UInt8) :
    lengthThrough close passed (body ++ w) = passed + body.length := by
  have pos := List.length_pos_iff.2 nonempty
  induction body generalizing passed with
  | nil =>
    obtain ⟨b, v, rfl⟩ := List.exists_cons_of_ne_nil more
    have ahead : passed < lengthThrough close passed (b :: v) := by
      rw [lengthThrough]
      split
      · omega
      · rcases lengthThrough_eq close (passed + 1) v with hl | ⟨_, _, _, hl⟩ <;> omega
    simp only [List.nil_append, List.length_nil] at h
    omega
  | cons b body ih =>
    rw [List.cons_append, lengthThrough] at h ⊢
    split at h
    · -- the end stands here, and takes all that is left of the body
      rename_i here
      have width : close.length = (b :: body).length := by
        simp only [List.length_cons] at h ⊢
        omega
      have whole : close = b :: body := by
        have starts := List.isPrefixOf_iff_prefix.1 here
        exact List.IsPrefix.eq_of_length (List.prefix_of_prefix_length_le starts
          (List.prefix_append (b :: body) v) (Nat.le_of_eq width)) width
      rw [if_pos (List.isPrefixOf_iff_prefix.2 (by rw [whole]; exact List.prefix_append _ w))]
      exact h
    · rename_i not_here
      have later : lengthThrough close (passed + 1) (body ++ v) = passed + 1 + body.length := by
        simp only [List.length_cons] at h
        omega
      -- the end is found inside the body, which is therefore as long at least
      have short : close.length ≤ body.length := by
        rcases lengthThrough_eq close (passed + 1) (body ++ v) with hl | ⟨before, after, -, hl⟩
        · have := List.length_pos_iff.2 more
          simp only [List.length_append] at hl
          omega
        · simp only [List.length_append] at hl
          omega
      rw [if_neg, ih later]
      · simp only [List.length_cons]
        omega
      · intro starts
        have inside := List.prefix_of_prefix_length_le (List.isPrefixOf_iff_prefix.1 starts)
          (List.prefix_append (b :: body) w) (by simp only [List.length_cons]; omega)
        exact not_here (List.isPrefixOf_iff_prefix.2 (inside.trans (List.prefix_append _ v)))

theorem splitDelimiter?_opening (room : Nat) (octets : List UInt8) :
    splitDelimiter? room (0x28 :: octets) = some ([], octets) := by
  cases room <;> rfl

theorem splitDelimiter?_full {b : UInt8} (no_opening : b ≠ 0x28) (octets : List UInt8) :
    splitDelimiter? 0 (b :: octets) = none := by
  simp [splitDelimiter?, no_opening]

theorem splitDelimiter?_next {b : UInt8} (no_opening : b ≠ 0x28) (room : Nat)
    (octets : List UInt8) :
    splitDelimiter? (room + 1) (b :: octets) =
      if isForbidden b then none
      else (splitDelimiter? room octets).map fun (d, body) => (b :: d, body) := by
  rw [splitDelimiter?, if_neg no_opening]

theorem of_splitDelimiter? (h : splitDelimiter? room octets = some (d, body)) :
    octets = d ++ 0x28 :: body ∧ d.length ≤ room ∧
      ∀ b ∈ d, isForbidden b = false ∧ b ≠ 0x28 := by
  induction octets generalizing room d with
  | nil => cases room <;> cases h
  | cons b octets ih =>
    by_cases opening : b = 0x28
    · subst opening
      rw [splitDelimiter?_opening] at h
      cases h
      simp
    cases room with
    | zero =>
      rw [splitDelimiter?_full opening] at h
      cases h
    | succ room =>
      rw [splitDelimiter?_next opening] at h
      split at h
      · cases h
      · rename_i allowed
        obtain ⟨⟨d', body'⟩, hs, he⟩ := Option.map_eq_some_iff.1 h
        cases he
        obtain ⟨rfl, short, others⟩ := ih hs
        have here : isForbidden b = false := by simpa using allowed
        exact ⟨rfl, Nat.succ_le_succ short, List.forall_mem_cons.2 ⟨⟨here, opening⟩, others⟩⟩

theorem splitDelimiter?_append (short : d.length ≤ room)
    (allowed : ∀ b ∈ d, isForbidden b = false ∧ b ≠ 0x28) (body : List UInt8) :
    splitDelimiter? room (d ++ 0x28 :: body) = some (d, body) := by
  induction d generalizing room with
  | nil => exact splitDelimiter?_opening room body
  | cons b d ih =>
    obtain ⟨⟨here, no_opening⟩, others⟩ := List.forall_mem_cons.1 allowed
    obtain ⟨room, rfl⟩ := Nat.exists_eq_add_of_le' (Nat.one_le_of_lt short)
    rw [List.cons_append, splitDelimiter?_next no_opening, here, if_neg Bool.false_ne_true,
      ih (Nat.le_of_succ_le_succ short) others]
    rfl

/-- The octets may stand between the quote and the parenthesis of a raw string. -/
def ValidDelimiter (d : List UInt8) : Prop :=
  d.length ≤ maxDelimiter ∧ ∀ b ∈ d, isForbidden b = false ∧ b ≠ 0x28

/-- What closes a raw string. -/
def closing (d : List UInt8) : List UInt8 := 0x29 :: d ++ [0x22]

theorem rawLength?_eq_some_iff :
    rawLength? octets = some n ↔ ∃ d body, octets = 0x52 :: 0x22 :: d ++ 0x28 :: body ∧
      ValidDelimiter d ∧ n = lengthThrough (closing d) (2 + d.length + 1) body := by
  constructor
  · intro h
    unfold rawLength? at h
    split at h
    · obtain ⟨⟨d, body⟩, hs, rfl⟩ := Option.map_eq_some_iff.1 h
      obtain ⟨rfl, short, allowed⟩ := of_splitDelimiter? hs
      exact ⟨d, body, rfl, ⟨short, allowed⟩, rfl⟩
    · cases h
  · rintro ⟨d, body, rfl, ⟨short, allowed⟩, rfl⟩
    have opened := splitDelimiter?_append short allowed body
    simp only [List.cons_append, rawLength?, opened]
    rfl

/-- A raw string that closes before the end is the same whatever follows. -/
theorem rawLength?_append (h : rawLength? (u ++ v) = some u.length) (more : v ≠ [])
    (w : List UInt8) : rawLength? (u ++ w) = some u.length := by
  obtain ⟨d, body, whole, valid, hn⟩ := rawLength?_eq_some_iff.1 h
  -- what opens the string is part of `u`
  have within : 2 + d.length + 1 ≤ u.length := by
    rcases lengthThrough_eq (closing d) (2 + d.length + 1) body with hl | ⟨_, _, _, hl⟩ <;> omega
  have same : u ++ v = (0x52 :: 0x22 :: d ++ [0x28]) ++ body := by simpa using whole
  obtain ⟨inside, rfl, rfl⟩ : ∃ inside, u = (0x52 :: 0x22 :: d ++ [0x28]) ++ inside ∧
      body = inside ++ v := by
    rcases List.append_eq_append_iff.1 same with ⟨c, hc, hb⟩ | ⟨c, hc, hb⟩
    · have width := congrArg List.length hc
      simp only [List.length_append, List.length_cons, List.length_nil] at width
      obtain rfl : c = [] := List.length_eq_zero_iff.1 (by omega)
      exact ⟨[], by simpa using hc.symm, by simpa using hb.symm⟩
    · exact ⟨c, hc, hb⟩
  have width : ((0x52 :: 0x22 :: d ++ [0x28]) ++ inside).length = 2 + d.length + 1 + inside.length := by
    simp only [List.length_append, List.length_cons, List.length_nil]
    omega
  rw [width] at hn ⊢
  refine rawLength?_eq_some_iff.2 ⟨d, inside ++ w, by simp, valid, ?_⟩
  exact (lengthThrough_append hn.symm more (by simp [closing]) w).symm

/-- What opens a raw string opens one whatever follows. -/
theorem exists_rawLength?_append (h : rawLength? u = some n) (w : List UInt8) :
    ∃ m, rawLength? (u ++ w) = some m := by
  obtain ⟨d, body, rfl, valid, -⟩ := rawLength?_eq_some_iff.1 h
  exact ⟨_, rawLength?_eq_some_iff.2 ⟨d, body ++ w, by simp, valid, rfl⟩⟩

/-- No line break is in what opens a raw string. -/
theorem exists_rawLength?_of_newline (h : rawLength? (u ++ 0x0A :: v) = some n) :
    ∃ m, rawLength? u = some m := by
  obtain ⟨d, body, whole, valid, -⟩ := rawLength?_eq_some_iff.1 h
  have no_break : (0x0A : UInt8) ∉ 0x52 :: 0x22 :: d ++ [0x28] := by
    simp only [List.cons_append, List.mem_cons, List.mem_append, List.not_mem_nil, or_false, not_or]
    refine ⟨by decide, by decide, ?_, by decide⟩
    intro hmem
    have plain := (valid.2 _ hmem).1
    revert plain
    decide
  have same : u ++ 0x0A :: v = (0x52 :: 0x22 :: d ++ [0x28]) ++ body := by simpa using whole
  rcases List.append_eq_append_iff.1 same with ⟨c, hc, hb⟩ | ⟨c, rfl, -⟩
  · cases c with
    | nil =>
      refine ⟨_, rawLength?_eq_some_iff.2 ⟨d, [], ?_, valid, rfl⟩⟩
      simpa using hc.symm
    | cons b c =>
      obtain ⟨rfl, -⟩ := List.cons.inj hb
      rw [hc] at no_break
      simp at no_break
  · exact ⟨_, rawLength?_eq_some_iff.2 ⟨d, c, by simp, valid, rfl⟩⟩

/-- The octets stand in a text behind its first `k`, and nowhere further in front. -/
def FirstAt (word text : List UInt8) (k : Nat) : Prop :=
  word <+: text.drop k ∧ ∀ j < k, ¬ word <+: text.drop j

theorem exists_firstAt (h : close <:+: body) : ∃ k, FirstAt close body k := by
  classical
  obtain ⟨before, after, whole⟩ := h
  have somewhere : ∃ k, close <+: body.drop k := by
    refine ⟨before.length, after, ?_⟩
    rw [← whole, List.append_assoc, List.drop_left]
  exact ⟨Nat.find somewhere, Nat.find_spec somewhere, fun j earlier => Nat.find_min somewhere earlier⟩

theorem lengthThrough_first {k : Nat} (first : FirstAt close body k) (nonempty : close ≠ [])
    (passed : Nat) : lengthThrough close passed body = passed + k + close.length := by
  induction body generalizing passed k with
  | nil =>
    have empty : close <+: [] := by simpa using first.1
    exact absurd (List.prefix_nil.1 empty) nonempty
  | cons b body ih =>
    cases k with
    | zero =>
      have here : close.isPrefixOf (b :: body) = true := List.isPrefixOf_iff_prefix.2 first.1
      rw [lengthThrough, if_pos here, Nat.add_zero]
    | succ k =>
      have not_here : ¬ close.isPrefixOf (b :: body) = true := fun here =>
        first.2 0 (Nat.succ_pos k) (List.isPrefixOf_iff_prefix.1 here)
      have later : FirstAt close body k :=
        ⟨first.1, fun j earlier => first.2 (j + 1) (Nat.succ_lt_succ earlier)⟩
      rw [lengthThrough, if_neg not_here, ih later]
      omega

theorem lengthThrough_absent (none_in : ¬ close <:+: body) (passed : Nat) :
    lengthThrough close passed body = passed + body.length := by
  rcases lengthThrough_eq close passed body with whole | ⟨before, after, rfl, -⟩
  · exact whole
  · exact absurd ⟨before, after, rfl⟩ none_in

/-- What closes a raw string does not begin in its body and end behind it: it has only the one
parenthesis. -/
theorem firstAt_closing (valid : ValidDelimiter d) (none_in : ¬ closing d <:+: body)
    (rest : List UInt8) : FirstAt (closing d) (body ++ (closing d ++ rest)) body.length := by
  refine ⟨⟨rest, by rw [List.drop_left]⟩, ?_⟩
  intro j earlier starts
  rw [List.drop_append_of_le_length (Nat.le_of_lt earlier)] at starts
  -- the part of the body from there on
  obtain ⟨b, part, here⟩ := List.exists_cons_of_length_pos
    (show 0 < (body.drop j).length by rw [List.length_drop]; omega)
  have inside : (b :: part) <:+: body := here ▸ (List.drop_suffix j body).isInfix
  rw [here] at starts
  rcases Nat.le_total (closing d).length (b :: part).length with short | long
  · -- all of it in the body
    have within := List.prefix_of_prefix_length_le starts (List.prefix_append (b :: part) _) short
    exact none_in (within.isInfix.trans inside)
  · -- part of it in the body, and so another parenthesis in it
    obtain ⟨u, hu⟩ := List.prefix_of_prefix_length_le
      (List.prefix_append (b :: part) (closing d ++ rest)) starts long
    obtain ⟨z, hz⟩ := starts
    have behind : u ++ z = closing d ++ rest := by
      refine (List.append_right_inj (b :: part)).1 ?_
      rw [← List.append_assoc, hu]
      exact hz
    cases u with
    | nil =>
      rw [List.append_nil] at hu
      exact none_in (hu ▸ inside)
    | cons x u =>
      obtain rfl : x = 0x29 := (List.cons.inj behind).1
      have tail : part ++ 0x29 :: u = d ++ [0x22] := (List.cons.inj hu).2
      have again : (0x29 : UInt8) ∈ d ++ [0x22] := by
        rw [← tail]
        simp
      rcases List.mem_append.1 again with in_d | last
      · have plain := (valid.2 _ in_d).1
        revert plain
        decide
      · revert last
        decide

theorem lengthThrough_closing (valid : ValidDelimiter d) (none_in : ¬ closing d <:+: body)
    (rest : List UInt8) (passed : Nat) :
    lengthThrough (closing d) passed (body ++ (closing d ++ rest)) =
      passed + body.length + (closing d).length :=
  lengthThrough_first (firstAt_closing valid none_in rest) (List.cons_ne_nil _ _) passed

/-! ## Characters -/

/-- The spellings of an encoding. -/
def encodings : List (List Char) := [[], "u8".toList, "u".toList, "U".toList, "L".toList]

/-- A raw string ends between two characters: at the end of the text, or right after a quote. -/
theorem rawLength?_boundary {text : List Char} (h : rawLength? (encode text) = some n) :
    ∃ taken rest, text = taken ++ rest ∧ n = byteLength taken ∧
      (rest = [] ∨ ∃ front, taken = front ++ ['"']) := by
  obtain ⟨d, body, whole, -, rfl⟩ := rawLength?_eq_some_iff.1 h
  rcases lengthThrough_eq (closing d) (2 + d.length + 1) body with hl | ⟨before, after, rfl, hl⟩
  · refine ⟨text, [], by simp, ?_, .inl rfl⟩
    rw [hl, ← length_encode, whole]
    simp only [List.length_cons, List.length_append]
    omega
  · have cut : encode text =
        (0x52 :: 0x22 :: d ++ 0x28 :: before ++ 0x29 :: d) ++ 0x22 :: after := by
      rw [whole]
      simp [closing]
    obtain ⟨front, rest, rfl, hfront, -⟩ := encode_cut_char '"' cut (by decide) rfl
    refine ⟨front ++ ['"'], rest, by simp, ?_, .inr ⟨front, rfl⟩⟩
    rw [hl, byteLength_append, ← length_encode front, hfront]
    simp only [closing, List.length_cons, List.length_append, List.length_nil, byteLength_cons,
      byteLength_nil]
    have quote : '"'.utf8Size = 1 := rfl
    omega

theorem exists_of_rawLength? {text : List Char} (h : rawLength? (encode text) = some n) :
    ∃ rest, text = 'R' :: '"' :: rest := by
  obtain ⟨d, body, whole, -⟩ := rawLength?_eq_some_iff.1 h
  have empty {before : List Char} (hb : encode before = []) : before = [] :=
    encode_injective hb
  have first : encode text = [] ++ 0x52 :: (0x22 :: d ++ 0x28 :: body) := whole
  obtain ⟨before, after, rfl, hbefore, second⟩ := encode_cut_char 'R' first (by decide) rfl
  have second : encode after = [] ++ 0x22 :: (d ++ 0x28 :: body) := second
  obtain ⟨before', rest, rfl, hbefore', -⟩ := encode_cut_char '"' second (by decide) rfl
  rw [empty hbefore, empty hbefore']
  exact ⟨rest, rfl⟩

/-- Of the spellings that open a raw string one at most fits. -/
theorem find?_rawPrefixes {e : List Char} (he : e ∈ encodings) (tail : List Char) :
    rawPrefixes.find? (·.isPrefixOf (e ++ 'R' :: '"' :: tail)) = some (e ++ ['R', '"']) := by
  have spelt : rawPrefixes = encodings.map (· ++ ['R', '"']) := rfl
  have apart : ∀ a ∈ rawPrefixes, ∀ b ∈ rawPrefixes, a <+: b → a = b := by decide
  have starts : (e ++ ['R', '"']) <+: e ++ 'R' :: '"' :: tail := ⟨tail, by simp⟩
  have member : e ++ ['R', '"'] ∈ rawPrefixes := by
    rw [spelt]
    exact List.mem_map_of_mem he
  cases found : rawPrefixes.find? (·.isPrefixOf (e ++ 'R' :: '"' :: tail)) with
  | none =>
    have none_fits := List.find?_eq_none.1 found _ member
    exact absurd (List.isPrefixOf_iff_prefix.2 starts) none_fits
  | some other =>
    have opens := List.find?_some found
    have fits := List.isPrefixOf_iff_prefix.1 opens
    have listed := List.mem_of_find?_eq_some found
    rcases List.prefix_or_prefix_of_prefix fits starts with h | h
    · rw [apart _ listed _ member h]
    · rw [apart _ member _ listed h]

theorem prefixedRawLength?_eq_some_iff {text : List Char} :
    prefixedRawLength? text = some n ↔ ∃ e ∈ encodings, ∃ rest m, text = e ++ rest ∧
      rawLength? (encode rest) = some m ∧ n = byteLength e + m := by
  have spelt : rawPrefixes = encodings.map (· ++ ['R', '"']) := rfl
  have ascii : ∀ e ∈ encodings, byteLength e = e.length := by decide
  constructor
  · intro h
    unfold prefixedRawLength? at h
    split at h
    · cases h
    · rename_i opening found
      obtain ⟨m, hm, rfl⟩ := Option.map_eq_some_iff.1 h
      have starts := List.find?_some found
      obtain ⟨tail, rfl⟩ := List.isPrefixOf_iff_prefix.1 starts
      have member := List.mem_of_find?_eq_some found
      rw [spelt] at member
      obtain ⟨e, he, rfl⟩ := List.mem_map.1 member
      refine ⟨e, he, 'R' :: '"' :: tail, m, by simp, ?_, ?_⟩
      · simpa using hm
      · simp [ascii e he]
  · rintro ⟨e, he, rest, m, rfl, hm, rfl⟩
    obtain ⟨tail, rfl⟩ := exists_of_rawLength? hm
    have width : (e ++ ['R', '"']).length - 2 = e.length := by simp
    unfold prefixedRawLength?
    rw [find?_rawPrefixes he]
    dsimp only
    rw [width, List.drop_left, hm, ascii e he]
    rfl

theorem prefixedRawLength?_boundary {text : List Char} (h : prefixedRawLength? text = some n) :
    ∃ taken rest, text = taken ++ rest ∧ n = byteLength taken ∧
      (rest = [] ∨ ∃ front, taken = front ++ ['"']) := by
  obtain ⟨e, -, raw, m, rfl, hm, rfl⟩ := prefixedRawLength?_eq_some_iff.1 h
  obtain ⟨taken, rest, rfl, rfl, last⟩ := rawLength?_boundary hm
  refine ⟨e ++ taken, rest, by simp, by rw [byteLength_append], last.imp_right ?_⟩
  rintro ⟨front, rfl⟩
  exact ⟨e ++ front, by simp⟩

/-! ## What follows -/

variable {a b : List Char}

/-- A raw string that closes before the end is the same whatever follows. -/
theorem prefixedRawLength?_append (h : prefixedRawLength? (a ++ b) = some (byteLength a))
    (more : b ≠ []) (rest : List Char) :
    prefixedRawLength? (a ++ rest) = some (byteLength a) := by
  obtain ⟨e, he, raw, m, whole, hm, hn⟩ := prefixedRawLength?_eq_some_iff.1 h
  rcases List.append_eq_append_iff.1 whole with ⟨c, rfl, -⟩ | ⟨c, rfl, rfl⟩
  · -- there is more to a raw string than its encoding
    obtain ⟨d, body, -, -, through⟩ := rawLength?_eq_some_iff.1 hm
    rw [byteLength_append] at hn
    rcases lengthThrough_eq (closing d) (2 + d.length + 1) body with hl | ⟨_, _, _, hl⟩ <;> omega
  · rw [byteLength_append] at hn
    obtain rfl : m = (encode c).length := by
      rw [length_encode]
      omega
    rw [encode_append] at hm
    have octets : encode b ≠ [] := fun none_there => more (encode_injective none_there)
    refine prefixedRawLength?_eq_some_iff.2
      ⟨e, he, c ++ rest, (encode c).length, by simp, ?_, ?_⟩
    · rw [encode_append]
      exact rawLength?_append hm octets (encode rest)
    · rw [byteLength_append, length_encode]

theorem exists_prefixedRawLength?_append (h : prefixedRawLength? a = some n) (rest : List Char) :
    ∃ m, prefixedRawLength? (a ++ rest) = some m := by
  obtain ⟨e, he, raw, m, rfl, hm, -⟩ := prefixedRawLength?_eq_some_iff.1 h
  obtain ⟨m', hm'⟩ := exists_rawLength?_append hm (encode rest)
  rw [← encode_append] at hm'
  exact ⟨_, prefixedRawLength?_eq_some_iff.2 ⟨e, he, raw ++ rest, m', by simp, hm', rfl⟩⟩

theorem exists_prefixedRawLength?_of_newline (h : prefixedRawLength? (a ++ '\n' :: b) = some n) :
    ∃ m, prefixedRawLength? a = some m := by
  obtain ⟨e, he, raw, m, whole, hm, -⟩ := prefixedRawLength?_eq_some_iff.1 h
  rcases List.append_eq_append_iff.1 whole with ⟨c, rfl, rest⟩ | ⟨c, rfl, rfl⟩
  · obtain ⟨tail, rfl⟩ := exists_of_rawLength? hm
    cases c with
    | nil => cases rest
    | cons ch c =>
      obtain ⟨rfl, -⟩ := List.cons.inj rest
      have plain : ∀ e ∈ encodings, '\n' ∉ e := by decide
      exact absurd (by simp) (plain _ he)
  · rw [encode_append, encode_cons] at hm
    obtain ⟨m', hm'⟩ := exists_rawLength?_of_newline hm
    exact ⟨_, prefixedRawLength?_eq_some_iff.2 ⟨e, he, c, m', rfl, hm', rfl⟩⟩

/-! ## Raw strings written out -/

/-- A raw string that is closed: an encoding, `R`, a delimiter on either side, and a body in which the
delimiter does not stand between a parenthesis and a quote. -/
inductive RawString : List Char → Prop where
  | intro {e d body : List Char} : e ∈ encodings → ValidDelimiter (encode d) →
      ¬ (')' :: d ++ ['"']) <:+: body →
      RawString (e ++ ('R' :: '"' :: d ++ '(' :: body ++ (')' :: d ++ ['"'])))

/-- What closes a raw string stands in the octets of a text only if it stands in the text. -/
theorem infix_of_closing {d body : List Char} (h : closing (encode d) <:+: encode body) :
    (')' :: d ++ ['"']) <:+: body := by
  obtain ⟨u, v, whole⟩ := h
  have quote : encode body = (u ++ 0x29 :: encode d) ++ 0x22 :: v := by
    rw [← whole]
    simp [closing]
  obtain ⟨before, after, rfl, hbefore, -⟩ := encode_cut_char '"' quote (by decide) rfl
  obtain ⟨front, inner, rfl, -, hinner⟩ := encode_cut_char ')' hbefore (by decide) rfl
  rw [encode_injective hinner]
  exact ⟨front, after, by simp⟩

theorem RawString.length {text : List Char} (h : RawString text) (rest : List Char) :
    prefixedRawLength? (text ++ rest) = some (byteLength text) := by
  obtain @⟨e, d, body, he, valid, none_in⟩ := h
  have octets : encode ('R' :: '"' :: d ++ '(' :: body ++ (')' :: d ++ ['"']) ++ rest) =
      0x52 :: 0x22 :: encode d ++
        0x28 :: (encode body ++ (closing (encode d) ++ encode rest)) := by
    have ascii : String.utf8EncodeChar 'R' = [0x52] ∧ String.utf8EncodeChar '"' = [0x22] ∧
        String.utf8EncodeChar '(' = [0x28] ∧ String.utf8EncodeChar ')' = [0x29] :=
      ⟨rfl, rfl, rfl, rfl⟩
    simp [encode_append, ascii, closing]
  have through := lengthThrough_closing valid (fun h => none_in (infix_of_closing h)) (encode rest)
    (2 + (encode d).length + 1)
  have raw := rawLength?_eq_some_iff.2 ⟨encode d, _, octets, valid, through.symm⟩
  refine prefixedRawLength?_eq_some_iff.2 ⟨e, he, _, _, by simp, raw, ?_⟩
  have sizes : 'R'.utf8Size = 1 ∧ '"'.utf8Size = 1 ∧ '('.utf8Size = 1 ∧ ')'.utf8Size = 1 :=
    ⟨rfl, rfl, rfl, rfl⟩
  simp only [byteLength_append, byteLength_cons, byteLength_nil, closing, length_encode,
    List.length_append, List.length_cons, List.length_nil, sizes]
  omega

/-! ## Raw strings read

What is read as a raw string is one written out, or one that nothing closes. -/

/-- A raw string that nothing closes; it takes in all that follows. -/
inductive OpenRawString : List Char → Prop where
  | intro {e d body : List Char} : e ∈ encodings → ValidDelimiter (encode d) →
      ¬ (')' :: d ++ ['"']) <:+: body → OpenRawString (e ++ ('R' :: '"' :: d ++ '(' :: body))

theorem encode_opening (d body : List Char) :
    encode ('R' :: '"' :: d ++ '(' :: body) = 0x52 :: 0x22 :: encode d ++ 0x28 :: encode body := by
  have ascii : String.utf8EncodeChar 'R' = [0x52] ∧ String.utf8EncodeChar '"' = [0x22] ∧
      String.utf8EncodeChar '(' = [0x28] := ⟨rfl, rfl, rfl⟩
  simp [encode_append, ascii]

theorem OpenRawString.length {text : List Char} (h : OpenRawString text) :
    prefixedRawLength? text = some (byteLength text) := by
  obtain @⟨e, d, body, he, valid, none_in⟩ := h
  have raw := rawLength?_eq_some_iff.2 ⟨encode d, encode body, encode_opening d body, valid, rfl⟩
  have through : lengthThrough (closing (encode d)) (2 + (encode d).length + 1) (encode body) =
      byteLength ('R' :: '"' :: d ++ '(' :: body) := by
    rw [lengthThrough_absent (fun inside => none_in (infix_of_closing inside)),
      ← length_encode ('R' :: '"' :: d ++ '(' :: body), encode_opening]
    simp only [List.length_append, List.length_cons]
    omega
  exact prefixedRawLength?_eq_some_iff.2 ⟨e, he, _, _, rfl, raw, by rw [through, byteLength_append]⟩

theorem exists_opening {text : List Char} (h : prefixedRawLength? text = some n) :
    ∃ e d body, e ∈ encodings ∧ ValidDelimiter (encode d) ∧
      text = e ++ ('R' :: '"' :: d ++ '(' :: body) := by
  obtain ⟨e, he, raw, m, rfl, hm, -⟩ := prefixedRawLength?_eq_some_iff.1 h
  obtain ⟨tail, rfl⟩ := exists_of_rawLength? hm
  obtain ⟨d, body, whole, valid, -⟩ := rawLength?_eq_some_iff.1 hm
  have behind : encode tail = d ++ 0x28 :: body := (List.cons.inj (List.cons.inj whole).2).2
  obtain ⟨before, after, rfl, rfl, -⟩ := encode_cut_char '(' behind (by decide) rfl
  exact ⟨e, before, after, he, valid, rfl⟩

theorem exists_length_of_opening {e d : List Char} (he : e ∈ encodings)
    (valid : ValidDelimiter (encode d)) (body : List Char) :
    ∃ n, prefixedRawLength? (e ++ ('R' :: '"' :: d ++ '(' :: body)) = some n :=
  ⟨_, prefixedRawLength?_eq_some_iff.2 ⟨e, he, _, _, rfl,
    rawLength?_eq_some_iff.2 ⟨encode d, encode body, encode_opening d body, valid, rfl⟩, rfl⟩⟩

/-- What stands in a text stands there a first time. -/
theorem exists_first {word text : List Char} (nonempty : word ≠ []) (h : word <:+: text) :
    ∃ before after, text = before ++ word ++ after ∧ ¬ word <:+: before := by
  induction text with
  | nil => exact absurd (List.infix_nil.1 h) nonempty
  | cons ch text ih =>
    by_cases here : word <+: ch :: text
    · obtain ⟨after, whole⟩ := here
      exact ⟨[], after, whole.symm, fun inside => nonempty (List.infix_nil.1 inside)⟩
    · obtain ⟨before, after, rfl, none_before⟩ := ih ((List.infix_cons_iff.1 h).resolve_left here)
      refine ⟨ch :: before, after, rfl, fun inside => ?_⟩
      rcases List.infix_cons_iff.1 inside with first | later
      · exact here (first.trans ⟨word ++ after, by simp⟩)
      · exact none_before later

theorem rawString_or_open {text : List Char} (h : prefixedRawLength? text = some n) :
    (∃ raw rest, text = raw ++ rest ∧ RawString raw) ∨ OpenRawString text := by
  obtain ⟨e, d, body, he, valid, rfl⟩ := exists_opening h
  by_cases closed : (')' :: d ++ ['"']) <:+: body
  · obtain ⟨before, after, rfl, first⟩ := exists_first (List.cons_ne_nil _ _) closed
    exact .inl ⟨_, after, by simp, .intro he valid first⟩
  · exact .inr (.intro he valid closed)

end Literal
end LambdaTally
