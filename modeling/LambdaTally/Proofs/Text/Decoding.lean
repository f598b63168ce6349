import LambdaTally.Text.Utf8
import Mathlib.Algebra.Group.Nat.Defs

/-!
# LambdaTally.Proofs.Text.Decoding

Octets that are the UTF-8 form of a text are decoded to that text (`decode?_encode`), and a character of
ASCII in a decoded text stood among the octets (`mem_of_mem_decode?`). The first octet of a
character announces how many more there are and the range of the second one, which leaves out the long
forms and the surrogates; that no character needs these is what the cases below come down to.
-/

namespace LambdaTally
namespace Utf8

section Owed

variable {n m : Nat}

theorem toNat_ofNat (h : n < 0x100) : (UInt8.ofNat n).toNat = n := by
  rw [UInt8.toNat_ofNat', Nat.mod_eq_of_lt h]

/-- An octet in the range of the next one adds its six bits. -/
theorem readOwed_ofNat {low high : UInt8} (lower : low.toNat ≤ n + 0x80) (upper : n + 0x80 ≤ high.toNat)
    (count bits : Nat) (rest : List UInt8) :
    readOwed (count + 1) low high bits (.ofNat (n + 0x80) :: rest) =
      readOwed count 0x80 0xBF (bits * 64 + n) rest := by
  have octet : (UInt8.ofNat (n + 0x80)).toNat = n + 0x80 :=
    toNat_ofNat (Nat.lt_of_le_of_lt upper high.toNat_lt)
  have within : low ≤ .ofNat (n + 0x80) ∧ UInt8.ofNat (n + 0x80) ≤ high := by
    rw [UInt8.le_iff_toNat_le, UInt8.le_iff_toNat_le, octet]
    exact ⟨lower, upper⟩
  rw [readOwed, if_pos within, octet, Nat.add_sub_cancel]

theorem readOwed_later (h : n < 64) (count bits : Nat) (rest : List UInt8) :
    readOwed (count + 1) 0x80 0xBF bits (.ofNat (n + 0x80) :: rest) =
      readOwed count 0x80 0xBF (bits * 64 + n) rest :=
  readOwed_ofNat (show 0x80 ≤ n + 0x80 by omega) (show n + 0x80 ≤ 0xBF by omega) count bits rest

theorem ofFirst_two (h : 2 ≤ n ∧ n < 32) :
    Owed.ofFirst (.ofNat (n + 0xC0)) = some ⟨1, 0x80, 0xBF, n⟩ := by
  rw [Owed.ofFirst, toNat_ofNat (by omega)]
  rw [if_neg (by omega), if_pos (by omega), Nat.add_sub_cancel]

/-- The second of three octets, where the character is neither shorter nor a surrogate. -/
theorem ofFirst_three (first : n < 16) (second : m < 64) (short : n = 0 → 32 ≤ m)
    (surrogate : n = 13 → m < 32) :
    ∃ low high, Owed.ofFirst (.ofNat (n + 0xE0)) = some ⟨2, low, high, n⟩ ∧
      low.toNat ≤ m + 0x80 ∧ m + 0x80 ≤ high.toNat := by
  rw [Owed.ofFirst, toNat_ofNat (by omega)]
  rw [if_neg (by omega), if_neg (by omega), Nat.add_sub_cancel]
  by_cases least : n = 0
  · have := short least
    exact ⟨0xA0, 0xBF, by rw [if_pos (by omega)], show 0xA0 ≤ _ by omega, show _ ≤ 0xBF by omega⟩
  · by_cases surrogates : n = 13
    · have := surrogate surrogates
      exact ⟨0x80, 0x9F, by rw [if_neg (by omega), if_pos (by omega)], show 0x80 ≤ _ by omega,
        show _ ≤ 0x9F by omega⟩
    · exact ⟨0x80, 0xBF, by rw [if_neg (by omega), if_neg (by omega), if_pos (by omega)],
        show 0x80 ≤ _ by omega, show _ ≤ 0xBF by omega⟩

/-- The second of four octets, where the character is neither shorter nor past the last one. -/
theorem ofFirst_four (first : n < 5) (second : m < 64) (short : n = 0 → 16 ≤ m) (last : n = 4 → m < 16) :
    ∃ low high, Owed.ofFirst (.ofNat (n + 0xF0)) = some ⟨3, low, high, n⟩ ∧
      low.toNat ≤ m + 0x80 ∧ m + 0x80 ≤ high.toNat := by
  rw [Owed.ofFirst, toNat_ofNat (by omega)]
  rw [if_neg (by omega), if_neg (by omega), if_neg (by omega), if_neg (by omega), if_neg (by omega),
    Nat.add_sub_cancel]
  by_cases least : n = 0
  · have := short least
    exact ⟨0x90, 0xBF, by rw [if_pos (by omega)], show 0x90 ≤ _ by omega, show _ ≤ 0xBF by omega⟩
  · by_cases greatest : n = 4
    · have := last greatest
      exact ⟨0x80, 0x8F, by rw [if_neg (by omega), if_neg (by omega), if_pos (by omega)],
        show 0x80 ≤ _ by omega, show _ ≤ 0x8F by omega⟩
    · exact ⟨0x80, 0xBF, by rw [if_neg (by omega), if_pos (by omega)], show 0x80 ≤ _ by omega,
        show _ ≤ 0xBF by omega⟩

end Owed

theorem readChar_eq {b low high : UInt8} {count bits : Nat}
    (h : Owed.ofFirst b = some ⟨count, low, high, bits⟩) (rest : List UInt8) :
    readChar b rest = readOwed count low high bits rest := by
  rw [readChar, h]

/-- A character is read off its octets. -/
theorem exists_readChar (c : Char) :
    ∃ b octets, String.utf8EncodeChar c = b :: octets ∧
      ∀ rest, readChar b (octets ++ rest) = (some c, rest) := by
  have valid : c.val.toNat < 0xD800 ∨ 0xDFFF < c.val.toNat ∧ c.val.toNat < 0x110000 := c.valid
  have same (v : Nat) (h : v = c.val.toNat) : Char.ofNat v = c := by
    rw [h]
    exact Char.ofNat_toNat c
  unfold String.utf8EncodeChar
  dsimp only
  generalize c.val.toNat = v at valid same ⊢
  split
  · -- one octet
    refine ⟨_, _, rfl, fun rest => ?_⟩
    have first : Owed.ofFirst (.ofNat v) = some ⟨0, 0, 0, v⟩ := by
      rw [Owed.ofFirst, toNat_ofNat (by omega)]
      rw [if_pos (by omega)]
    rw [readChar_eq first, List.nil_append, readOwed, same v rfl]
  · split
    · -- two octets
      refine ⟨_, _, rfl, fun rest => ?_⟩
      have first := ofFirst_two (n := v / 64 % 32) (by omega)
      rw [readChar_eq first, List.cons_append, readOwed_later (by omega), List.nil_append, readOwed,
        same _ (by omega)]
    · split
      · -- three octets
        refine ⟨_, _, rfl, fun rest => ?_⟩
        obtain ⟨low, high, first, lower, upper⟩ :=
          ofFirst_three (n := v / 4096 % 16) (m := v / 64 % 64) (by omega) (by omega) (by omega) (by omega)
        rw [readChar_eq first, List.cons_append, readOwed_ofNat lower upper, List.cons_append,
          readOwed_later (by omega), List.nil_append, readOwed, same _ (by omega)]
      · -- four octets
        refine ⟨_, _, rfl, fun rest => ?_⟩
        obtain ⟨low, high, first, lower, upper⟩ :=
          ofFirst_four (n := v / 262144 % 8) (m := v / 4096 % 64) (by omega) (by omega) (by omega) (by omega)
        rw [readChar_eq first, List.cons_append, readOwed_ofNat lower upper, List.cons_append,
          readOwed_later (by omega), List.cons_append, readOwed_later (by omega), List.nil_append, readOwed,
          same _ (by omega)]

theorem readOnto_encode (text : List Char) (read : List (Option Char)) :
    readOnto read (encode text) = (text.map some).reverse ++ read := by
  induction text generalizing read with
  | nil =>
    rw [encode, List.flatMap_nil, readOnto]
    rfl
  | cons c text ih =>
    obtain ⟨b, octets, written, back⟩ := exists_readChar c
    have octets_eq : encode (c :: text) = b :: (octets ++ encode text) := by
      rw [encode, List.flatMap_cons, written]
      rfl
    rw [octets_eq, readOnto, back, ih, List.map_cons, List.reverse_cons, List.append_assoc]
    rfl

/-- The octets of a text are decoded to that text. -/
theorem decode?_encode (text : List Char) : decode? (encode text) = some text := by
  rw [decode?, readOnto_encode, List.append_nil, List.reverse_reverse]
  induction text with
  | nil => rfl
  | cons c text ih =>
    rw [List.map_cons, List.mapM_cons, ih]
    rfl

/-! ## Where an ASCII character comes from -/

section Ascii

variable {count bits : Nat} {low high b : UInt8} {octets : List UInt8} {ch : Char} {text : List Char}

/-- The bits read so far stay in front of those of the octets still owed. -/
theorem exists_code_readOwed (h : (readOwed count low high bits octets).1 = some ch) :
    ∃ code, ch = Char.ofNat code ∧ bits * 64 ^ count ≤ code := by
  induction octets generalizing count low high bits with
  | nil =>
    cases count with
    | zero => exact ⟨bits, (Option.some.inj h).symm, by simp⟩
    | succ count => cases h
  | cons b rest ih =>
    cases count with
    | zero => exact ⟨bits, (Option.some.inj h).symm, by simp⟩
    | succ count =>
      rw [readOwed] at h
      split at h
      · obtain ⟨code, same, most⟩ := ih h
        refine ⟨code, same, Nat.le_trans ?_ most⟩
        rw [Nat.pow_succ', ← Nat.mul_assoc]
        exact Nat.mul_le_mul_right _ (Nat.le_add_right _ _)
      · cases h

/-- The least value of the next octet counts too. -/
theorem exists_code_readOwed_succ (h : (readOwed (count + 1) low high bits octets).1 = some ch) :
    ∃ code, ch = Char.ofNat code ∧ (bits * 64 + (low.toNat - 0x80)) * 64 ^ count ≤ code := by
  cases octets with
  | nil => cases h
  | cons b rest =>
    rw [readOwed] at h
    split at h
    · rename_i within
      have least : low.toNat ≤ b.toNat := within.1
      obtain ⟨code, same, most⟩ := exists_code_readOwed h
      refine ⟨code, same, Nat.le_trans (Nat.mul_le_mul_right _ ?_) most⟩
      omega
    · cases h

/-- A first octet is a character of ASCII, or what it announces has a greater code than any of these. -/
theorem ofFirst_ascii {owed : Owed} (h : Owed.ofFirst b = some owed) :
    owed.count = 0 ∧ owed.bits = b.toNat ∨
      ∃ count, owed.count = count + 1 ∧
        0x80 ≤ (owed.bits * 64 + (owed.low.toNat - 0x80)) * 64 ^ count := by
  unfold Owed.ofFirst at h
  dsimp only at h
  split at h
  · cases h
    exact .inl ⟨rfl, rfl⟩
  · right
    repeat' split at h
    all_goals cases h
    all_goals
      refine ⟨_, rfl, ?_⟩
      simp only [UInt8.reduceToNat, Nat.reducePow]
      omega

theorem toNat_ofNat_of_ne {code : Nat} (h : Char.ofNat code ≠ '\x00') : (Char.ofNat code).toNat = code := by
  by_cases valid : code.isValidChar
  · rw [Char.ofNat, dif_pos valid]
    rfl
  · rw [Char.ofNat, dif_neg valid] at h
    exact absurd rfl h

/-- A character of ASCII is read off one octet, its code. -/
theorem readChar_ascii {rest : List UInt8} (h : (readChar b rest).1 = some ch) (some_code : ch ≠ '\x00')
    (ascii : ch.toNat < 0x80) : b = .ofNat ch.toNat := by
  unfold readChar at h
  split at h
  · rename_i owed announced
    rcases ofFirst_ascii announced with ⟨none_owed, whole⟩ | ⟨count, more, large⟩
    · rw [none_owed, readOwed, Option.some.injEq, whole] at h
      subst h
      rw [toNat_ofNat_of_ne some_code, UInt8.ofNat_toNat]
    · rw [more] at h
      obtain ⟨code, rfl, most⟩ := exists_code_readOwed_succ h
      rw [toNat_ofNat_of_ne some_code] at ascii
      omega
  · cases h

theorem readOwed_suffix (count : Nat) (low high : UInt8) (bits : Nat) (octets : List UInt8) :
    (readOwed count low high bits octets).2 <:+ octets := by
  induction octets generalizing count low high bits with
  | nil => cases count <;> exact List.suffix_rfl
  | cons b rest ih =>
    cases count with
    | zero => exact List.suffix_rfl
    | succ count =>
      rw [readOwed]
      split
      · exact (ih _ _ _ _).trans (List.suffix_cons b rest)
      · exact List.suffix_rfl

theorem readChar_suffix (b : UInt8) (rest : List UInt8) : (readChar b rest).2 <:+ rest := by
  unfold readChar
  split
  · exact readOwed_suffix _ _ _ _ _
  · exact List.suffix_rfl

theorem mem_of_mem_readOnto {read : List (Option Char)} (some_code : ch ≠ '\x00')
    (ascii : ch.toNat < 0x80) (h : some ch ∈ readOnto read octets) :
    some ch ∈ read ∨ UInt8.ofNat ch.toNat ∈ octets := by
  fun_induction readOnto read octets with
  | case1 read => exact .inl h
  | case2 read b rest ih =>
    rcases ih h with earlier | later
    · rcases List.mem_cons.1 earlier with here | before
      · rw [readChar_ascii here.symm some_code ascii]
        exact .inr (List.mem_cons_self)
      · exact .inl before
    · exact .inr (List.mem_cons_of_mem b ((readChar_suffix b rest).subset later))

theorem mem_of_mapM {l : List (Option Char)} (h : l.mapM id = some text) (mem : ch ∈ text) :
    some ch ∈ l := by
  induction l generalizing text with
  | nil =>
    cases h
    cases mem
  | cons x l ih =>
    rw [List.mapM_cons] at h
    obtain ⟨c, head, h⟩ := Option.bind_eq_some_iff.1 h
    obtain ⟨more, tail, same⟩ := Option.bind_eq_some_iff.1 h
    obtain rfl : x = some c := head
    obtain rfl : c :: more = text := Option.some.inj same
    rcases List.mem_cons.1 mem with rfl | later
    · exact List.mem_cons_self
    · exact List.mem_cons_of_mem _ (ih tail later)

/-- A character of ASCII in a decoded text, NUL apart, stood among the octets. -/
theorem mem_of_mem_decode? (h : decode? octets = some text) (some_code : ch ≠ '\x00')
    (ascii : ch.toNat < 0x80) (mem : ch ∈ text) : UInt8.ofNat ch.toNat ∈ octets := by
  have read := List.mem_reverse.1 (mem_of_mapM h mem)
  exact (mem_of_mem_readOnto some_code ascii read).resolve_left List.not_mem_nil

end Ascii

end Utf8
end LambdaTally
