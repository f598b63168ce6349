import LambdaTally.Text.Utf8

/-!
# LambdaTally.Proofs.Text.Octets

The octets of a text against its characters: as many as `byteLength` counts, and an octet below
0x80 is a whole character, so a text can be cut right after one (`encode_cut`) and at one
(`encode_cut_char`). Texts of the same octets are the same (`encode_injective`).
-/

namespace LambdaTally
namespace Utf8

@[simp] theorem encode_nil : encode [] = [] := rfl

@[simp] theorem encode_cons (c : Char) (rest : List Char) :
    encode (c :: rest) = String.utf8EncodeChar c ++ encode rest := rfl

theorem encode_append (a b : List Char) : encode (a ++ b) = encode a ++ encode b := by
  simp [encode]

@[simp] theorem length_encode (text : List Char) : (encode text).length = byteLength text := by
  induction text with
  | nil => rfl
  | cons c rest ih => simp [ih]

theorem byteLength_pos {text : List Char} (h : text ≠ []) : 0 < byteLength text := by
  cases text with
  | nil => exact absurd rfl h
  | cons c rest =>
    have := c.utf8Size_pos
    simp only [byteLength_cons]
    omega

theorem not_ofNat_lt {n k : Nat} (hk : 0x80 ≤ k) (hlt : n + k < 256) :
    ¬ UInt8.ofNat (n + k) < 0x80 := by
  rw [UInt8.lt_iff_toNat_lt, UInt8.toNat_ofNat', show (0x80 : UInt8).toNat = 0x80 from rfl]
  omega

/-- Only a character of one octet has an octet below 0x80. -/
theorem utf8EncodeChar_of_ascii {c : Char} {b : UInt8} (hb : b < 0x80)
    (h : b ∈ String.utf8EncodeChar c) : String.utf8EncodeChar c = [b] := by
  unfold String.utf8EncodeChar at h ⊢
  dsimp only at h ⊢
  split at h
  · rename_i hv
    rw [if_pos hv]
    rw [List.mem_singleton.1 h]
  · split at h
    · simp only [List.mem_cons, List.not_mem_nil, or_false] at h
      rcases h with rfl | rfl <;> exact absurd hb (not_ofNat_lt (by omega) (by omega))
    · split at h
      · simp only [List.mem_cons, List.not_mem_nil, or_false] at h
        rcases h with rfl | rfl | rfl <;> exact absurd hb (not_ofNat_lt (by omega) (by omega))
      · simp only [List.mem_cons, List.not_mem_nil, or_false] at h
        rcases h with rfl | rfl | rfl | rfl <;>
          exact absurd hb (not_ofNat_lt (by omega) (by omega))

/-- A text can be cut right after an octet below 0x80. -/
theorem encode_cut {text : List Char} {front back : List UInt8} {b : UInt8} (hb : b < 0x80)
    (h : encode text = front ++ b :: back) :
    ∃ before after, text = before ++ after ∧ encode before = front ++ [b] ∧
      encode after = back := by
  induction text generalizing front with
  | nil => simp at h
  | cons c rest ih =>
    rw [encode_cons] at h
    rcases List.append_eq_append_iff.1 h with ⟨more, hfront, hrest⟩ | ⟨more, hc, hmore⟩
    · -- the octet belongs to a later character
      obtain ⟨before, after, rfl, hbefore, hafter⟩ := ih hrest
      exact ⟨c :: before, after, rfl, by simp [hfront, hbefore], hafter⟩
    · cases more with
      | nil =>
        rw [List.append_nil] at hc
        have hrest : encode rest = [] ++ b :: back := hmore.symm
        obtain ⟨before, after, rfl, hbefore, hafter⟩ := ih hrest
        exact ⟨c :: before, after, rfl, by simp [hc, hbefore], hafter⟩
      | cons b' more =>
        -- the octet belongs to `c`, which therefore has no other
        obtain ⟨rfl, rfl⟩ := List.cons.inj hmore
        have single := utf8EncodeChar_of_ascii hb (c := c) (by simp [hc])
        rw [single] at hc
        obtain ⟨rfl, hnil⟩ : front = [] ∧ more = [] := by
          cases front with
          | nil => simpa using hc
          | cons x xs => simp at hc
        exact ⟨[c], rest, rfl, by simp [single], by simp [hnil]⟩

theorem encode_injective {a b : List Char} (h : encode a = encode b) : a = b := by
  have octets : a.utf8Encode = b.utf8Encode := congrArg List.toByteArray h
  have decoded := congrArg ByteArray.utf8Decode? octets
  rw [List.utf8Decode?_utf8Encode, List.utf8Decode?_utf8Encode] at decoded
  simpa using decoded

/-- A text is cut at a number of octets in one way at most. -/
theorem append_inj_of_byteLength {a b c d : List Char} (h : a ++ b = c ++ d)
    (same : byteLength a = byteLength c) : a = c ∧ b = d := by
  have octets := congrArg encode h
  rw [encode_append, encode_append] at octets
  obtain ⟨left, right⟩ := List.append_inj octets (by rwa [length_encode, length_encode])
  exact ⟨encode_injective left, encode_injective right⟩

/-- A text whose octets have one below 0x80 has the character of that octet there. -/
theorem encode_cut_char (ch : Char) {text : List Char} {front back : List UInt8} {b : UInt8}
    (h : encode text = front ++ b :: back) (hb : b < 0x80) (hch : String.utf8EncodeChar ch = [b]) :
    ∃ before after, text = before ++ ch :: after ∧ encode before = front ∧ encode after = back := by
  obtain ⟨cut, after, rfl, hcut, hafter⟩ := encode_cut hb h
  rcases List.eq_nil_or_concat cut with rfl | ⟨before, c, rfl⟩
  · simp at hcut
  rw [List.concat_eq_append, encode_append, encode_cons, encode_nil, List.append_nil] at hcut
  rcases List.eq_nil_or_concat (String.utf8EncodeChar c) with none_there | ⟨xs, x, whole⟩
  · have size := String.length_utf8EncodeChar c
    rw [none_there] at size
    exact absurd size (Nat.ne_of_lt c.utf8Size_pos)
  · rw [List.concat_eq_append] at whole
    rw [whole, ← List.append_assoc] at hcut
    obtain ⟨hfront, same⟩ := List.append_inj' hcut rfl
    obtain rfl := List.singleton_inj.1 same
    have single := utf8EncodeChar_of_ascii hb (c := c) (by simp [whole])
    have alone : c = ch := List.singleton_inj.1 (encode_injective (by simp [single, hch]))
    rw [whole] at single
    obtain rfl : xs = [] := by simpa using single
    exact ⟨before, after, by simp [alone], by simpa using hfront, hafter⟩

end Utf8
end LambdaTally
