/-!
# LambdaTally.Text.Utf8

Text as a list of characters and as the octets of its UTF-8 form. Offsets are counted in octets,
so `byteLength` is the length that positions refer to.

Decoding reads a character at a time. A first octet fixes how many further octets it owes and the
range of the next one (`Owed`); where that range is left, the octets read so far are one
ill-formed stretch. `decode?` refuses such input, `decodeLossy` puts the replacement character in
place of each stretch.
-/

namespace LambdaTally
namespace Utf8

/-- Length of the UTF-8 form of a text, in octets. -/
def byteLength : List Char → Nat
  | [] => 0
  | c :: rest => c.utf8Size + byteLength rest

/-- The octets of a text. -/
def encode (text : List Char) : List UInt8 := text.flatMap String.utf8EncodeChar

/-- What is still to come of a character: how many octets, the least and the greatest value of the
next one, and the bits read so far. -/
structure Owed where
  count : Nat
  low : UInt8
  high : UInt8
  bits : Nat

/-- What a first octet announces, or `none` if no character starts with it. -/
def Owed.ofFirst (b : UInt8) : Option Owed :=
  let n := b.toNat
  if n < 0x80 then some ⟨0, 0, 0, n⟩
  else if 0xC2 ≤ n ∧ n ≤ 0xDF then some ⟨1, 0x80, 0xBF, n - 0xC0⟩
  else if n = 0xE0 then some ⟨2, 0xA0, 0xBF, n - 0xE0⟩
  else if n = 0xED then some ⟨2, 0x80, 0x9F, n - 0xE0⟩
  else if 0xE1 ≤ n ∧ n ≤ 0xEF then some ⟨2, 0x80, 0xBF, n - 0xE0⟩
  else if n = 0xF0 then some ⟨3, 0x90, 0xBF, n - 0xF0⟩
  else if 0xF1 ≤ n ∧ n ≤ 0xF3 then some ⟨3, 0x80, 0xBF, n - 0xF0⟩
  else if n = 0xF4 then some ⟨3, 0x80, 0x8F, n - 0xF0⟩
  else none

/-- Reads the `count` octets owed. The result is the character, or `none` where the octets run out
of range or out, and what is left to read. -/
def readOwed : (count : Nat) → (low high : UInt8) → (bits : Nat) → List UInt8 →
    Option Char × List UInt8
  | 0, _, _, bits, rest => (some (Char.ofNat bits), rest)
  | _ + 1, _, _, _, [] => (none, [])
  | count + 1, low, high, bits, b :: rest =>
    if low ≤ b ∧ b ≤ high then readOwed count 0x80 0xBF (bits * 64 + (b.toNat - 0x80)) rest
    else (none, b :: rest)

theorem readOwed_length_le (count : Nat) (low high : UInt8) (bits : Nat) (octets : List UInt8) :
    (readOwed count low high bits octets).2.length ≤ octets.length := by
  induction octets generalizing count low high bits with
  | nil => cases count <;> simp [readOwed]
  | cons b rest ih =>
    cases count with
    | zero => simp [readOwed]
    | succ count =>
      simp only [readOwed]
      split
      · exact Nat.le_trans (ih _ _ _ _) (by simp)
      · simp

/-- The character at the front, or `none` for an ill-formed stretch, and what follows it. -/
def readChar (b : UInt8) (rest : List UInt8) : Option Char × List UInt8 :=
  match Owed.ofFirst b with
  | some owed => readOwed owed.count owed.low owed.high owed.bits rest
  | none => (none, rest)

theorem readChar_length_le (b : UInt8) (rest : List UInt8) :
    (readChar b rest).2.length ≤ rest.length := by
  unfold readChar
  split
  · exact readOwed_length_le _ _ _ _ _
  · simp

/-- Everything read, latest first: the characters, and `none` for each ill-formed stretch. -/
def readOnto (read : List (Option Char)) : List UInt8 → List (Option Char)
  | [] => read
  | b :: rest => readOnto ((readChar b rest).1 :: read) (readChar b rest).2
termination_by octets => octets.length
decreasing_by
  have := readChar_length_le b rest
  simp only [List.length_cons]
  omega

/-- The text that the octets spell, if they are well-formed throughout. -/
def decode? (octets : List UInt8) : Option (List Char) :=
  (readOnto [] octets).reverse.mapM id

/-- The text that the octets spell, with U+FFFD for each ill-formed stretch. -/
def decodeLossy (octets : List UInt8) : List Char :=
  (readOnto [] octets).reverse.map (·.getD '\uFFFD')

@[simp] theorem byteLength_nil : byteLength [] = 0 := rfl

@[simp] theorem byteLength_cons (c : Char) (rest : List Char) :
    byteLength (c :: rest) = c.utf8Size + byteLength rest := rfl

theorem byteLength_append (a b : List Char) :
    byteLength (a ++ b) = byteLength a + byteLength b := by
  induction a with
  | nil => simp
  | cons c a ih => simp [ih, Nat.add_assoc]

end Utf8
end LambdaTally
