import LambdaTally.Text.Unicode.Alphabetic
import LambdaTally.Text.Unicode.Number
import LambdaTally.Text.Unicode.Mark

/-!
# LambdaTally.Text.CharClass

The four classes of characters that the rest of the library tells apart: blanks, letters and
numbers, the characters of an identifier, and the characters of a word in a pattern. Each is the
Unicode class on the whole of `Char`; below U+0080 it reduces to the ASCII test, which is all that
the brackets and keywords of a source need.
-/

namespace LambdaTally

/-- Membership in a table of closed ranges of code points. -/
def Unicode.inRanges (ranges : List (Nat × Nat)) (n : Nat) : Bool :=
  ranges.any fun r => r.1 ≤ n && n ≤ r.2

namespace CharClass

/-- White space: the Unicode property White_Space. -/
def isBlank (c : Char) : Bool :=
  let n := c.toNat
  (9 ≤ n && n ≤ 13) || n == 0x20 || n == 0x85 || n == 0xA0 || n == 0x1680 ||
    (0x2000 ≤ n && n ≤ 0x200A) || n == 0x2028 || n == 0x2029 || n == 0x202F || n == 0x205F ||
    n == 0x3000

/-- Letters and numbers of every script. -/
def isAlphanumeric (c : Char) : Bool :=
  c.isAlphanum ||
    (0x80 ≤ c.toNat &&
      (Unicode.inRanges Unicode.alphabetic c.toNat || Unicode.inRanges Unicode.decimal c.toNat ||
        Unicode.inRanges Unicode.otherNumber c.toNat))

/-- A character that continues an identifier or a number. -/
def isNameChar (c : Char) : Bool := isAlphanumeric c || c == '_'

/-- A character that a word boundary of a pattern counts to the word: letters, marks, digits,
connecting punctuation and the two joiners. -/
def isWordChar (c : Char) : Bool :=
  c.isAlphanum || c == '_' ||
    (0x80 ≤ c.toNat &&
      (Unicode.inRanges Unicode.alphabetic c.toNat || Unicode.inRanges Unicode.mark c.toNat ||
        Unicode.inRanges Unicode.decimal c.toNat || Unicode.inRanges Unicode.connector c.toNat ||
        c.toNat == 0x200C || c.toNat == 0x200D))

/-- `text` without its blanks at the end. -/
def trimEnd (text : List Char) : List Char := (text.reverse.dropWhile isBlank).reverse

/-- `text` without its blanks at either end. -/
def trim (text : List Char) : List Char := trimEnd (text.dropWhile isBlank)

/-- ASCII capitals become small letters; every other character stays. -/
def asciiLower (text : List Char) : List Char := text.map Char.toLower

end CharClass
end LambdaTally
