import LambdaTally.Number.Decimal

/-!
# LambdaTally.Output.YamlScalar

The form of a text as a value of a YAML mapping. A text with a line break is a literal block. Any
other is plain if it can stand so and reads back as a text, and in single quotes if not. Where a
character or a blank would be lost that way, the text is in double quotes, with escapes. No line is
folded.
-/

namespace LambdaTally
namespace YamlScalar

inductive Style where
  | plain
  | single
  | double
  | literal
  deriving DecidableEq, Repr

/-- A line break. Beside the usual ones there are the next-line character and the separators of
lines and of paragraphs. -/
def isBreak (c : Char) : Bool :=
  c == '\n' || c == '\r' || c == '\x85' || c == '\u2028' || c == '\u2029'

/-- A space, a tab, a line break or NUL. -/
def isBlank (c : Char) : Bool := c == ' ' || c == '\t' || c == '\x00' || isBreak c

/-- A character that is written as it is. -/
def isPrintable (c : Char) : Bool :=
  let n := c.toNat
  n == 0x0A || (0x20 ≤ n && n ≤ 0x7E) || (0xA0 ≤ n && n != 0xFEFF && n != 0xFFFE && n != 0xFFFF)

/-- The text has a neighbouring pair with a property. -/
def hasPair (p : Char → Char → Bool) : List Char → Bool
  | a :: b :: rest => p a b || hasPair p (b :: rest)
  | _ => false

/-- The text has a character with a property at its end or before a blank. -/
def hasFinal (p : Char → Bool) : List Char → Bool
  | [] => false
  | [c] => p c
  | a :: b :: rest => (p a && isBlank b) || hasFinal p (b :: rest)

/-- The marks that start something other than a plain text. -/
def indicators : List Char := "#,[]\x7b\x7d&*!|>'\"%@\x60".toList

/-- The text begins like something other than a plain text. -/
def beginsMarked : List Char → Bool
  | [] => false
  | c :: rest =>
    indicators.contains c || ((c == '?' || c == '-') && rest.head?.all isBlank) ||
      "---".toList.isPrefixOf (c :: rest) || "...".toList.isPrefixOf (c :: rest)

/-- The text holds the start of a comment, or a colon that would end a key. -/
def holdsMark (text : List Char) : Bool :=
  hasPair (fun a b => isBlank a && b == '#') text || hasFinal (· == ':') text

/-- The text cannot stand plain. -/
def isMarked (text : List Char) : Bool :=
  beginsMarked text || holdsMark text || text.any isBreak || text.head? == some ' ' ||
    text.getLast? == some ' '

/-- Digits after a zero, with or without a sign. -/
def isPadded (text : List Char) : Bool :=
  let unsigned :=
    match text with
    | '-' :: rest => rest
    | '+' :: rest => rest
    | rest => rest
  match unsigned with
  | '0' :: digits => digits != [] && digits.all Char.isDigit
  | _ => false

/-- The value of digits in a base, if there is at least one and each is a digit of it. -/
def baseValue? (base : Nat) (digits : List Char) : Option Nat :=
  let value? (c : Char) : Option Nat :=
    let n :=
      if c.isDigit then c.toNat - '0'.toNat
      else if 'a' ≤ c ∧ c ≤ 'f' then c.toNat - 'a'.toNat + 10
      else if 'A' ≤ c ∧ c ≤ 'F' then c.toNat - 'A'.toNat + 10
      else base
    if n < base then some n else none
  if digits = [] then none
  else (digits.mapM value?).map fun values => values.foldl (fun n d => n * base + d) 0

/-- A number in base sixteen, eight or two. -/
def basedValue? : List Char → Option Nat
  | '0' :: 'x' :: digits => baseValue? 16 digits
  | '0' :: 'o' :: digits => baseValue? 8 digits
  | '0' :: 'b' :: digits => baseValue? 2 digits
  | _ => none

/-- A whole number of at most 128 bits in one of the bases. -/
def isBased : List Char → Bool
  | '-' :: rest => (basedValue? rest).any (· ≤ Nat.pow 2 127)
  | '+' :: rest => (basedValue? rest).any (· < Nat.pow 2 128)
  | rest => (basedValue? rest).any (· < Nat.pow 2 128)

/-- A finite decimal number. -/
def isDecimal (text : List Char) : Bool :=
  match text with
  | '+' :: '+' :: _ => false
  | '+' :: '-' :: _ => false
  | _ =>
    match Decimal.read text with
    | .ok x => x.isFinite
    | .error _ => false

/-- The words for null, the two truth values, infinity and what is not a number. -/
def words : List String :=
  ["~", "null", "Null", "NULL", "true", "True", "TRUE", "false", "False", "FALSE",
   ".inf", ".Inf", ".INF", "+.inf", "+.Inf", "+.INF", "-.inf", "-.Inf", "-.INF",
   ".nan", ".NaN", ".NAN"]

/-- The text, written plain, would not read back as a text or is a number with zeros in front. -/
def isTaken (text : List Char) : Bool :=
  text.isEmpty || words.contains (String.ofList text) || isPadded text || isBased text ||
    isDecimal text

/-- A space right before a line break would be lost outside double quotes. -/
def losesSpace (text : List Char) : Bool := hasPair (fun a b => a == ' ' && isBreak b) text

/-- The form that a text takes. -/
def style (text : List Char) : Style :=
  let needsEscapes := losesSpace text || !text.all isPrintable
  if text.contains '\n' then
    if needsEscapes || text.getLast? == some ' ' then .double else .literal
  else if isTaken text || isMarked text then
    if needsEscapes || hasPair (fun a b => isBreak a && b == ' ') text then .double else .single
  else if needsEscapes then .double
  else .plain

/-- Upper-case hexadecimal digits, filled up with zeros to a width. -/
def hexadecimal (width n : Nat) : List Char :=
  let digits := (Nat.toDigits 16 n).map Char.toUpper
  List.replicate (width - digits.length) '0' ++ digits

/-- A character inside double quotes. -/
def escape (c : Char) : List Char :=
  if isPrintable c ∧ ¬isBreak c ∧ c ≠ '"' ∧ c ≠ '\\' then [c]
  else
    match c with
    | '\x00' => ['\\', '0']
    | '\x07' => ['\\', 'a']
    | '\x08' => ['\\', 'b']
    | '\t' => ['\\', 't']
    | '\n' => ['\\', 'n']
    | '\x0b' => ['\\', 'v']
    | '\x0c' => ['\\', 'f']
    | '\r' => ['\\', 'r']
    | '\x1b' => ['\\', 'e']
    | '"' => ['\\', '"']
    | '\\' => ['\\', '\\']
    | '\x85' => ['\\', 'N']
    | '\u2028' => ['\\', 'L']
    | '\u2029' => ['\\', 'P']
    | c =>
      if c.toNat ≤ 0xFF then '\\' :: 'x' :: hexadecimal 2 c.toNat
      else '\\' :: 'u' :: hexadecimal 4 c.toNat

/-- The lines of a block, each but an empty one behind its indent. `fresh` says that nothing of the
line has been written yet. -/
def indented (indent : Nat) (fresh : Bool) : List Char → List Char
  | [] => []
  | c :: rest =>
    if isBreak c then c :: indented indent true rest
    else (if fresh then List.replicate indent ' ' else []) ++ c :: indented indent false rest

/-- The hints behind the bar of a literal block: its indent, if it begins with a blank, and what
becomes of its last line break. -/
def hints (text : List Char) : List Char :=
  (match text with
    | c :: _ => if c = ' ' ∨ isBreak c then ['2'] else []
    | [] => []) ++
  match text.reverse with
  | [] => ['-']
  | [c] => if isBreak c then ['+'] else ['-']
  | c :: d :: _ => if isBreak c then if isBreak d then ['+'] else [] else ['-']

/-- The text ends a line by itself. -/
def endsLine (text : List Char) : Bool := text.getLast?.any isBreak

/-- A text in single quotes; a quote inside it is written twice. -/
def singleQuoted (indent : Nat) (text : List Char) : List Char :=
  '\'' :: indented indent false (text.flatMap fun c => if c = '\'' then ['\'', '\''] else [c]) ++
    (if endsLine text then List.replicate indent ' ' else []) ++ ['\'']

/-- A text as a value, through the end of its last line. Further lines of it get an indent. -/
def write (indent : Nat) (text : List Char) : List Char :=
  match style text with
  | .plain => text ++ ['\n']
  | .single => singleQuoted indent text ++ ['\n']
  | .double => '"' :: text.flatMap escape ++ ['"', '\n']
  | .literal =>
    '|' :: hints text ++ '\n' :: indented indent true text ++ if endsLine text then [] else ['\n']

end YamlScalar
end LambdaTally
