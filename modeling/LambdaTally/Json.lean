import LambdaTally.Number.Binary64

/-!
# LambdaTally.Json

JSON documents and their two written forms: compact, and pretty with an indent of two spaces a
level. Objects are lists of fields, so a document keeps the order of its fields and may hold a name
twice; `sorted` puts them in the order of their names. Numbers stay as they were written.
-/

namespace LambdaTally

/-- A number as written: sign, digits before the point, digits after it (none if there is no
point), and the power of ten after an `e`. -/
structure Numeral where
  negative : Bool
  whole : Nat
  fraction : List Char
  exponent : Option Int
  deriving DecidableEq, Repr

inductive Json where
  | null
  | bool (value : Bool)
  | number (value : Numeral)
  | string (text : List Char)
  | array (items : List Json)
  | object (fields : List (List Char × Json))
  deriving Repr

namespace Numeral

def ofNat (n : Nat) : Numeral := ⟨false, n, [], none⟩

def write (n : Numeral) : List Char :=
  (if n.negative then ['-'] else []) ++ Nat.toDigits 10 n.whole ++
    (if n.fraction = [] then [] else '.' :: n.fraction) ++
    match n.exponent with
    | none => []
    | some e => 'e' :: (if e < 0 then ['-'] else []) ++ Nat.toDigits 10 e.natAbs

end Numeral

namespace Json

def natural (n : Nat) : Json := number (.ofNat n)

def ofString (s : String) : Json := string s.toList

/-- A hexadecimal digit. -/
def hexDigit (n : Nat) : Char := Nat.digitChar n

/-- The written form of a character inside a string. Only the quote, the backslash and the control
characters of ASCII are escaped. -/
def escape (c : Char) : List Char :=
  if c = '"' then ['\\', '"']
  else if c = '\\' then ['\\', '\\']
  else if c = '\x08' then ['\\', 'b']
  else if c = '\t' then ['\\', 't']
  else if c = '\n' then ['\\', 'n']
  else if c = '\x0c' then ['\\', 'f']
  else if c = '\r' then ['\\', 'r']
  else if c.toNat < 0x20 then
    ['\\', 'u', '0', '0', hexDigit (c.toNat / 16), hexDigit (c.toNat % 16)]
  else [c]

/-- A string in quotes. -/
def quote (text : List Char) : List Char := '"' :: text.flatMap escape ++ ['"']

mutual

/-- A document without blanks. -/
def compact : Json → List Char
  | null => "null".toList
  | bool value => (if value then "true" else "false").toList
  | number value => value.write
  | string text => quote text
  | array items => '[' :: compactItems items ++ [']']
  | object fields => '\x7b' :: compactFields fields ++ ['\x7d']

def compactItems : List Json → List Char
  | [] => []
  | [item] => compact item
  | item :: rest => compact item ++ ',' :: compactItems rest

def compactFields : List (List Char × Json) → List Char
  | [] => []
  | [(name, value)] => quote name ++ ':' :: compact value
  | (name, value) :: rest => quote name ++ ':' :: compact value ++ ',' :: compactFields rest

end

/-- The break before a line at a level. -/
def newline (level : Nat) : List Char := '\n' :: List.replicate (2 * level) ' '

mutual

/-- A document with one item or field a line, its own lines at a level. -/
def pretty (level : Nat) : Json → List Char
  | null => "null".toList
  | bool value => (if value then "true" else "false").toList
  | number value => value.write
  | string text => quote text
  | array [] => "[]".toList
  | array items => '[' :: prettyItems (level + 1) items ++ newline level ++ [']']
  | object [] => "\x7b\x7d".toList
  | object fields => '\x7b' :: prettyFields (level + 1) fields ++ newline level ++ ['\x7d']

def prettyItems (level : Nat) : List Json → List Char
  | [] => []
  | [item] => newline level ++ pretty level item
  | item :: rest => newline level ++ pretty level item ++ ',' :: prettyItems level rest

def prettyFields (level : Nat) : List (List Char × Json) → List Char
  | [] => []
  | [(name, value)] => newline level ++ quote name ++ ": ".toList ++ pretty level value
  | (name, value) :: rest =>
    newline level ++ quote name ++ ": ".toList ++ pretty level value ++
      ',' :: prettyFields level rest

end

/-- Puts a field in front of the first one with a greater name. -/
def insertField (name : List Char) (value : Json) :
    List (List Char × Json) → List (List Char × Json)
  | [] => [(name, value)]
  | (other, kept) :: rest =>
    if name < other then (name, value) :: (other, kept) :: rest
    else (other, kept) :: insertField name value rest

mutual

/-- The document with the fields of every object in the order of their names. -/
def sorted : Json → Json
  | array items => array (sortedItems items)
  | object fields => object (sortedFields fields)
  | value => value

def sortedItems : List Json → List Json
  | [] => []
  | item :: rest => sorted item :: sortedItems rest

def sortedFields : List (List Char × Json) → List (List Char × Json)
  | [] => []
  | (name, value) :: rest => insertField name (sorted value) (sortedFields rest)

end

end Json
end LambdaTally
