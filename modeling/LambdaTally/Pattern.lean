import LambdaTally.Text.CharClass
import LambdaTally.Text.Utf8

/-!
# LambdaTally.Pattern

Text patterns with ordered choice. `ends` gives, for a place in a text, every place where a match
that starts there can end, in the order of preference: the left side of a choice before the right
one, greedy repetition from the longest run down, lazy repetition from the shortest run up.
`matchesIn` are the leftmost matches of a text that do not overlap, each ended at its first
preference.

`source` writes a pattern in the usual notation of regular expressions.
-/

namespace LambdaTally

inductive Pattern where
  /-- These characters, one after the other. -/
  | literal (text : List Char)
  /-- One blank. -/
  | blank
  /-- The border of a word; takes no character. -/
  | boundary
  /-- One character that is none of these. -/
  | noneOf (excluded : List Char)
  | seq (first second : Pattern)
  | either (first second : Pattern)
  /-- The same pattern, set in parentheses. -/
  | group (inner : Pattern)
  /-- Once if possible, else not at all. -/
  | optional (inner : Pattern)
  /-- As often as possible. -/
  | many (inner : Pattern)
  /-- As seldom as possible. -/
  | few (inner : Pattern)
  deriving DecidableEq, Repr

/-- A place in a text: how many octets stand before it, the character before it, and the text from
there on. -/
structure Place where
  offset : Nat
  previous : Option Char
  rest : List Char
  deriving DecidableEq, Repr

namespace Place

/-- The start of a text. -/
def ofText (text : List Char) : Place := ⟨0, none, text⟩

/-- The next character, and the place after it. -/
def next? (p : Place) : Option (Char × Place) :=
  match p.rest with
  | [] => none
  | ch :: rest => some (ch, ⟨p.offset + ch.utf8Size, some ch, rest⟩)

/-- A word borders here: exactly one of the two neighbours is a character of a word. -/
def atBoundary (p : Place) : Bool :=
  p.previous.any CharClass.isWordChar != p.rest.head?.any CharClass.isWordChar

theorem next?_length_lt {p q : Place} {ch : Char} (h : p.next? = some (ch, q)) :
    q.rest.length < p.rest.length := by
  unfold next? at h
  split at h
  · cases h
  · rename_i hr
    cases h
    simp [hr]

end Place

namespace Pattern

/-- The characters that the notation escapes. -/
def isReserved (ch : Char) : Bool := "[](){}".toList.contains ch

/-- A pattern in the notation of regular expressions. -/
def source : Pattern → List Char
  | literal text => text.flatMap fun ch => if isReserved ch then ['\\', ch] else [ch]
  | blank => "\\s".toList
  | boundary => "\\b".toList
  | noneOf excluded => "[^".toList ++ excluded ++ [']']
  | seq p q => p.source ++ q.source
  | either p q => p.source ++ '|' :: q.source
  | group p => "(?:".toList ++ p.source ++ [')']
  | optional p => p.source ++ ['?']
  | many p => p.source ++ ['*']
  | few p => p.source ++ "*?".toList

/-- The place after these characters, if they stand here. -/
def afterLiteral? : List Char → Place → Option Place
  | [], p => some p
  | ch :: text, p =>
    match p.next? with
    | some (found, q) => if found = ch then afterLiteral? text q else none
    | none => none

/-- The place after one character that passes a test. -/
def afterChar? (test : Char → Bool) (p : Place) : Option Place :=
  match p.next? with
  | some (found, q) => if test found then some q else none
  | none => none

/-- The ends of a greedy repetition of `step`. Only runs that use up text are repeated. -/
def greedyEnds (step : Place → List Place) (p : Place) : List Place :=
  ((step p).flatMap fun q =>
    if _h : q.rest.length < p.rest.length then greedyEnds step q else []) ++ [p]
termination_by p.rest.length

/-- The ends of a lazy repetition of `step`. Only runs that use up text are repeated. -/
def lazyEnds (step : Place → List Place) (p : Place) : List Place :=
  p :: (step p).flatMap fun q =>
    if _h : q.rest.length < p.rest.length then lazyEnds step q else []
termination_by p.rest.length

/-- Where a match from a place can end, best first. -/
def ends : Pattern → Place → List Place
  | literal text, p => (afterLiteral? text p).toList
  | blank, p => (afterChar? CharClass.isBlank p).toList
  | boundary, p => if p.atBoundary then [p] else []
  | noneOf excluded, p => (afterChar? (fun ch => !excluded.contains ch) p).toList
  | seq a b, p => (a.ends p).flatMap b.ends
  | either a b, p => a.ends p ++ b.ends p
  | group a, p => a.ends p
  | optional a, p => a.ends p ++ [p]
  | many a, p => greedyEnds a.ends p
  | few a, p => lazyEnds a.ends p

/-- The place where the preferred match from a place ends, provided that it takes any text. -/
def firstEnd? (pattern : Pattern) (p : Place) : Option Place :=
  (pattern.ends p).head?.filter fun q => q.rest.length < p.rest.length

/-- The matches on from a place: where each starts and ends. -/
def matchesFrom (pattern : Pattern) (p : Place) : List (Nat × Nat) :=
  match _found : pattern.firstEnd? p with
  | some q => (p.offset, q.offset) :: matchesFrom pattern q
  | none =>
    match _next : p.next? with
    | some (_, q) => matchesFrom pattern q
    | none => []
termination_by p.rest.length
decreasing_by
  · have := Option.filter_eq_some_iff.1 _found
    simpa using this.2
  · exact Place.next?_length_lt _next

/-- The leftmost matches of a text that do not overlap, in octets of the text. -/
def matchesIn (pattern : Pattern) (text : List Char) : List (Nat × Nat) :=
  pattern.matchesFrom (.ofText text)

end Pattern
end LambdaTally
