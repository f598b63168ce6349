import LambdaTally.Files.Glob
import LambdaTally.Files.Path
import LambdaTally.Text.CharClass

/-!
# LambdaTally.Files.Rules

Lists of patterns, one a line, that say which paths below a directory are singled out. A line that
starts with `!` takes back what an earlier one says, so the last line that matches decides. A
pattern with a slash in front of its end is matched against the path from the directory; any other
one may match at any depth. A pattern that ends in a slash matches directories only.

A list that is not found in the tree itself goes with the directory that paths are seen from.
-/

namespace LambdaTally

/-- A line that matches or not. -/
structure Rule where
  glob : Glob
  negated : Bool
  onlyDirectories : Bool
  deriving Repr

namespace Rule

/-- A line without what does not count: blanks at its end, unless the last one is escaped. -/
def trimLine (line : List Char) : List Char :=
  if [' ', '\\'].isPrefixOf line.reverse then line else CharClass.trimEnd line

/-- The text begins with `**` as a whole name. -/
def crossesFromStart (text : List Char) : Bool :=
  text == "**".toList || "**/".toList.isPrefixOf text

/-- The pattern of a text that may be tied to the directory of its list by a slash in front. -/
def globText (tied : Bool) (text : List Char) : List Char :=
  let text := if tied || text.contains '/' || crossesFromStart text then text else "**/".toList ++ text
  if "**/".toList.isPrefixOf text.reverse then text ++ "/*".toList else text

/-- Takes the slash from the end of a text, and the backslash before it. -/
def withoutFinalSlash (text : List Char) : Option (List Char) :=
  match text.reverse with
  | '/' :: '\\' :: rest => some rest.reverse
  | '/' :: rest => some rest.reverse
  | _ => none

/-- The rule of a text behind the signs at its front. -/
def ofText (lenient negated tied : Bool) (text : List Char) : Except GlobError Rule :=
  let bare := withoutFinalSlash text
  match Glob.read lenient (globText tied (bare.getD text)) with
  | .error e => .error e
  | .ok glob => .ok ⟨glob, negated, bare.isSome⟩

/-- The rule of a text after a `!`, if it has one. -/
def ofUnsigned (lenient negated : Bool) : List Char → Except GlobError Rule
  | '/' :: text => ofText lenient negated true text
  | text => ofText lenient negated false text

/-- The rule of a line that has been trimmed. An empty line and a comment have none. -/
def ofLine (lenient : Bool) (line : List Char) : Except GlobError (Option Rule) :=
  match line with
  | [] => .ok none
  | '#' :: _ => .ok none
  | '\\' :: '!' :: text => (ofText lenient false false ('!' :: text)).map some
  | '\\' :: '#' :: text => (ofText lenient false false ('#' :: text)).map some
  | '!' :: text => (ofUnsigned lenient true text).map some
  | text => (ofUnsigned lenient false text).map some

/-- The rule matches a path. -/
def isMatch (r : Rule) (path : List UInt8) (isDirectory : Bool) : Bool :=
  (!r.onlyDirectories || isDirectory) && Glob.isMatch r.glob path

end Rule

/-- Rules in the order of their lines. -/
abbrev Rules := List Rule

namespace Rules

/-- The rule that decides about a path: the last one that matches. -/
def deciding? (rules : Rules) (path : List UInt8) (isDirectory : Bool) : Option Rule :=
  rules.reverse.find? fun r => r.isMatch path isDirectory

/-- The lines of a file, latest first, without the breaks that end them. -/
def lines (read : List (List UInt8)) (line : List UInt8) : List UInt8 → List (List UInt8)
  | [] => if line = [] then read else line.reverse :: read
  | b :: rest =>
    if b = 0x0A then
      lines ((if line.head? = some 0x0D then line.tail else line).reverse :: read) [] rest
    else lines read (b :: line) rest

/-- The lines of a file up to the first that is not UTF-8. A byte order mark in front of the first
one does not count. -/
def texts (octets : List UInt8) : List (List Char) :=
  match ((lines [] [] octets).reverse.map Utf8.decode?).takeWhile Option.isSome with
  | some first :: rest => first.dropWhile (· == '\uFEFF') :: rest.filterMap id
  | _ => []

/-- The rules of a file. A line that is no pattern is left out; a bracket that is not closed stands
for itself. -/
def ofOctets (octets : List UInt8) : Rules :=
  (texts octets).filterMap fun line =>
    match Rule.ofLine true (Rule.trimLine line) with
    | .ok rule => rule
    | .error _ => none

end Rules

/-- Rules and the directory that paths are seen from, as it is written. -/
structure RuleList where
  root : Path
  rules : Rules
  deriving Repr

namespace RuleList

/-- The list without rules. -/
def empty : RuleList := ⟨⟨[]⟩, []⟩

/-- The octets that patterns are matched against: those of the path behind those of the root, if the
path begins with them. A root `.` takes nothing away, nor does any root from a lone name. -/
def candidate (l : RuleList) (path : Path) : List UInt8 :=
  let octets := Path.dropDotSlash (Path.dropDotSlash path.octets)
  let root : Path := ⟨Path.dropDotSlash l.root.octets⟩
  if root.components = [.current] ∨ octets.contains Path.slash = false then octets
  else
    match Path.dropFront? root.octets octets with
    | some rest => (Path.dropFront? [Path.slash] rest).getD rest
    | none => octets

/-- The rule that decides about a path as it is written. -/
def deciding? (l : RuleList) (path : Path) (isDirectory : Bool) : Option Rule :=
  l.rules.deciding? (l.candidate path) isDirectory

end RuleList
end LambdaTally
