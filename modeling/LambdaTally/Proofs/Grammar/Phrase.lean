import LambdaTally.Bracket
import LambdaTally.Proofs.Pattern.Spans
import Mathlib.Computability.Language
import Mathlib.Order.CompletePartialOrder

/-!
# LambdaTally.Proofs.Grammar.Phrase

The grammar of a lambda expression as a language over tokens, one definition for each rule, and what
it is for a text to spell the tokens of a phrase: they stand in it in order, each keyword by itself,
and two neighbours at most one blank apart. A `Sentence` is a text that spells a lambda expression.
-/

namespace LambdaTally

open scoped Computability

/-- A token of a leaf: what is left of a group, a keyword, `<…>`, `->` or the text of a type. -/
inductive Token where
  | group (kind : Bracket)
  | keyword (word : String)
  | templates (text : List Char)
  | arrow
  | type (text : List Char)

namespace Token

def text : Token → List Char
  | group kind => kind.placeholder
  | keyword word => word.toList
  | templates text => text
  | arrow => ['-', '>']
  | type text => text

def isKeyword : Token → Bool
  | keyword _ => true
  | _ => false

end Token

namespace Phrase

/-! ## Texts -/

/-- One character that is none of these. -/
def noneOf (excluded : List Char) : Language Char := {text | ∃ ch, ch ∉ excluded ∧ text = [ch]}

def exactly (text : List Char) : Language Char := {text}

/-- Angle brackets around a text that may hold such brackets again, but no deeper. -/
def templateText : Language Char :=
  exactly ['<'] *
    (noneOf ['<', '>', ';'] + exactly ['<'] * (noneOf ['<', '>', ';'])∗ * exactly ['>'])∗ *
    exactly ['>']

/-! ## Rules -/

def token (t : Token) : Language Token := {[t]}

/-- One token of a sort, with a text from a language. -/
def oneOf (sort : List Char → Token) (l : Language Char) : Language Token :=
  {ts | ∃ text ∈ l, ts = [sort text]}

def maybe (l : Language Token) : Language Token := l + 1

def introducer : Language Token := token (.group .square)

def body : Language Token := token (.group .brace)

def parameters : Language Token := token (.group .paren)

def templateList : Language Token := oneOf .templates templateText

def specifier : Language Token := token (.keyword "mutable") + token (.keyword "constexpr")

def specifiers : Language Token := specifier * maybe specifier

def exceptionSpecifier : Language Token :=
  token (.keyword "noexcept") * maybe parameters + token (.keyword "throw") * parameters

def attributeSpecifier : Language Token := introducer + token (.keyword "alignas") * parameters

def trailingReturn : Language Token := token .arrow * oneOf .type (noneOf [';'])∗

def tail : Language Token :=
  maybe exceptionSpecifier * attributeSpecifier∗ * maybe trailingReturn

def declarator : Language Token := parameters * maybe specifiers * tail + tail

def lambda : Language Token := introducer * maybe templateList * maybe declarator * body

end Phrase

/-! ## Spelling -/

namespace Place

/-- The token stands between two places, a keyword with no character of a word on either side. -/
structure Shows (p : Place) (t : Token) (q : Place) : Prop where
  spans : p.Spans t.text q
  alone : t.isKeyword = true → p.atBoundary = true ∧ q.atBoundary = true

/-- Two places at most one blank apart. -/
inductive Gap (p : Place) : Place → Prop where
  | none : Gap p p
  | blank {q : Place} {ch : Char} : CharClass.isBlank ch = true → p.next? = some (ch, q) → Gap p q

/-- The tokens stand between two places, each at most one blank behind the one before it. -/
inductive Spells : Place → List Token → Place → Prop where
  | nil {p : Place} : Spells p [] p
  | last {p q : Place} {t : Token} : p.Shows t q → Spells p [t] q
  | cons {p q r s : Place} {t u : Token} {ts : List Token} :
      p.Shows t q → q.Gap r → Spells r (u :: ts) s → Spells p (t :: u :: ts) s

end Place

/-- The whole text spells a lambda expression. -/
def Sentence (text : List Char) : Prop :=
  ∃ ts ∈ Phrase.lambda, ∃ q, (Place.ofText text).Spells ts q ∧ q.rest = []

namespace Phrase

/-- Texts of such characters are those that hold none of the others. -/
theorem mem_kstar_noneOf {excluded text : List Char} :
    text ∈ (noneOf excluded)∗ ↔ ∀ ch ∈ text, ch ∉ excluded := by
  rw [Language.mem_kstar]
  constructor
  · rintro ⟨chars, rfl, each⟩ ch hch
    obtain ⟨one, hone, hch⟩ := List.mem_flatten.1 hch
    obtain ⟨ch', allowed, rfl⟩ := each one hone
    rwa [List.mem_singleton.1 hch]
  · intro allowed
    refine ⟨text.map fun ch => [ch], ?_, ?_⟩
    · induction text with
      | nil => rfl
      | cons ch text ih =>
        rw [List.map_cons, List.flatten_cons,
          ← ih fun ch hch => allowed ch (List.mem_cons_of_mem _ hch)]
        rfl
    · intro one hone
      obtain ⟨ch, hch, rfl⟩ := List.mem_map.1 hone
      exact ⟨ch, allowed ch hch, rfl⟩

/-! ## Phrases of some tokens only -/

/-- The phrases all of whose tokens pass a test. -/
def allOf (test : Token → Prop) : Language Token := {ts | ∀ t ∈ ts, test t}

section AllOf

variable {test : Token → Prop} {a b : Language Token}

theorem token_le_allOf {t : Token} (h : test t) : token t ≤ allOf test := by
  rintro ts rfl u hu
  rwa [List.mem_singleton.1 hu]

theorem one_le_allOf : 1 ≤ allOf test := by
  rintro ts rfl u hu
  cases hu

theorem mul_le_allOf (ha : a ≤ allOf test) (hb : b ≤ allOf test) : a * b ≤ allOf test := by
  rintro ts ⟨x, hx, y, hy, rfl⟩ u hu
  rcases List.mem_append.1 hu with hu | hu
  · exact ha hx u hu
  · exact hb hy u hu

theorem add_le_allOf (ha : a ≤ allOf test) (hb : b ≤ allOf test) : a + b ≤ allOf test := by
  rintro ts (h | h)
  · exact ha h
  · exact hb h

theorem maybe_le_allOf (ha : a ≤ allOf test) : maybe a ≤ allOf test := add_le_allOf ha one_le_allOf

theorem kstar_le_allOf (ha : a ≤ allOf test) : a∗ ≤ allOf test := by
  rintro ts ⟨phrases, rfl, each⟩ u hu
  obtain ⟨phrase, hphrase, hu⟩ := List.mem_flatten.1 hu
  exact ha (each phrase hphrase) u hu

end AllOf

end Phrase
end LambdaTally
