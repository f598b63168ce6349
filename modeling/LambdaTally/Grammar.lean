import LambdaTally.Nesting
import LambdaTally.Pattern

/-!
# LambdaTally.Grammar

The token grammar of a lambda expression inside a leaf, where every nested group is a placeholder:

* lambda := `[]` template? declarator? `{}`
* template := `< … >`, with at most one nested `<…>` level
* declarator := `()` specifiers? tail, or just tail
* specifiers := one or two of `mutable`, `constexpr`
* tail := noexcept? attribute* trailing?
* noexcept := `noexcept` `()`?, or `throw` `()`
* attribute := `[]`, or `alignas` `()`
* trailing := `->` and any text without `;`

Two tokens may stand at most one blank apart. A capture list in front of a compound statement is not
always a lambda: `new int[n]{}` and `int a[] {1, 2}` count as well.
-/

namespace LambdaTally
namespace Grammar

open Pattern

/-- At most one blank, as between two tokens. -/
def gap : Pattern := optional blank

/-- A token and what follows it, at most one blank apart. -/
def join (first second : Pattern) : Pattern := seq first (seq gap second)

def maybe (p : Pattern) : Pattern := optional (group p)

def oneOf (first second : Pattern) : Pattern := either (group first) (group second)

/-- A word that stands by itself. -/
def keyword (word : String) : Pattern := seq boundary (seq (literal word.toList) boundary)

def introducer : Pattern := literal ['[', ']']

def body : Pattern := literal ['\x7b', '\x7d']

def parameters : Pattern := literal ['(', ')']

/-- The shortest text that will do, without a semicolon. -/
def typeName : Pattern := few (noneOf [';'])

def templateText : Pattern := noneOf ['<', '>', ';']

def templateList : Pattern :=
  seq (literal ['<'])
    (seq (many (group (either templateText
      (seq (literal ['<']) (seq (many templateText) (literal ['>']))))))
      (literal ['>']))

def specifier : Pattern := oneOf (keyword "mutable") (keyword "constexpr")

def specifiers : Pattern := join (group specifier) (maybe specifier)

def exceptionSpecifier : Pattern :=
  oneOf (join (keyword "noexcept") (maybe parameters)) (join (keyword "throw") parameters)

def attributeSpecifier : Pattern := oneOf introducer (join (keyword "alignas") parameters)

def trailingReturn : Pattern := join (literal ['-', '>']) typeName

def tail : Pattern :=
  join (maybe exceptionSpecifier)
    (join (many (group (seq (group attributeSpecifier) gap))) (maybe trailingReturn))

def declarator : Pattern := oneOf (join parameters (join (maybe specifiers) tail)) tail

/-- The whole lambda expression. -/
def lambda : Pattern :=
  join introducer (join (maybe templateList) (join (maybe declarator) body))

end Grammar

/-- A lambda expression found in a leaf: the offset in the source of its introducer, and its range in
the text of the leaf. -/
structure LambdaMatch where
  offset : Nat
  start : Nat
  stop : Nat
  deriving DecidableEq, Repr

/-- The lambda expressions of a leaf, left to right. -/
def Leaf.lambdas (leaf : Leaf) : List LambdaMatch :=
  (Grammar.lambda.matchesIn leaf.text).map fun (start, stop) =>
    ⟨(leaf.originAt? start).getD start, start, stop⟩

end LambdaTally
