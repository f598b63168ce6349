/-!
# LambdaTally.Bracket

The three kinds of brackets that nest in a C++ source.
-/

namespace LambdaTally

inductive Bracket where
  | brace
  | paren
  | square
  deriving DecidableEq, Repr

namespace Bracket

/-- The character that opens a group of this kind. -/
def opening : Bracket → Char
  | brace => '{'
  | paren => '('
  | square => '['

/-- The character that closes a group of this kind. -/
def closing : Bracket → Char
  | brace => '}'
  | paren => ')'
  | square => ']'

/-- The kind that a character opens. -/
def ofOpening? : Char → Option Bracket
  | '{' => some brace
  | '(' => some paren
  | '[' => some square
  | _ => none

/-- The kind that a character closes. -/
def ofClosing? : Char → Option Bracket
  | '}' => some brace
  | ')' => some paren
  | ']' => some square
  | _ => none

/-- What stands for a whole group in the text of the group around it. -/
def placeholder (b : Bracket) : List Char := [b.opening, b.closing]

@[simp] theorem ofOpening?_opening (b : Bracket) : ofOpening? b.opening = some b := by
  cases b <;> rfl

@[simp] theorem ofClosing?_closing (b : Bracket) : ofClosing? b.closing = some b := by
  cases b <;> rfl

@[simp] theorem ofClosing?_opening (b : Bracket) : ofClosing? b.opening = none := by
  cases b <;> rfl

@[simp] theorem ofOpening?_closing (b : Bracket) : ofOpening? b.closing = none := by
  cases b <;> rfl

theorem eq_opening_of_ofOpening? {c : Char} {b : Bracket} (h : ofOpening? c = some b) :
    c = b.opening := by
  unfold ofOpening? at h
  split at h <;> cases h <;> rfl

theorem eq_closing_of_ofClosing? {c : Char} {b : Bracket} (h : ofClosing? c = some b) :
    c = b.closing := by
  unfold ofClosing? at h
  split at h <;> cases h <;> rfl

end Bracket
end LambdaTally
