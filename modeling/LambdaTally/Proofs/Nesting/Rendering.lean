import LambdaTally.Proofs.Nesting.Step

/-!
# LambdaTally.Proofs.Nesting.Rendering

The leaves of a tree of groups, without a pass over its text. `Forest.rendered` writes a content with
every group directly inside it replaced by what it leaves behind, and `Forest.table` lists the square
placeholders that stay. `Forest.postorder` are all groups, the outermost one included, each after the
groups inside it and after those to its left; `leavesOf` are the leaves among them.

`Group.absorb` is an open group behind which a content has been rendered; its equations follow the
constructors of the content (`absorb_nil`, `absorb_char`, `absorb_group`).
-/

namespace LambdaTally

open Utf8

namespace Forest

/-- A group of this kind behind this text is part of the name of an operator. -/
def namesOperator (before : List Char) (kind : Bracket) : Bool :=
  kind = .square && Group.endsInOperator before.reverse

/-- What a group leaves behind the text before it: its placeholder, or, as part of the name of an
operator, nothing, not even the blanks before it. -/
def collapsed (before : List Char) (kind : Bracket) : List Char :=
  if namesOperator before kind then CharClass.trimEnd before else before ++ kind.placeholder

/-- A content written behind a text, every group directly inside it collapsed. -/
def rendered (before : List Char) : Forest → List Char
  | nil => before
  | char ch _ rest => rest.rendered (before ++ [ch])
  | group kind _ rest => rest.rendered (collapsed before kind)

/-- The square placeholders that stay when a content is rendered: where each stands, and the origin
of its bracket. The content starts at `position`, and is written behind `before`. -/
def table (origin : Nat → Nat) (position : Nat) (before : List Char) : Forest → List (Nat × Nat)
  | nil => []
  | char ch _ rest => rest.table origin (position + ch.utf8Size) (before ++ [ch])
  | group kind inside rest =>
    (if kind = .square ∧ namesOperator before kind = false then
        [(byteLength before, origin position)]
      else []) ++
      rest.table origin (position + 1 + byteLength inside.text + 1) (collapsed before kind)

/-- A group of a text: its kind, where its content starts, and the content. -/
structure Placed where
  kind : Bracket
  position : Nat
  content : Forest

/-- The groups of a content that starts at `position`, innermost first, left before right. -/
def groups (position : Nat) : Forest → List Placed
  | nil => []
  | char ch _ rest => rest.groups (position + ch.utf8Size)
  | group kind inside rest =>
    inside.groups (position + 1) ++ ⟨kind, position + 1, inside⟩ ::
      rest.groups (position + 1 + byteLength inside.text + 1)

/-- All groups of a text, the outermost one last. -/
def postorder (f : Forest) : List Placed := f.groups 0 ++ [⟨.brace, 0, f⟩]

/-- The group as a leaf. -/
def Placed.leaf (origin : Nat → Nat) (g : Placed) : Leaf :=
  ⟨g.kind, g.content.rendered [], g.content.table origin g.position []⟩

/-- The leaves among some groups: those that hold another. -/
def leavesOf (origin : Nat → Nat) (gs : List Placed) : List Leaf :=
  (gs.filter (·.content.hasGroup)).map (Placed.leaf origin)

theorem leavesOf_append (origin : Nat → Nat) (a b : List Placed) :
    leavesOf origin (a ++ b) = leavesOf origin a ++ leavesOf origin b := by
  simp [leavesOf]

theorem leavesOf_cons (origin : Nat → Nat) (g : Placed) (gs : List Placed) :
    leavesOf origin (g :: gs) =
      (if g.content.hasGroup then [g.leaf origin] else []) ++ leavesOf origin gs := by
  unfold leavesOf
  rw [List.filter_cons]
  split <;> rfl

end Forest

theorem Utf8.byteLength_reverse (text : List Char) :
    byteLength text.reverse = byteLength text := by
  induction text with
  | nil => rfl
  | cons ch text ih =>
    rw [List.reverse_cons, byteLength_append, ih, byteLength_cons, byteLength_cons, byteLength_nil]
    omega

namespace Group

/-- The length of a group counts the octets written. -/
def Measured (g : Group) : Prop := g.length = byteLength g.written

theorem measured_opened (kind : Bracket) (openedAt origin : Nat) :
    (opened kind openedAt origin).Measured := rfl

theorem Measured.push {g : Group} (h : g.Measured) (ch : Char) : (g.push ch).Measured := by
  have := h.symm
  simp only [Measured, Group.push, byteLength_cons] at *
  omega

theorem Measured.collapse {g : Group} (h : g.Measured) (child : Group) :
    (g.collapse child).Measured := by
  have := h.symm
  unfold Group.collapse
  split
  · rfl
  · simp only [Measured, byteLength_append, byteLength_reverse, Bracket.placeholder,
      byteLength_cons, byteLength_nil, Bracket.utf8Size_opening, Bracket.utf8Size_closing] at *
    omega

/-- A group that has taken in a content that starts at `position`. -/
def absorb (origin : Nat → Nat) (position : Nat) (g : Group) (f : Forest) : Group :=
  { g with
    written := (f.rendered g.written.reverse).reverse
    length := byteLength (f.rendered g.written.reverse)
    origins := (f.table origin position g.written.reverse).reverse ++ g.origins
    hasChild := g.hasChild || f.hasGroup }

variable {origin : Nat → Nat} {position : Nat} {g : Group}

theorem absorb_nil (h : g.Measured) : g.absorb origin position .nil = g := by
  have := h.symm
  simp [absorb, Forest.rendered, Forest.table, Forest.hasGroup, byteLength_reverse, this]

theorem absorb_char (ch : Char) (plain : Bracket.isBracket ch = false) (rest : Forest) :
    g.absorb origin position (.char ch plain rest) =
      (g.push ch).absorb origin (position + ch.utf8Size) rest := by
  simp [absorb, push, Forest.rendered, Forest.table, Forest.hasGroup]

/-- Taking in a group, and then the content behind it. -/
theorem absorb_group (h : g.Measured) (inside rest : Forest) {child : Group}
    (hc : child.kind = .square → child.origin = origin position) :
    g.absorb origin position (.group child.kind inside rest) =
      (g.collapse child).absorb origin (position + 1 + byteLength inside.text + 1) rest := by
  have hlen : g.length = byteLength g.written := h
  by_cases hop : child.kind = .square ∧ endsInOperator g.written = true
  · have names : Forest.namesOperator g.written.reverse child.kind = true := by
      simp [Forest.namesOperator, hop]
    simp only [absorb, collapse, if_pos hop, Forest.rendered, Forest.table, Forest.collapsed, names,
      Forest.hasGroup, CharClass.trimEnd, List.reverse_reverse]
    simp
  · have names : Forest.namesOperator g.written.reverse child.kind = false := by
      simpa [Forest.namesOperator] using hop
    have behind : (child.kind.placeholder.reverse ++ g.written).reverse =
        g.written.reverse ++ child.kind.placeholder := by simp
    simp only [absorb, collapse, if_neg hop, Forest.rendered, Forest.table, Forest.collapsed, names,
      Forest.hasGroup, behind]
    by_cases hk : child.kind = .square
    · simp [hk, hc hk, hlen, byteLength_reverse]
    · simp [hk]

/-- A closed group that has taken in its content is a leaf if the content holds a group. -/
theorem leaf?_absorb (kind : Bracket) (openedAt o : Nat) (f : Forest) :
    ((opened kind openedAt o).absorb origin position f).leaf?.toList =
      if f.hasGroup then [(⟨kind, position, f⟩ : Forest.Placed).leaf origin] else [] := by
  by_cases h : f.hasGroup = true
  · simp [leaf?, absorb, opened, h, Forest.Placed.leaf]
  · simp [leaf?, absorb, opened, h]

end Group

end LambdaTally
