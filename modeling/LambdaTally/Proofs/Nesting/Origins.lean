import LambdaTally.Proofs.Nesting.Postorder
import LambdaTally.Proofs.Text.Trimming
import Mathlib.Data.List.Flatten
import Mathlib.Data.List.Perm.Subperm

/-!
# LambdaTally.Proofs.Nesting.Origins

The origin tables of the leaves. The table of a leaf lists the `[` of its text, in order
(`Leaf.Tabled`), because no other `[` is ever written into a group and the blanks that an operator
name loses hold none. Each square group stands in the table of the group around it or is part of the
name of an operator there, so the tables of all leaves together with the omitted origins are the squares
of the text (`perm_origins`); no origin is listed more often than the text has it (`subperm_origins`).
-/

namespace LambdaTally

open Utf8 Structural
open scoped List

/-- The table of a leaf lists every `[]` of its text, in order. -/
def Leaf.Tabled (leaf : Leaf) : Prop := leaf.origins.map Prod.fst = squarePositions 0 leaf.text

theorem squarePositions_trimEnd (position : Nat) (text : List Char) :
    squarePositions position (CharClass.trimEnd text) = squarePositions position text := by
  obtain ⟨blanks, ht, hb⟩ := CharClass.trimEnd_append text
  have no_square : '[' ∉ blanks := by
    intro h
    have := hb _ h
    revert this
    decide
  conv_rhs => rw [ht, squarePositions_append, squarePositions_of_not_mem no_square, List.append_nil]

namespace Forest

theorem squarePositions_collapsed (before : List Char) (kind : Bracket) :
    squarePositions 0 (collapsed before kind) =
      squarePositions 0 before ++
        if kind = .square ∧ namesOperator before kind = false then [byteLength before] else [] := by
  unfold collapsed
  split
  · rename_i h
    rw [squarePositions_trimEnd]
    simp [h]
  · rename_i h
    rw [squarePositions_append, Nat.zero_add]
    cases kind with
    | square => simpa [Bracket.placeholder, Bracket.opening, Bracket.closing, squarePositions] using h
    | brace => rfl
    | paren => rfl

/-- Rendering a content adds to the `[` of the text before it those that its table lists. -/
theorem squarePositions_rendered (origin : Nat → Nat) (f : Forest) (position : Nat)
    (before : List Char) :
    squarePositions 0 (f.rendered before) =
      squarePositions 0 before ++ (f.table origin position before).map Prod.fst := by
  induction f generalizing position before with
  | nil => simp [rendered, table]
  | char ch plain rest ih =>
    rw [rendered, table, ih (position + ch.utf8Size), squarePositions_append]
    have none_here (position : Nat) : squarePositions position [ch] = [] :=
      squarePositions_plain plain position []
    rw [none_here, List.append_nil]
  | group kind inside rest _ ih =>
    rw [rendered, table, ih (position + 1 + byteLength inside.text + 1), squarePositions_collapsed,
      List.map_append, List.append_assoc]
    congr 2
    split <;> rfl

theorem tabled_leaf (origin : Nat → Nat) (g : Placed) : (g.leaf origin).Tabled :=
  (squarePositions_rendered origin g.content g.position []).symm

/-- All entries of the tables of some groups. -/
def tables (origin : Nat → Nat) (gs : List Placed) : List Nat :=
  gs.flatMap fun g => (g.content.table origin g.position []).map Prod.snd

theorem tables_append (origin : Nat → Nat) (a b : List Placed) :
    tables origin (a ++ b) = tables origin a ++ tables origin b := by
  simp [tables]

theorem tables_cons (origin : Nat → Nat) (g : Placed) (gs : List Placed) :
    tables origin (g :: gs) =
      (g.content.table origin g.position []).map Prod.snd ++ tables origin gs := rfl

/-- The origins of the square groups directly inside a content that belong to the name of an operator and
leave no placeholder. -/
def omitted (origin : Nat → Nat) (position : Nat) (before : List Char) : Forest → List Nat
  | nil => []
  | char ch _ rest => rest.omitted origin (position + ch.utf8Size) (before ++ [ch])
  | group kind inside rest =>
    (if kind = .square ∧ namesOperator before kind = true then [origin position] else []) ++
      rest.omitted origin (position + 1 + byteLength inside.text + 1) (collapsed before kind)

/-- All origins that some groups omit. -/
def omissions (origin : Nat → Nat) (gs : List Placed) : List Nat :=
  gs.flatMap fun g => g.content.omitted origin g.position []

theorem omissions_append (origin : Nat → Nat) (a b : List Placed) :
    omissions origin (a ++ b) = omissions origin a ++ omissions origin b := by
  simp [omissions]

theorem omissions_cons (origin : Nat → Nat) (g : Placed) (gs : List Placed) :
    omissions origin (g :: gs) = g.content.omitted origin g.position [] ++ omissions origin gs := rfl

/-- By induction on the content. The square groups directly inside it are listed in its own table or
omitted, those further in by the groups inside it. -/
theorem perm_tables (origin : Nat → Nat) (f : Forest) (position : Nat) (before : List Char) :
    (f.table origin position before).map Prod.snd ++ (f.omitted origin position before ++
        (tables origin (f.groups position) ++ omissions origin (f.groups position))) ~
      (squarePositions position f.text).map origin := by
  induction f generalizing position before with
  | nil => exact List.Perm.refl _
  | char ch plain rest ih =>
    rw [table, omitted, groups, text, squarePositions_plain plain]
    exact ih _ _
  | group kind inside rest ihi ihr =>
    rw [table, omitted, groups, text, squarePositions_group, tables_append, tables_cons,
      omissions_append, omissions_cons, List.map_append, List.map_append, List.map_append]
    have here : ((if kind = .square ∧ namesOperator before kind = false then
        [(byteLength before, origin position)] else []).map Prod.snd) ++
          (if kind = .square ∧ namesOperator before kind = true then [origin position] else []) ~
        (if kind = .square then [position] else []).map origin := by
      cases kind with
      | square => cases namesOperator before .square <;> exact List.Perm.refl _
      | brace => exact List.Perm.refl _
      | paren => exact List.Perm.refl _
    have within := ihi (position + 1) []
    have behind := ihr (position + 1 + byteLength inside.text + 1) (collapsed before kind)
    -- the tables in the order of the brackets instead of the order of the groups
    refine List.Perm.trans ?_ (here.append (within.append behind))
    refine List.perm_iff_count.2 ?_
    intro o
    simp only [List.count_append]
    omega

/-- All squares of a text, once over: listed in the table of a group or omitted by one. -/
theorem perm_postorder (origin : Nat → Nat) (f : Forest) :
    tables origin f.postorder ++ omissions origin f.postorder ~
      (squarePositions 0 f.text).map origin := by
  refine List.Perm.trans ?_ (f.perm_tables origin 0 [])
  rw [postorder, tables_append, omissions_append, tables_cons, omissions_cons]
  refine List.perm_iff_count.2 ?_
  intro o
  simp only [List.count_append, tables, omissions, List.flatMap_nil, List.count_nil]
  omega

theorem table_of_not_hasGroup {f : Forest} (h : f.hasGroup = false) (origin : Nat → Nat) (position : Nat)
    (before : List Char) : f.table origin position before = [] := by
  induction f generalizing position before with
  | nil => rfl
  | char ch plain rest ih => exact ih h _ _
  | group kind inside rest _ _ => cases h

/-- The groups that are no leaves list nothing. -/
theorem origins_leavesOf (origin : Nat → Nat) (gs : List Placed) :
    (leavesOf origin gs).flatMap (fun leaf => leaf.origins.map Prod.snd) = tables origin gs := by
  induction gs with
  | nil => rfl
  | cons g gs ih =>
    rw [leavesOf_cons, List.flatMap_append, ih, tables_cons]
    congr 1
    split
    · simp [Placed.leaf]
    · rename_i h
      rw [table_of_not_hasGroup (by simpa using h)]
      rfl

end Forest

variable {s : Structural}

theorem tabled_of_mem_leaves (h : s.Tabled) (nested : WellNested s.text) {leaf : Leaf}
    (hl : leaf ∈ s.flatten.leaves) : leaf.Tabled := by
  obtain ⟨f, hf⟩ := wellNested_iff_exists_forest.1 nested
  rw [flatten_forest h f hf] at hl
  obtain ⟨g, -, rfl⟩ := List.mem_map.1 hl
  exact Forest.tabled_leaf s.originAt g

/-- Every square of the text is listed in the table of a leaf or omitted, and only once. -/
theorem perm_origins (h : s.Tabled) {f : Forest} (hf : f.text = s.text) :
    s.flatten.leaves.flatMap (fun leaf => leaf.origins.map Prod.snd) ++
        Forest.omissions s.originAt f.postorder ~ s.squares.map Prod.snd := by
  rw [flatten_forest h f hf, h.map_snd, ← hf, Forest.origins_leavesOf]
  exact f.perm_postorder s.originAt

theorem subperm_origins (h : s.Tabled) (nested : WellNested s.text) :
    s.flatten.leaves.flatMap (fun leaf => leaf.origins.map Prod.snd) <+~ s.squares.map Prod.snd := by
  obtain ⟨f, hf⟩ := wellNested_iff_exists_forest.1 nested
  exact (List.sublist_append_left _ _).subperm.trans (perm_origins h hf).subperm

end LambdaTally
