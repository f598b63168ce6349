import LambdaTally.Proofs.Nesting.Calls
import LambdaTally.Proofs.Nesting.Rendering
import LambdaTally.Proofs.Structural.SquareTable

/-!
# LambdaTally.Proofs.Nesting.Postorder

The pass over a well-nested text delivers the leaves of the tree of its groups.

`run_forest` is the invariant: over the text of a content the pass takes the innermost open group
from what it held to what it holds with that content rendered behind it, it delivers the leaves
inside the content in postorder, and it touches no other open group. `flatten_forest` applies it to
the outermost group of a text whose table lists every `[`, and `flatten_postorder` says it of every
structural text that can come about.
-/

namespace LambdaTally

open Utf8

namespace Nesting

/-- The innermost open group. -/
def top (n : Nesting) : Group := n.pending.headD n.outermost

/-- The state with another innermost group, further on. -/
def settle (n : Nesting) (g : Group) (position : Nat) (squares : List Nat) : Nesting :=
  match n.pending with
  | [] => ⟨position, g, [], squares⟩
  | _ :: outer => ⟨position, n.outermost, g :: outer, squares⟩

/-- The state with one more group open, further on. -/
def nest (n : Nesting) (g : Group) (position : Nat) (squares : List Nat) : Nesting :=
  ⟨position, n.outermost, g :: n.pending, squares⟩

variable (n : Nesting) (g : Group) (position : Nat) (squares : List Nat)

@[simp] theorem top_settle : (n.settle g position squares).top = g := by
  unfold settle top; split <;> rfl

@[simp] theorem position_settle : (n.settle g position squares).position = position := by
  unfold settle; split <;> rfl

@[simp] theorem squares_settle : (n.settle g position squares).squares = squares := by
  unfold settle; split <;> rfl

@[simp] theorem settle_settle (h : Group) (p : Nat) (s : List Nat) :
    (n.settle g position squares).settle h p s = n.settle h p s := by
  obtain ⟨_, _, pending, _⟩ := n
  cases pending <;> rfl

theorem settle_self : n.settle n.top n.position n.squares = n := by
  obtain ⟨_, _, pending, _⟩ := n
  cases pending <;> rfl

theorem moved_modifyTop (f : Group → Group) (k : Nat) :
    (n.modifyTop f).moved k = n.settle (f n.top) (n.position + k) n.squares := by
  obtain ⟨_, _, pending, _⟩ := n
  cases pending <;> rfl

@[simp] theorem top_nest : (n.nest g position squares).top = g := rfl
@[simp] theorem position_nest : (n.nest g position squares).position = position := rfl
@[simp] theorem settle_nest (h : Group) (p : Nat) (s : List Nat) :
    (n.nest g position squares).settle h p s = n.nest h p s := rfl

/-- Opening a group takes the origin of its bracket off the list if it is a square one. -/
theorem moved_openGroup (kind : Bracket) (o : Nat) (later : List Nat)
    (hs : n.squares = (if kind = .square then [o] else []) ++ later) :
    (n.openGroup kind).moved 1 =
      n.nest (.opened kind n.position (if kind = .square then o else n.position)) (n.position + 1)
        later := by
  obtain ⟨position, outermost, pending, squares⟩ := n
  cases kind <;> simp_all [openGroup, moved, nest]

theorem closeGroup_nest :
    (n.nest g position squares).closeGroup g.kind =
      .ok (({ n with position := position, squares := squares } : Nesting).modifyTop
        (·.collapse g), g.leaf?) := by
  simp [closeGroup, nest]

theorem step_closing_nest :
    (n.nest g position squares).step g.kind.closing =
      .ok (n.settle (n.top.collapse g) (position + 1) squares, g.leaf?) := by
  rw [step_closing, closeGroup_nest]
  simp only [Except.map, moved_modifyTop]
  rfl

end Nesting

open Forest

theorem squarePositions_group (kind : Bracket) (position : Nat) (inside rest : List Char) :
    Structural.squarePositions position (kind.opening :: inside ++ kind.closing :: rest) =
      (if kind = .square then [position] else []) ++
        (Structural.squarePositions (position + 1) inside ++
          Structural.squarePositions (position + 1 + byteLength inside + 1) rest) := by
  have hc : kind.closing ≠ '[' := by cases kind <;> decide
  rw [List.cons_append, Structural.squarePositions, Structural.squarePositions_append,
    Structural.squarePositions, if_neg hc, Bracket.utf8Size_opening, Bracket.utf8Size_closing]
  cases kind <;> rfl

theorem squarePositions_plain {ch : Char} (plain : Bracket.isBracket ch = false) (position : Nat)
    (rest : List Char) :
    Structural.squarePositions position (ch :: rest) =
      Structural.squarePositions (position + ch.utf8Size) rest := by
  rw [Structural.squarePositions, if_neg]
  rintro rfl
  cases plain

section Run

variable (n : Nesting) (leaves : List Leaf) (text : List Char)

theorem run_plain {ch : Char} (plain : Bracket.isBracket ch = false) :
    Flattening.run n leaves (ch :: text) =
      Flattening.run (n.settle (n.top.push ch) (n.position + ch.utf8Size) n.squares) leaves text := by
  rw [Flattening.run, Nesting.step_plain n plain, Nesting.moved_modifyTop]
  rfl

theorem run_opening (kind : Bracket) (o : Nat) (later : List Nat)
    (hs : n.squares = (if kind = .square then [o] else []) ++ later) :
    Flattening.run n leaves (kind.opening :: text) =
      Flattening.run
        (n.nest (.opened kind n.position (if kind = .square then o else n.position))
          (n.position + 1) later) leaves text := by
  rw [Flattening.run, Nesting.step_opening, n.moved_openGroup kind o later hs]
  rfl

theorem run_closing (g : Group) (position : Nat) (squares : List Nat) :
    Flattening.run (n.nest g position squares) leaves (g.kind.closing :: text) =
      Flattening.run (n.settle (n.top.collapse g) (position + 1) squares)
        (g.leaf?.toList ++ leaves) text := by
  rw [Flattening.run, n.step_closing_nest g position squares]

end Run

/-- By induction on the content; the list of origins still to come starts with those of the brackets
inside it. -/
theorem run_forest (origin : Nat → Nat) (f : Forest) (n : Nesting) (leaves : List Leaf)
    (rest : List Char) (later : List Nat) (hm : n.top.Measured)
    (hs : n.squares = (Structural.squarePositions n.position f.text).map origin ++ later) :
    Flattening.run n leaves (f.text ++ rest) =
      Flattening.run
        (n.settle (n.top.absorb origin n.position f) (n.position + byteLength f.text) later)
        ((leavesOf origin (f.groups n.position)).reverse ++ leaves) rest := by
  induction f generalizing n leaves rest later with
  | nil =>
    have hl : n.squares = later := by simpa [Forest.text, Structural.squarePositions] using hs
    rw [Group.absorb_nil hm, ← hl, Forest.text, byteLength_nil, Nat.add_zero, n.settle_self]
    rfl
  | char ch plain more ih =>
    rw [Forest.text, squarePositions_plain plain] at hs
    rw [Forest.text, List.cons_append, run_plain n leaves _ plain,
      ih (n.settle (n.top.push ch) (n.position + ch.utf8Size) n.squares) leaves rest later
        (by simpa using hm.push ch) (by simpa using hs),
      Group.absorb_char]
    simp [Forest.groups, Nat.add_assoc]
  | group kind inside more ihi ihm =>
    rw [Forest.text, squarePositions_group, List.map_append, List.map_append, List.append_assoc,
      List.append_assoc] at hs
    -- the squares to come fall into the one that opens, those inside and those behind
    have hopen : n.squares = (if kind = .square then [origin n.position] else []) ++
        ((Structural.squarePositions (n.position + 1) inside.text).map origin ++
          ((Structural.squarePositions (n.position + 1 + byteLength inside.text + 1)
            more.text).map origin ++ later)) := by
      rw [hs]
      split <;> rfl
    let child := Group.opened kind n.position
      (if kind = .square then origin n.position else n.position)
    let closed := child.absorb origin (n.position + 1) inside
    have horigin : closed.kind = .square → closed.origin = origin n.position := by
      intro h
      have hk : kind = .square := h
      simp [closed, child, Group.absorb, Group.opened, hk]
    have absorbed : n.top.absorb origin n.position (.group kind inside more) =
        (n.top.collapse closed).absorb origin (n.position + 1 + byteLength inside.text + 1) more :=
      Group.absorb_group hm inside more horigin
    have width : n.position + 1 + byteLength inside.text + 1 + byteLength more.text =
        n.position + byteLength (kind.opening :: inside.text ++ kind.closing :: more.text) := by
      rw [Bracket.byteLength_group]
      omega
    have last := run_closing n ((leavesOf origin (inside.groups (n.position + 1))).reverse ++ leaves)
      (more.text ++ rest) closed (n.position + 1 + byteLength inside.text)
      ((Structural.squarePositions (n.position + 1 + byteLength inside.text + 1) more.text).map
        origin ++ later)
    rw [Forest.text, List.append_assoc, List.cons_append, List.cons_append,
      run_opening n leaves _ kind _ _ hopen,
      ihi (n.nest child (n.position + 1) _) leaves _ _ (Group.measured_opened _ _ _) rfl,
      Nesting.settle_nest, Nesting.top_nest, Nesting.position_nest]
    refine last.trans ?_
    rw [ihm (n.settle (n.top.collapse closed) _ _) _ rest later
        (by simpa using hm.collapse closed) (by simp), Group.leaf?_absorb]
    simp only [Nesting.settle_settle, Nesting.position_settle, Nesting.top_settle]
    rw [absorbed, width, Forest.groups, leavesOf_append, leavesOf_cons]
    congr 1
    by_cases h : inside.hasGroup = true <;> simp [h]

/-! ## The leaves of a structural text -/

/-- A structural text as it can come about: reduced from a source, or taken as it stands. -/
inductive Structural.Built : Structural → Prop where
  | source (source : List Char) : Built (.ofSource source)
  | text (text : List Char) : Built (.ofText text)

theorem Structural.Built.tabled {s : Structural} (h : s.Built) : s.Tabled := by
  cases h with
  | source source => exact tabled_ofSource source
  | text text => exact tabled_ofText text

/-- The offset in the source of the `[` at a position of the text. -/
def Structural.originAt (s : Structural) (position : Nat) : Nat :=
  (s.originOf? position).getD position

theorem Structural.Tabled.mem_iff {s : Structural} (h : s.Tabled) {position : Nat} :
    (∃ origin, (position, origin) ∈ s.squares) ↔ StandsAt '[' s.text position := by
  rw [← mem_of_tabled h, List.mem_map]
  simp

theorem Structural.Tabled.originOf?_eq {s : Structural} (h : s.Tabled) {position origin : Nat}
    (hm : (position, origin) ∈ s.squares) : s.originOf? position = some origin :=
  lookup_of_mem (pairwise_of_tabled h) hm

/-- Every `[` of the text has a recorded origin. -/
theorem Structural.Tabled.originOf?_of_standsAt {s : Structural} (h : s.Tabled) {position : Nat}
    (hp : StandsAt '[' s.text position) :
    s.originOf? position = some (s.originAt position) := by
  obtain ⟨origin, hm⟩ := h.mem_iff.2 hp
  rw [originAt, h.originOf?_eq hm, Option.getD_some]

theorem Structural.Tabled.map_snd {s : Structural} (h : s.Tabled) :
    s.squares.map Prod.snd = (squarePositions 0 s.text).map s.originAt := by
  rw [← h, List.map_map]
  refine List.map_congr_left ?_
  rintro ⟨position, origin⟩ hm
  simp [originAt, h.originOf?_eq hm]

/-- The pass over a well-nested text delivers the leaves of its tree in postorder. -/
theorem flatten_forest {s : Structural} (h : s.Tabled) (f : Forest) (hf : f.text = s.text) :
    s.flatten = ⟨leavesOf s.originAt f.postorder, none⟩ := by
  have hs : (Nesting.start s).squares =
      (Structural.squarePositions 0 f.text).map s.originAt ++ [] := by
    rw [List.append_nil, hf]
    exact h.map_snd
  have run := run_forest s.originAt f (.start s) [] [] [] (Group.measured_opened _ _ _) hs
  rw [List.append_nil] at run
  unfold Structural.flatten
  rw [← hf, run, Flattening.run]
  have root : ((Nesting.start s).settle
      ((Nesting.start s).top.absorb s.originAt (Nesting.start s).position f)
      ((Nesting.start s).position + byteLength f.text) []).finish =
        .ok ((Group.opened .brace 0 0).absorb s.originAt 0 f).leaf? := rfl
  rw [root]
  dsimp only
  rw [Group.leaf?_absorb, Forest.postorder, leavesOf_append, leavesOf_cons]
  by_cases hg : f.hasGroup = true <;> simp [hg, leavesOf, Nesting.start]

/-- **The leaves in postorder.** A well-nested structural text has one tree of groups; the pass
delivers, and counts, the groups of that tree that hold another, in postorder and rendered as the
tree says, with the recorded origin of every square placeholder. -/
theorem flatten_postorder {s : Structural} (built : s.Built) (nested : WellNested s.text) :
    ∃ f : Forest, f.text = s.text ∧ (∀ g : Forest, g.text = s.text → g = f) ∧
      (∀ position, StandsAt '[' s.text position →
        s.originOf? position = some (s.originAt position)) ∧
      s.flatten.failure = none ∧
      s.flatten.leaves = (f.postorder.filter (·.content.hasGroup)).map (·.leaf s.originAt) ∧
      (∀ k, (LeafStream.start s).call k = (s.flatten.leaves.map Except.ok)[k]?) ∧
      s.flatten.count = .ok (f.postorder.filter (·.content.hasGroup)).length := by
  obtain ⟨f, hf⟩ := wellNested_iff_exists_forest.1 nested
  have flat := flatten_forest built.tabled f hf
  refine ⟨f, hf, ?_, ?_, ?_, ?_, ?_, ?_⟩
  · intro g hg
    exact Forest.text_injective (hg.trans hf.symm)
  · intro position hp
    exact built.tabled.originOf?_of_standsAt hp
  · rw [flat]
  · rw [flat]
    rfl
  · intro k
    rw [LeafStream.call_start, flat]
    simp [Flattening.items]
  · rw [flat]
    simp [Flattening.count, leavesOf]

theorem flatten_postorder_captures :
    (Structural.ofText "([x]\x7b\x7d)".toList).Built ∧ WellNested "([x]\x7b\x7d)".toList ∧
      (Structural.ofText "([x]\x7b\x7d)".toList).flatten.leaves =
        [⟨.paren, "[]\x7b\x7d".toList, [(0, 1)]⟩, ⟨.brace, "()".toList, []⟩] := by
  let tree : Forest :=
    .group .paren (.group .square (.char 'x' rfl .nil) (.group .brace .nil .nil)) .nil
  have built := Structural.Built.text "([x]\x7b\x7d)".toList
  have nested : WellNested "([x]\x7b\x7d)".toList := tree.wellNested_text
  obtain ⟨f, -, unique, -, -, leaves, -⟩ := flatten_postorder built nested
  refine ⟨built, nested, ?_⟩
  rw [leaves, ← unique tree rfl]
  decide

end LambdaTally
