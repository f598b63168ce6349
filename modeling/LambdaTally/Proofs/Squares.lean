import LambdaTally.Proofs.Nesting.Failure
import LambdaTally.Proofs.Nesting.Origins
import LambdaTally.Proofs.Nesting.Places
import Mathlib.Data.List.Nodup

/-!
# LambdaTally.Proofs.Squares

What becomes of every `[` on the way from a source to its leaves. The table of a reduced source lists the
`[` of the text in order, each with a `[` of the source (`square_table`). From there each one goes into the
table of exactly one leaf, the one of the group around it, or is dropped as part of the name of an
operator (`squares_conserved`).

For the second result every `[` is traced to the group that it stands in (`Forest.exists_opens`). That it
is listed only once, and not at all if it is omitted, comes from `perm_origins`: listed and omitted squares
together are the squares of the text, which are all different.
-/

namespace LambdaTally

open Utf8 Structural
open scoped List

/-- **The table of a reduced source.** Its positions are the places of `[` in the text, in ascending
order; its offsets ascend too, and are places of `[` in the source. So looking up a position, from the
front or by halving, gives the recorded offset where the text has a `[`, and nothing anywhere else. -/
theorem square_table (source : List Char) :
    let s := ofSource source
    (s.squares.map Prod.fst).Pairwise (· < ·) ∧
      (∀ i, i ∈ s.squares.map Prod.fst ↔ (encode s.text)[i]? = some 0x5B) ∧
      (s.squares.map Prod.snd).Pairwise (· < ·) ∧
      (∀ offset ∈ s.squares.map Prod.snd, (encode source)[offset]? = some 0x5B) ∧
      ∀ i, ((s.originOf? i).isSome ↔ (encode s.text)[i]? = some 0x5B) ∧
        (∀ offset, s.originOf? i = some offset ↔ (i, offset) ∈ s.squares) ∧
        bisect? s.squares i = s.originOf? i := by
  intro s
  have tabled : s.Tabled := tabled_ofSource source
  have ascending : (s.squares.map Prod.fst).Pairwise (· < ·) := pairwise_of_tabled tabled
  refine ⟨ascending, fun i => ?_, pairwise_offsets source, ?_, ?_⟩
  · rw [← standsAt_square_iff]
    exact mem_of_tabled tabled
  · intro offset member
    obtain ⟨entry, here, rfl⟩ := List.mem_map.1 member
    exact standsAt_square_iff.1 (standsAt_of_mem_squares here)
  · intro i
    refine ⟨?_, fun offset => lookup_eq_some_iff ascending, bisect?_eq_lookup ascending i⟩
    rw [← standsAt_square_iff]
    exact isSome_lookup_of_tabled tabled

namespace Forest

variable {f : Forest} {g : Placed} {before : Forest} {position p : Nat}

theorem table_append (origin : Nat → Nat) (f g : Forest) (position : Nat) (written : List Char) :
    (f ++ g).table origin position written =
      f.table origin position written ++
        g.table origin (position + byteLength f.text) (f.rendered written) := by
  induction f generalizing position written with
  | nil => rfl
  | char ch plain rest ih =>
    rw [char_append, table, table, rendered, text, byteLength_cons, ih, Nat.add_assoc]
  | group kind inside rest _ ih =>
    rw [group_append, table, table, rendered, text, Bracket.byteLength_group, ih, List.append_assoc]
    simp only [Nat.add_assoc]

theorem omitted_append (origin : Nat → Nat) (f g : Forest) (position : Nat) (written : List Char) :
    (f ++ g).omitted origin position written =
      f.omitted origin position written ++
        g.omitted origin (position + byteLength f.text) (f.rendered written) := by
  induction f generalizing position written with
  | nil => rfl
  | char ch plain rest ih =>
    rw [char_append, omitted, omitted, rendered, text, byteLength_cons, ih, Nat.add_assoc]
  | group kind inside rest _ ih =>
    rw [group_append, omitted, omitted, rendered, text, Bracket.byteLength_group, ih, List.append_assoc]
    simp only [Nat.add_assoc]

/-- A square group opens at a position of the text, directly inside `g` and behind a part of its
content. -/
def Placed.Opens (g : Placed) (before : Forest) (position : Nat) : Prop :=
  ∃ inside after, g.content = before ++ group .square inside after ∧
    position = g.position + byteLength before.text

/-- By induction on the content, seen as the content of a group. -/
theorem exists_opens (kind : Bracket) (h : p ∈ squarePositions position f.text) :
    ∃ g ∈ ⟨kind, position, f⟩ :: f.groups position, ∃ before, g.Opens before p := by
  induction f generalizing kind position with
  | nil => cases h
  | char ch plain rest ih =>
    rw [text, squarePositions_plain plain] at h
    obtain ⟨g, member, before, inside, after, whole, place⟩ := ih kind h
    rcases List.mem_cons.1 member with rfl | deeper
    · refine ⟨_, List.mem_cons_self, char ch plain before, inside, after, ?_, ?_⟩
      · rw [char_append, ← whole]
      · rw [place, text, byteLength_cons, Nat.add_assoc]
    · exact ⟨g, List.mem_cons_of_mem _ deeper, before, inside, after, whole, place⟩
  | group opened inside rest ihi ihr =>
    rw [text, squarePositions_group] at h
    rcases List.mem_append.1 h with here | h
    · split at here
      · rename_i square
        subst square
        exact ⟨_, List.mem_cons_self, nil, inside, rest, rfl, List.mem_singleton.1 here⟩
      · cases here
    rcases List.mem_append.1 h with within | behind
    · obtain ⟨g, member, found⟩ := ihi opened within
      refine ⟨g, List.mem_cons_of_mem _ ?_, found⟩
      rw [groups]
      rcases List.mem_cons.1 member with rfl | deeper
      · exact List.mem_append_right _ List.mem_cons_self
      · exact List.mem_append_left _ deeper
    · obtain ⟨g, member, before, content, after, whole, place⟩ := ihr kind behind
      rcases List.mem_cons.1 member with rfl | deeper
      · refine ⟨_, List.mem_cons_self, group opened inside before, content, after, ?_, ?_⟩
        · rw [group_append, ← whole]
        · rw [place, text, Bracket.byteLength_group]
          simp only [Nat.add_assoc]
      · refine ⟨g, List.mem_cons_of_mem _ ?_, before, content, after, whole, place⟩
        rw [groups]
        exact List.mem_append_right _ (List.mem_cons_of_mem _ deeper)

theorem exists_opens_postorder (h : StandsAt '[' f.text p) :
    ∃ g ∈ f.postorder, ∃ before, g.Opens before p := by
  have listed : p ∈ squarePositions 0 f.text := mem_squarePositions.2 ⟨p, h, (Nat.zero_add p).symm⟩
  obtain ⟨g, member, found⟩ := exists_opens .brace listed
  refine ⟨g, ?_, found⟩
  rw [postorder]
  rcases List.mem_cons.1 member with rfl | deeper
  · exact List.mem_append_right _ List.mem_cons_self
  · exact List.mem_append_left _ deeper

theorem hasGroup_append (f g : Forest) : (f ++ g).hasGroup = (f.hasGroup || g.hasGroup) := by
  induction f with
  | nil => rfl
  | char ch plain rest ih => exact ih
  | group kind inside rest _ _ => rfl

theorem Placed.Opens.hasGroup (h : g.Opens before p) : g.content.hasGroup = true := by
  obtain ⟨inside, after, whole, -⟩ := h
  rw [whole, hasGroup_append, Forest.hasGroup, Bool.or_true]

theorem Placed.Opens.mem_origins (h : g.Opens before p) (origin : Nat → Nat)
    (stays : namesOperator (before.rendered []) .square = false) :
    (byteLength (before.rendered []), origin p) ∈ (g.leaf origin).origins := by
  obtain ⟨inside, after, whole, rfl⟩ := h
  rw [Placed.leaf, whole, table_append, table, if_pos ⟨rfl, stays⟩]
  simp

theorem Placed.Opens.mem_omissions (h : g.Opens before p) (origin : Nat → Nat) {gs : List Placed}
    (member : g ∈ gs) (dropped : namesOperator (before.rendered []) .square = true) :
    origin p ∈ omissions origin gs := by
  obtain ⟨inside, after, whole, rfl⟩ := h
  refine List.mem_flatMap.2 ⟨g, member, ?_⟩
  rw [whole, omitted_append, omitted, if_pos ⟨rfl, dropped⟩]
  simp

end Forest

/-- Square brackets of a structural text were written at different places. -/
theorem Structural.Built.nodup_offsets {s : Structural} (h : s.Built) :
    (s.squares.map Prod.snd).Nodup := by
  cases h with
  | source source => exact (pairwise_offsets source).imp Nat.ne_of_lt
  | text text =>
    have same : ((ofText text).squares.map Prod.snd) = squarePositions 0 text := by
      rw [ofText, List.map_map]
      exact List.map_id _
    rw [same]
    exact (pairwise_squarePositions 0 text).imp Nat.ne_of_lt

section Leaves

variable {s : Structural} {leaf : Leaf}

/-- Every `[` in the text of a leaf is that of a placeholder. -/
theorem closed_of_mem_leaves (tabled : s.Tabled) (nested : WellNested s.text)
    (member : leaf ∈ s.flatten.leaves) {p : Nat} (h : StandsAt '[' leaf.text p) :
    (encode leaf.text)[p + 1]? = some 0x5D := by
  obtain ⟨f, hf⟩ := wellNested_iff_exists_forest.1 nested
  rw [flatten_forest tabled f hf] at member
  obtain ⟨g, -, rfl⟩ := List.mem_map.1 member
  have listed := (mem_of_tabled (Forest.tabled_leaf s.originAt g)).2 h
  obtain ⟨entry, inTable, rfl⟩ := List.mem_map.1 listed
  obtain ⟨a, inside, b, whole, stays, rfl⟩ := Forest.exists_of_mem_table inTable
  have text : (g.leaf s.originAt).text = (a.rendered [] ++ ['[']) ++ ']' :: b.rendered [] := by
    rw [Forest.Placed.leaf, whole, Forest.rendered_square stays]
    simp
  have standing : StandsAt ']' (g.leaf s.originAt).text (byteLength (a.rendered []) + 1) := by
    refine ⟨_, _, text, ?_⟩
    rw [byteLength_append]
    rfl
  exact standing.octet

end Leaves

/-- **No square bracket is lost or counted twice.** In the leaves of a well-nested structural text every
`[` of the text is accounted for once. The group that it opens stands directly inside one group of the
text, behind a part of that group's content. Where that part, as the leaf renders it, ends in the name of
an operator, the origin of the `[` is in no table; otherwise the group around it is a leaf, whose table has
the origin at the place of the placeholder, and it is the only entry for it in all tables.

The table of a leaf has no other origins. Its positions ascend and are the places of `[` in the text of the
leaf, each with a `]` behind it, so a position is found in it, in whichever way it is searched, exactly if
the text has a `[]` there. -/
theorem squares_conserved {s : Structural} (built : s.Built) (nested : WellNested s.text) :
    ∃ f : Forest, f.text = s.text ∧
      (∀ position, StandsAt '[' s.text position →
        ∃ origin, s.originOf? position = some origin ∧
        ∃ parent ∈ f.postorder, ∃ before, parent.Opens before position ∧
          ((Forest.namesOperator (before.rendered []) .square = true ∧
              ∀ leaf ∈ s.flatten.leaves, origin ∉ leaf.origins.map Prod.snd) ∨
            (Forest.namesOperator (before.rendered []) .square = false ∧
              parent.leaf s.originAt ∈ s.flatten.leaves ∧
              (byteLength (before.rendered []), origin) ∈ (parent.leaf s.originAt).origins ∧
              (s.flatten.leaves.flatMap fun leaf => leaf.origins.map Prod.snd).count origin = 1))) ∧
      ∀ leaf ∈ s.flatten.leaves,
        (∀ origin ∈ leaf.origins.map Prod.snd, origin ∈ s.squares.map Prod.snd) ∧
        (leaf.origins.map Prod.fst).Pairwise (· < ·) ∧
        (∀ p, p ∈ leaf.origins.map Prod.fst ↔ (encode leaf.text)[p]? = some 0x5B) ∧
        (∀ p : Nat, (encode leaf.text)[p]? = some 0x5B → (encode leaf.text)[p + 1]? = some 0x5D) ∧
        ∀ p, ((leaf.originAt? p).isSome ↔
            (encode leaf.text)[p]? = some 0x5B ∧ (encode leaf.text)[p + 1]? = some 0x5D) ∧
          bisect? leaf.origins p = leaf.originAt? p := by
  have tabled := built.tabled
  obtain ⟨f, hf⟩ := wellNested_iff_exists_forest.1 nested
  have all := perm_origins tabled hf
  obtain ⟨once, -, apart⟩ := List.nodup_append.1 (all.nodup_iff.2 built.nodup_offsets)
  have mem_listed {leaf : Leaf} {origin : Nat} (inLeaves : leaf ∈ s.flatten.leaves)
      (member : origin ∈ leaf.origins.map Prod.snd) :
      origin ∈ s.flatten.leaves.flatMap fun leaf => leaf.origins.map Prod.snd :=
    List.mem_flatMap.2 ⟨leaf, inLeaves, member⟩
  refine ⟨f, hf, ?_, ?_⟩
  · intro position stands
    obtain ⟨parent, member, before, opens⟩ := f.exists_opens_postorder (hf ▸ stands)
    refine ⟨_, tabled.originOf?_of_standsAt stands, parent, member, before, opens, ?_⟩
    cases named : Forest.namesOperator (before.rendered []) .square with
    | true =>
      have dropped := opens.mem_omissions s.originAt member named
      refine .inl ⟨rfl, ?_⟩
      intro leaf inLeaves listed
      exact apart _ (mem_listed inLeaves listed) _ dropped rfl
    | false =>
      have inTable := opens.mem_origins s.originAt named
      have inLeaves : parent.leaf s.originAt ∈ s.flatten.leaves := by
        rw [flatten_forest tabled f hf]
        exact List.mem_map_of_mem (List.mem_filter.2 ⟨member, opens.hasGroup⟩)
      have entry : s.originAt position ∈ (parent.leaf s.originAt).origins.map Prod.snd :=
        List.mem_map_of_mem inTable
      exact .inr ⟨rfl, inLeaves, inTable, List.count_eq_one_of_mem once (mem_listed inLeaves entry)⟩
  · intro leaf inLeaves
    have table := tabled_of_mem_leaves tabled nested inLeaves
    have ascending : (leaf.origins.map Prod.fst).Pairwise (· < ·) := pairwise_of_tabled table
    have closed (p : Nat) (h : (encode leaf.text)[p]? = some 0x5B) :
        (encode leaf.text)[p + 1]? = some 0x5D :=
      closed_of_mem_leaves tabled nested inLeaves (standsAt_square_iff.2 h)
    refine ⟨?_, ascending, fun p => ?_, closed, fun p => ⟨?_, bisect?_eq_lookup ascending p⟩⟩
    · intro origin member
      exact all.mem_iff.1 (List.mem_append_left _ (mem_listed inLeaves member))
    · rw [← standsAt_square_iff]
      exact mem_of_tabled table
    · rw [and_iff_left_of_imp (closed p), ← standsAt_square_iff]
      exact isSome_lookup_of_tabled table

/-- The `[` of an operator's name is in no table, that of a lambda's captures in one. -/
theorem squares_conserved_operator :
    let s := ofText "T operator [](I i) \x7b g([i] \x7b\x7d); \x7d".toList
    s.Built ∧ WellNested s.text ∧
      (s.originOf? 11 = some 11 ∧ ∀ leaf ∈ s.flatten.leaves, 11 ∉ leaf.origins.map Prod.snd) ∧
      s.originOf? 23 = some 23 ∧
        (s.flatten.leaves.flatMap fun leaf => leaf.origins.map Prod.snd).count 23 = 1 := by
  intro s
  have built : s.Built := .text _
  have nested : WellNested s.text := (verdict_wellNested_iff _).1 (by decide +kernel)
  obtain ⟨f, -, squares, -⟩ := squares_conserved built nested
  have first : s.originOf? 11 = some 11 := by decide +kernel
  have second : s.originOf? 23 = some 23 := by decide +kernel
  refine ⟨built, nested, ⟨first, ?_⟩, second, ?_⟩
  · obtain ⟨origin, recorded, _, _, _, _, dropped | kept⟩ :=
      squares 11 (standsAt_square_iff.2 (by decide +kernel))
    · rw [first] at recorded
      cases recorded
      exact dropped.2
    · rw [first] at recorded
      cases recorded
      exact absurd kept.2.2.2 (by decide +kernel)
  · obtain ⟨origin, recorded, _, inTree, _, _, dropped | kept⟩ :=
      squares 23 (standsAt_square_iff.2 (by decide +kernel))
    · rw [second] at recorded
      cases recorded
      have listed : ∃ leaf ∈ s.flatten.leaves, 23 ∈ leaf.origins.map Prod.snd := by decide +kernel
      obtain ⟨leaf, member, here⟩ := listed
      exact absurd here (dropped.2 leaf member)
    · rw [second] at recorded
      cases recorded
      exact kept.2.2.2

end LambdaTally
