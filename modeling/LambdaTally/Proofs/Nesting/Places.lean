import LambdaTally.Proofs.Nesting.Cut

/-!
# LambdaTally.Proofs.Nesting.Places

Where the groups of a tree stand. The content of every group is a part of the text, at the position
that the group is placed at (`exists_of_mem_postorder`). Every entry in the table of a content belongs
to a square group directly inside it (`exists_of_mem_table`), whose placeholder stands in the rendering
in front of what the rest of the content is rendered as (`rendered_square`).
-/

namespace LambdaTally

open Utf8

namespace Forest

variable {f : Forest} {g : Placed} {position : Nat}

theorem exists_of_mem_groups (h : g ∈ f.groups position) : ∃ before after,
    f.text = before ++ g.content.text ++ after ∧ g.position = position + byteLength before := by
  induction f generalizing position with
  | nil => cases h
  | char ch plain rest ih =>
    obtain ⟨before, after, text, place⟩ := ih h
    refine ⟨ch :: before, after, congrArg _ text, ?_⟩
    rw [place, byteLength_cons]
    omega
  | group kind inside rest ihi ihr =>
    have width := kind.utf8Size_opening
    rcases List.mem_append.1 h with inner | later
    · obtain ⟨before, after, whole, place⟩ := ihi inner
      refine ⟨kind.opening :: before, after ++ kind.closing :: rest.text, by simp [text, whole], ?_⟩
      rw [place, byteLength_cons]
      omega
    · rcases List.mem_cons.1 later with rfl | later
      · exact ⟨[kind.opening], kind.closing :: rest.text, by simp [text], by simp⟩
      · obtain ⟨before, after, whole, place⟩ := ihr later
        refine ⟨kind.opening :: inside.text ++ kind.closing :: before, after, by simp [text, whole], ?_⟩
        rw [place, Bracket.byteLength_group]
        omega

theorem exists_of_mem_postorder (h : g ∈ f.postorder) : ∃ before after,
    f.text = before ++ g.content.text ++ after ∧ g.position = byteLength before := by
  rcases List.mem_append.1 h with inner | last
  · obtain ⟨before, after, text, place⟩ := exists_of_mem_groups inner
    exact ⟨before, after, text, by rw [place, Nat.zero_add]⟩
  · rw [List.mem_singleton.1 last]
    exact ⟨[], [], by simp, rfl⟩

/-- By induction on the content; what stands before the entry's group grows with `before`. -/
theorem exists_of_mem_table {origin : Nat → Nat} {before : List Char} {entry : Nat × Nat}
    (h : entry ∈ f.table origin position before) : ∃ a inside b, f = a ++ group .square inside b ∧
      namesOperator (a.rendered before) .square = false ∧
      entry = (byteLength (a.rendered before), origin (position + byteLength a.text)) := by
  induction f generalizing position before with
  | nil => cases h
  | char ch plain rest ih =>
    obtain ⟨a, inside, b, rfl, stays, rfl⟩ := ih h
    refine ⟨char ch plain a, inside, b, rfl, stays, ?_⟩
    rw [rendered, text, byteLength_cons, Nat.add_assoc]
  | group kind content rest _ ih =>
    rcases List.mem_append.1 h with here | later
    · split at here
      · rename_i stays
        obtain ⟨rfl, stays⟩ := stays
        rw [List.mem_singleton.1 here]
        exact ⟨nil, content, rest, rfl, stays, rfl⟩
      · cases here
    · obtain ⟨a, inside, b, rfl, stays, rfl⟩ := ih later
      refine ⟨group kind content a, inside, b, rfl, stays, ?_⟩
      rw [rendered, text, Bracket.byteLength_group]
      simp only [Nat.add_assoc]

theorem rendered_square {a inside b : Forest}
    (stays : namesOperator (a.rendered []) .square = false) :
    (a ++ group .square inside b).rendered [] = a.rendered [] ++ '[' :: ']' :: b.rendered [] := by
  have left : collapsed (a.rendered []) .square = (a.rendered [] ++ ['[']) ++ ']' :: [] := by
    simp [collapsed, stays, Bracket.placeholder, Bracket.opening, Bracket.closing]
  rw [rendered_append, rendered, left, rendered_cut (by decide), List.append_assoc]
  rfl

end Forest
end LambdaTally
