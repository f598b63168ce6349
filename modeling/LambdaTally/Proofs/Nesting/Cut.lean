import LambdaTally.Proofs.Nesting.Rendering

/-!
# LambdaTally.Proofs.Nesting.Cut

Contents side by side, and what keeps their renderings apart. Whether a `[]` belongs to the name of
an operator depends on the text before it, but never on what stands before a character that is
neither a blank nor part of a name (`Cuts`): behind such a character a content is rendered as if it
stood alone (`rendered_cut`).
-/

namespace LambdaTally

open CharClass

/-- A character that is neither a blank nor part of a name. -/
def Cuts (ch : Char) : Prop := isBlank ch = false ∧ isNameChar ch = false

instance : DecidablePred Cuts := fun ch =>
  inferInstanceAs (Decidable (isBlank ch = false ∧ isNameChar ch = false))

namespace Group

variable {ch : Char} {word : String}

theorem isPrefixOf_cut {l : List Char} (h : ch ∉ l) (written rest : List Char) :
    l.isPrefixOf (written ++ ch :: rest) = l.isPrefixOf written := by
  induction l generalizing written with
  | nil => rfl
  | cons a l ih =>
    rw [List.mem_cons, not_or] at h
    cases written with
    | nil =>
      have ne : (a == ch) = false := by simpa using Ne.symm h.1
      simp [List.isPrefixOf, ne]
    | cons b written => simp [List.isPrefixOf, ih h.2]

theorem dropWhile_cut {p : Char → Bool} (h : p ch = false) (written rest : List Char) :
    (written ++ ch :: rest).dropWhile p = written.dropWhile p ++ ch :: rest := by
  induction written with
  | nil => simp [h]
  | cons b written ih =>
    rw [List.cons_append, List.dropWhile_cons, List.dropWhile_cons, ih]
    split <;> rfl

theorem stripWord?_cut (other : ch ∉ word.toList) (h : isNameChar ch = false)
    (written rest : List Char) :
    stripWord? word (written ++ ch :: rest) = (stripWord? word written).map (· ++ ch :: rest) := by
  have apart : ch ∉ word.toList.reverse := by simpa using other
  unfold stripWord?
  rw [isPrefixOf_cut apart]
  split
  · rename_i starts
    have short : word.length ≤ written.length := by
      have := (List.isPrefixOf_iff_prefix.1 starts).length_le
      rwa [List.length_reverse, String.length_toList] at this
    rw [List.drop_append_of_le_length short]
    cases written.drop word.length with
    | nil => simp [h]
    | cons b before => cases hb : isNameChar b <;> simp [hb]
  · rfl

theorem endsInOperator_cut (h : Cuts ch) (written rest : List Char) :
    endsInOperator (written ++ ch :: rest) = endsInOperator written := by
  have other {word : String} (letters : word.toList.all isNameChar = true) : ch ∉ word.toList := by
    intro hch
    have named := List.all_eq_true.1 letters ch hch
    rw [h.2] at named
    cases named
  have strip (word : String) (letters : word.toList.all isNameChar = true) (w : List Char) :
      stripWord? word (w ++ ch :: rest) = (stripWord? word w).map (· ++ ch :: rest) :=
    stripWord?_cut (other letters) h.2 w rest
  unfold endsInOperator
  dsimp only
  rw [dropWhile_cut h.1, strip "new" (by decide), strip "delete" (by decide)]
  cases stripWord? "new" (written.dropWhile isBlank) with
  | some before =>
    simp only [Option.map_some, Option.some_or]
    rw [dropWhile_cut h.1, strip "operator" (by decide), Option.isSome_map]
  | none =>
    cases stripWord? "delete" (written.dropWhile isBlank) with
    | some before =>
      simp only [Option.map_some, Option.map_none, Option.none_or]
      rw [dropWhile_cut h.1, strip "operator" (by decide), Option.isSome_map]
    | none =>
      simp only [Option.map_none, Option.none_or]
      rw [strip "operator" (by decide), Option.isSome_map]

end Group

namespace Forest

/-- Two contents side by side. -/
def append : Forest → Forest → Forest
  | nil, g => g
  | char ch plain rest, g => .char ch plain (rest.append g)
  | group kind inside rest, g => .group kind inside (rest.append g)

instance : Append Forest := ⟨append⟩

/-- The contents of the groups directly inside, from left to right. -/
def contents : Forest → List Forest
  | nil => []
  | char _ _ rest => rest.contents
  | group _ inside rest => inside :: rest.contents

section Append

variable (f g : Forest)

@[simp] theorem nil_append : nil ++ g = g := rfl

@[simp] theorem char_append (ch : Char) (plain : Bracket.isBracket ch = false) :
    char ch plain f ++ g = char ch plain (f ++ g) := rfl

@[simp] theorem group_append (kind : Bracket) (inside : Forest) :
    group kind inside f ++ g = group kind inside (f ++ g) := rfl

@[simp] theorem text_append : (f ++ g).text = f.text ++ g.text := by
  induction f with
  | nil => rfl
  | char ch plain rest ih => simp [text, ih]
  | group kind inside rest _ ih => simp [text, ih]

@[simp] theorem contents_append : (f ++ g).contents = f.contents ++ g.contents := by
  induction f with
  | nil => rfl
  | char ch plain rest ih => simp [contents, ih]
  | group kind inside rest _ ih => simp [contents, ih]

theorem rendered_append (before : List Char) :
    (f ++ g).rendered before = g.rendered (f.rendered before) := by
  induction f generalizing before with
  | nil => rfl
  | char ch plain rest ih => simp [rendered, ih]
  | group kind inside rest _ ih => simp [rendered, ih]

end Append

variable {ch : Char}

theorem collapsed_cut (h : Cuts ch) (front before : List Char) (kind : Bracket) :
    collapsed (front ++ ch :: before) kind = front ++ ch :: collapsed before kind := by
  have turned : (front ++ ch :: before).reverse = before.reverse ++ ch :: front.reverse := by simp
  have same : namesOperator (front ++ ch :: before) kind = namesOperator before kind := by
    unfold namesOperator
    rw [turned, Group.endsInOperator_cut h]
  unfold collapsed
  rw [same]
  split
  · unfold trimEnd
    rw [turned, Group.dropWhile_cut h.1]
    simp
  · simp

/-- Behind a character that cuts a content is rendered as if it stood alone. -/
theorem rendered_cut (h : Cuts ch) (f : Forest) (front before : List Char) :
    f.rendered (front ++ ch :: before) = front ++ ch :: f.rendered before := by
  induction f generalizing before with
  | nil => rfl
  | char c plain rest ih =>
    rw [rendered, rendered, List.append_assoc, List.cons_append, ih]
  | group kind inside rest _ ih => rw [rendered, rendered, collapsed_cut h, ih]

end Forest
end LambdaTally
