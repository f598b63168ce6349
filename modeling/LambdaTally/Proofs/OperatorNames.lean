import LambdaTally.Proofs.Introducers
import LambdaTally.Proofs.Squares

/-!
# LambdaTally.Proofs.OperatorNames

Which `[]` belong to the names of operators (`operator_names`). A square group leaves no placeholder
exactly if the text of its parent, as far as it has been rendered, ends in `operator`, `operator new`
or `operator delete` (`EndsInOperatorName`); the rules of `Forest.Renders` say what is rendered then.

What such a group takes away are the blanks before it. A text that ends in no blank stays as it is
(`Forest.prefix_rendered`), and a placeholder is one, so no placeholder is lost or moved by what comes
behind it.
-/

namespace LambdaTally

open Utf8 Structural CharClass

/-! ## The name of an operator -/

/-- But for blanks, the text ends in this word, and behind `before` the word starts: no character of
a name stands right before it. -/
def LastWord (word : String) (text before : List Char) : Prop :=
  trimEnd text = before ++ word.toList ∧ ∀ ch ∈ before.getLast?, isNameChar ch = false

/-- The text ends in the name of an operator that a `[]` completes. -/
def EndsInOperatorName (text : List Char) : Prop :=
  (∃ before, LastWord "operator" text before) ∨
    ∃ word ∈ ["new", "delete"], ∃ head before,
      LastWord word text head ∧ LastWord "operator" head before

namespace Group

variable {word : String} {text before : List Char}

theorem stripWord?_append (word : String) (before : List Char) :
    stripWord? word (before ++ word.toList).reverse =
      if before.getLast?.any isNameChar then none else some before.reverse := by
  have width : word.length = word.toList.reverse.length := by
    rw [List.length_reverse, String.length_toList]
  rw [stripWord?, List.reverse_append, if_pos (by simp), width, List.drop_left]
  dsimp only
  rw [List.head?_reverse]

theorem stripWord?_eq_some_iff :
    stripWord? word text.reverse = some before.reverse ↔
      text = before ++ word.toList ∧ ∀ ch ∈ before.getLast?, isNameChar ch = false := by
  have whole (front : List Char) : front.getLast?.any isNameChar = false ↔
      ∀ ch ∈ front.getLast?, isNameChar ch = false := by
    cases front.getLast? <;> simp
  constructor
  · intro h
    have starts : word.toList.reverse.isPrefixOf text.reverse = true := by
      unfold stripWord? at h
      split at h
      · assumption
      · cases h
    obtain ⟨front, rfl⟩ := List.reverse_prefix.1 (List.isPrefixOf_iff_prefix.1 starts)
    rw [stripWord?_append] at h
    split at h
    · cases h
    · rename_i no_name
      obtain rfl := List.reverse_injective (Option.some.inj h)
      exact ⟨rfl, (whole _).1 (by simpa using no_name)⟩
  · rintro ⟨rfl, apart⟩
    rw [stripWord?_append, (whole _).2 apart]
    rfl

theorem lastWord_iff :
    LastWord word text before ↔
      stripWord? word (text.reverse.dropWhile isBlank) = some before.reverse := by
  have trimmed : text.reverse.dropWhile isBlank = (trimEnd text).reverse := by
    rw [trimEnd, List.reverse_reverse]
  rw [trimmed, stripWord?_eq_some_iff, LastWord]

end Group

/-- The last letter of a text is that of every word it ends in. -/
theorem LastWord.getLast?_eq {word other : String} {text before front : List Char}
    (h : LastWord word text before) (h' : LastWord other text front) (nonempty : word.toList ≠ [])
    (nonempty' : other.toList ≠ []) : word.toList.getLast? = other.toList.getLast? := by
  have same := congrArg List.getLast? (h.1.symm.trans h'.1)
  rwa [List.getLast?_append_of_ne_nil _ nonempty, List.getLast?_append_of_ne_nil _ nonempty'] at same

namespace Group

variable {text head before : List Char}

theorem allocation_iff :
    (stripWord? "new" (text.reverse.dropWhile isBlank)).or
        (stripWord? "delete" (text.reverse.dropWhile isBlank)) = some head.reverse ↔
      ∃ word ∈ ["new", "delete"], LastWord word text head := by
  rw [Option.or_eq_some_iff, ← lastWord_iff, ← lastWord_iff]
  constructor
  · rintro (last | ⟨-, last⟩)
    · exact ⟨"new", by simp, last⟩
    · exact ⟨"delete", by simp, last⟩
  · rintro ⟨word, member, last⟩
    rcases List.mem_pair.1 member with rfl | rfl
    · exact .inl last
    · refine .inr ⟨?_, last⟩
      refine Option.eq_none_iff_forall_ne_some.2 ?_
      intro other found
      rw [← List.reverse_reverse other] at found
      exact absurd ((lastWord_iff.2 found).getLast?_eq last (by decide) (by decide)) (by decide)

theorem endsInOperator_iff : endsInOperator text.reverse = true ↔ EndsInOperatorName text := by
  have isSome (text : List Char) :
      (stripWord? "operator" (text.reverse.dropWhile isBlank)).isSome = true ↔
        ∃ before, LastWord "operator" text before := by
    rw [Option.isSome_iff_exists]
    constructor
    · rintro ⟨before, found⟩
      exact ⟨before.reverse, lastWord_iff.2 (by rwa [List.reverse_reverse])⟩
    · rintro ⟨before, last⟩
      exact ⟨before.reverse, lastWord_iff.1 last⟩
  unfold endsInOperator
  dsimp only
  constructor
  · intro h
    split at h
    · rename_i written found
      rw [← List.reverse_reverse written] at found h
      obtain ⟨word, member, last⟩ := allocation_iff.1 found
      obtain ⟨before, inner⟩ := (isSome _).1 h
      exact .inr ⟨word, member, _, before, last, inner⟩
    · exact .inl ((isSome text).1 h)
  · rintro (⟨before, last⟩ | ⟨word, member, head, before, last, inner⟩)
    · have alone : (stripWord? "new" (text.reverse.dropWhile isBlank)).or
          (stripWord? "delete" (text.reverse.dropWhile isBlank)) = none := by
        refine Option.eq_none_iff_forall_ne_some.2 ?_
        intro written found
        rw [← List.reverse_reverse written] at found
        obtain ⟨word, member, other⟩ := allocation_iff.1 found
        rcases List.mem_pair.1 member with rfl | rfl
        · exact absurd (last.getLast?_eq other (by decide) (by decide)) (by decide)
        · exact absurd (last.getLast?_eq other (by decide) (by decide)) (by decide)
      rw [alone]
      exact (isSome text).2 ⟨before, last⟩
    · rw [allocation_iff.2 ⟨word, member, last⟩]
      exact (isSome head).2 ⟨before, inner⟩

end Group

instance : DecidablePred EndsInOperatorName := fun _ => decidable_of_iff _ Group.endsInOperator_iff

/-! ## What is rendered -/

namespace Forest

/-- What a content is rendered as behind a text. A square group behind the name of an operator leaves
nothing, nor do the blanks before it; any other group leaves its placeholder. -/
inductive Renders : List Char → Forest → List Char → Prop
  | nil (before : List Char) : Renders before nil before
  | char {before out : List Char} {ch : Char} {plain : Bracket.isBracket ch = false} {rest : Forest} :
      Renders (before ++ [ch]) rest out → Renders before (char ch plain rest) out
  | placeholder {before out : List Char} {kind : Bracket} {inside rest : Forest} :
      ¬ (kind = .square ∧ EndsInOperatorName before) →
        Renders (before ++ kind.placeholder) rest out → Renders before (group kind inside rest) out
  | operatorName {before out : List Char} {inside rest : Forest} :
      EndsInOperatorName before →
        Renders (trimEnd before) rest out → Renders before (group .square inside rest) out

variable {before out text : List Char} {kind : Bracket} {f : Forest}

theorem namesOperator_iff :
    namesOperator before kind = true ↔ kind = .square ∧ EndsInOperatorName before := by
  rw [namesOperator, Bool.and_eq_true, decide_eq_true_eq, Group.endsInOperator_iff]

theorem renders_rendered (before : List Char) (f : Forest) : Renders before f (f.rendered before) := by
  induction f generalizing before with
  | nil => exact .nil before
  | char ch plain rest ih => exact .char (ih _)
  | group kind inside rest _ ih =>
    rw [rendered, collapsed]
    split
    · rename_i names
      obtain ⟨rfl, operator⟩ := namesOperator_iff.1 names
      exact .operatorName operator (ih _)
    · rename_i stays
      exact .placeholder (mt namesOperator_iff.2 stays) (ih _)

/-- The rules leave no choice. -/
theorem Renders.eq_rendered (h : Renders before f out) : out = f.rendered before := by
  induction h with
  | nil => rfl
  | char _ ih => exact ih
  | placeholder stays _ ih => rw [rendered, collapsed, if_neg (mt namesOperator_iff.1 stays), ih]
  | operatorName operator _ ih =>
    rw [rendered, collapsed, if_pos (namesOperator_iff.2 ⟨rfl, operator⟩), ih]

/-- What has been written up to a character that is no blank stays. -/
theorem Renders.keeps (h : Renders before f out) (start : text <+: before)
    (kept : ∀ ch ∈ text.getLast?, isBlank ch = false) : text <+: out := by
  induction h with
  | nil => exact start
  | char _ ih => exact ih (start.trans (List.prefix_append _ _))
  | placeholder _ _ ih => exact ih (start.trans (List.prefix_append _ _))
  | operatorName _ _ ih => exact ih (prefix_trimEnd start kept)

end Forest

/-! ## The groups of a text -/

variable {s : Structural} {f : Forest} {parent : Forest.Placed} {leaf : Leaf}

theorem Forest.Placed.Opens.standsAt {a : Forest} {position : Nat} (opens : parent.Opens a position)
    (member : parent ∈ f.postorder) : StandsAt '[' f.text position := by
  obtain ⟨inside, b, content, rfl⟩ := opens
  obtain ⟨front, back, whole, place⟩ := exists_of_mem_postorder member
  refine ⟨front ++ a.text, inside.text ++ ']' :: (b.text ++ back), ?_, ?_⟩
  · rw [whole, content, text_append]
    simp [Forest.text, Bracket.opening, Bracket.closing]
  · rw [place, byteLength_append]

theorem mem_leaves_of_group (tabled : s.Tabled) (hf : f.text = s.text) (member : parent ∈ f.postorder)
    {a inside b : Forest} {kind : Bracket} (content : parent.content = a ++ .group kind inside b) :
    parent.leaf s.originAt ∈ s.flatten.leaves := by
  have holds : parent.content.hasGroup = true := by
    rw [content, Forest.hasGroup_append, Forest.hasGroup, Bool.or_true]
  rw [flatten_forest tabled f hf]
  exact List.mem_map_of_mem (List.mem_filter.2 ⟨member, holds⟩)

/-- No table has the origin of a square group that belongs to the name of an operator. -/
theorem notMem_origins_of_dropped (built : s.Built) (hf : f.text = s.text)
    (member : parent ∈ f.postorder) {a : Forest} {position : Nat} (opens : parent.Opens a position)
    (operator : EndsInOperatorName (a.rendered [])) (inLeaves : leaf ∈ s.flatten.leaves) :
    s.originAt position ∉ leaf.origins.map Prod.snd := by
  intro listed
  have all := perm_origins built.tabled hf
  obtain ⟨-, -, apart⟩ := List.nodup_append.1 (all.nodup_iff.2 built.nodup_offsets)
  have dropped : Forest.namesOperator (a.rendered []) .square = true :=
    Forest.namesOperator_iff.2 ⟨rfl, operator⟩
  exact apart _ (List.mem_flatMap.2 ⟨leaf, inLeaves, listed⟩) _
    (opens.mem_omissions s.originAt member dropped) rfl

/-- Every `[` of a leaf is that of a placeholder, with no name of an operator in front of it. -/
theorem exists_placeholder (tabled : s.Tabled) (hf : f.text = s.text)
    (inLeaves : leaf ∈ s.flatten.leaves) {position : Nat} (stands : StandsAt '[' leaf.text position) :
    ∃ before after, leaf.text = before ++ '[' :: ']' :: after ∧ position = byteLength before ∧
      ¬ EndsInOperatorName before := by
  rw [flatten_forest tabled f hf] at inLeaves
  obtain ⟨g, -, rfl⟩ := List.mem_map.1 inLeaves
  have listed := (mem_of_tabled (Forest.tabled_leaf s.originAt g)).2 stands
  obtain ⟨entry, inTable, rfl⟩ := List.mem_map.1 listed
  obtain ⟨a, inside, b, content, stays, rfl⟩ := Forest.exists_of_mem_table inTable
  refine ⟨a.rendered [], b.rendered [], ?_, rfl, ?_⟩
  · rw [Forest.Placed.leaf, content, Forest.rendered_square stays]
  · intro operator
    rw [Forest.namesOperator_iff.2 ⟨rfl, operator⟩] at stays
    cases stays

/-- The leaf goes on behind what the group has left. -/
theorem renders_behind {a inside b : Forest} {kind : Bracket}
    (content : parent.content = a ++ .group kind inside b) (origin : Nat → Nat) :
    Forest.Renders (Forest.collapsed (a.rendered []) kind) b (parent.leaf origin).text := by
  rw [Forest.Placed.leaf, content, Forest.rendered_append, Forest.rendered]
  exact Forest.renders_rendered _ b

/-- No lambda starts at a `[` whose origin is in no table. -/
theorem offset_ne_of_notMem (tabled : leaf.Tabled) {origin : Nat}
    (absent : origin ∉ leaf.origins.map Prod.snd) : ∀ m ∈ leaf.lambdas, m.offset ≠ origin := by
  rintro m hm rfl
  exact absent (List.mem_map_of_mem (tabled.mem_origins hm).1)

/-- **The names of operators.** In a well-nested structural text, take any group directly inside another,
and the text of the one around it as it is rendered up to there. A square group behind the name of an
operator leaves nothing: the leaf goes on where that text, without the blanks at its end, stops, and the
origin of the bracket is in no table and is the place of no lambda. Any other group leaves its placeholder,
which stays where it was written whatever comes behind it, and for a square one the leaf finds the origin
there.

So no `[]` of a leaf has the name of an operator in front of it, and every lambda starts at such a `[]`. -/
theorem operator_names (built : s.Built) (nested : WellNested s.text) :
    ∃ f : Forest, f.text = s.text ∧ (∀ g : Forest, g.text = s.text → g = f) ∧
      (∀ parent ∈ f.postorder, ∀ a kind inside b, parent.content = a ++ .group kind inside b →
        ∃ leaf ∈ s.flatten.leaves, leaf = parent.leaf s.originAt ∧
        ∃ before, Forest.Renders [] a before ∧
          (kind = .square ∧ EndsInOperatorName before →
            trimEnd before <+: leaf.text ∧ Forest.Renders (trimEnd before) b leaf.text ∧
            ∃ origin, s.originOf? (parent.position + byteLength a.text) = some origin ∧
              ∀ other ∈ s.flatten.leaves, origin ∉ other.origins.map Prod.snd ∧
                ∀ m ∈ other.lambdas, m.offset ≠ origin) ∧
          (¬ (kind = .square ∧ EndsInOperatorName before) →
            before ++ kind.placeholder <+: leaf.text ∧
            Forest.Renders (before ++ kind.placeholder) b leaf.text ∧
            (kind = .square →
              ∃ origin, s.originOf? (parent.position + byteLength a.text) = some origin ∧
                leaf.originAt? (byteLength before) = some origin))) ∧
      ∀ leaf ∈ s.flatten.leaves,
        (∀ before after, leaf.text = before ++ '[' :: ']' :: after → ¬ EndsInOperatorName before) ∧
        ∀ m ∈ leaf.lambdas, ∃ before after,
          leaf.text = before ++ '[' :: ']' :: after ∧ m.start = byteLength before := by
  have tabled := built.tabled
  obtain ⟨f, hf⟩ := wellNested_iff_exists_forest.1 nested
  refine ⟨f, hf, fun g hg => Forest.text_injective (hg.trans hf.symm), ?_, ?_⟩
  · intro parent member a kind inside b content
    have rest := renders_behind content s.originAt
    have recorded (square : kind = .square) :
        parent.Opens a (parent.position + byteLength a.text) ∧
          s.originOf? (parent.position + byteLength a.text) =
            some (s.originAt (parent.position + byteLength a.text)) := by
      have opens : parent.Opens a (parent.position + byteLength a.text) :=
        ⟨inside, b, square ▸ content, rfl⟩
      exact ⟨opens, tabled.originOf?_of_standsAt (hf ▸ opens.standsAt member)⟩
    refine ⟨_, mem_leaves_of_group tabled hf member content, rfl, _, Forest.renders_rendered [] a, ?_, ?_⟩
    · intro names
      rw [Forest.collapsed, if_pos (Forest.namesOperator_iff.2 names)] at rest
      obtain ⟨opens, origin⟩ := recorded names.1
      refine ⟨rest.keeps List.prefix_rfl (isBlank_getLast_trimEnd _), rest, _, origin, ?_⟩
      intro other inLeaves
      have absent := notMem_origins_of_dropped built hf member opens names.2 inLeaves
      exact ⟨absent, offset_ne_of_notMem (tabled_of_mem_leaves tabled nested inLeaves) absent⟩
    · intro stays
      rw [Forest.collapsed, if_neg (mt Forest.namesOperator_iff.1 stays)] at rest
      refine ⟨rest.keeps List.prefix_rfl ?_, rest, ?_⟩
      · rw [Bracket.placeholder, List.getLast?_append]
        rintro ch ⟨⟩
        cases kind <;> decide
      · intro square
        obtain ⟨opens, origin⟩ := recorded square
        have unnamed : Forest.namesOperator (a.rendered []) .square = false :=
          Bool.eq_false_iff.2 fun names => stays ⟨square, (Forest.namesOperator_iff.1 names).2⟩
        refine ⟨_, origin, lookup_of_mem ?_ (opens.mem_origins s.originAt unnamed)⟩
        exact pairwise_of_tabled (Forest.tabled_leaf s.originAt parent)
  · intro leaf inLeaves
    refine ⟨?_, ?_⟩
    · intro before after text
      obtain ⟨front, back, whole, same, stays⟩ :=
        exists_placeholder tabled hf inLeaves ⟨before, ']' :: after, text, rfl⟩
      obtain ⟨rfl, -⟩ := append_inj_of_byteLength (text.symm.trans whole) same
      exact stays
    · intro m hm
      obtain ⟨before, after, whole, start, -⟩ :=
        exists_placeholder tabled hf inLeaves (Leaf.standsAt_start hm)
      exact ⟨before, after, whole, start⟩

/-- In `operator new []` the group leaves nothing; the captures of a lambda leave their placeholder. -/
theorem operator_names_allocation :
    let s := ofText "operator new [](S n) \x7b f([n] \x7b\x7d); \x7d".toList
    s.Built ∧ WellNested s.text ∧ EndsInOperatorName "operator new ".toList ∧
      (∃ leaf ∈ s.flatten.leaves, "operator new".toList <+: leaf.text ∧
        ∀ other ∈ s.flatten.leaves, ∀ m ∈ other.lambdas, m.offset ≠ 13) ∧
      ∃ leaf ∈ s.flatten.leaves, ['[', ']'] <+: leaf.text ∧ leaf.originAt? 0 = some 25 := by
  intro s
  let head : Forest := .ofPlain "operator new ".toList (Bracket.plain_of_all (by decide)) .nil
  let call : Forest := .group .square (.char 'n' rfl .nil) (.char ' ' rfl (.group .brace .nil .nil))
  let body : Forest := .ofPlain " f".toList (Bracket.plain_of_all (by decide))
    (.group .paren call (.ofPlain "; ".toList (Bracket.plain_of_all (by decide)) .nil))
  let rest : Forest := .group .paren (.ofPlain "S n".toList (Bracket.plain_of_all (by decide)) .nil)
    (.char ' ' rfl (.group .brace body .nil))
  let tree : Forest := head ++ .group .square .nil rest
  have text : tree.text = s.text := by decide +kernel
  have built : s.Built := .text _
  have nested : WellNested s.text := wellNested_iff_exists_forest.2 ⟨tree, text⟩
  obtain ⟨f, -, unique, groups, -⟩ := operator_names built nested
  obtain rfl := unique tree text
  refine ⟨built, nested, by decide +kernel, ?_, ?_⟩
  · obtain ⟨leaf, inLeaves, -, before, renders, dropped, -⟩ :=
      groups ⟨.brace, 0, tree⟩ (List.mem_append_right _ List.mem_cons_self) head .square .nil rest rfl
    obtain rfl := renders.eq_rendered
    obtain ⟨start, -, origin, recorded, absent⟩ := dropped (by decide +kernel)
    obtain rfl : 13 = origin := by
      have here : s.originOf? 13 = some 13 := by decide +kernel
      exact Option.some.inj (here.symm.trans recorded)
    exact ⟨leaf, inLeaves, start, fun other member => (absent other member).2⟩
  · obtain ⟨leaf, inLeaves, -, before, renders, -, kept⟩ :=
      groups ⟨.paren, 25, call⟩ (List.mem_of_getElem? (i := 4) rfl) .nil .square (.char 'n' rfl .nil)
        (.char ' ' rfl (.group .brace .nil .nil)) rfl
    obtain rfl := renders.eq_rendered
    obtain ⟨start, -, entry⟩ := kept (by decide +kernel)
    obtain ⟨origin, recorded, found⟩ := entry rfl
    obtain rfl : 25 = origin := by
      have here : s.originOf? 25 = some 25 := by decide +kernel
      exact Option.some.inj (here.symm.trans recorded)
    exact ⟨leaf, inLeaves, start, found⟩

end LambdaTally
