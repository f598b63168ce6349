import LambdaTally.Proofs.Grammar.Phrase

/-!
# LambdaTally.Proofs.Grammar.Retelling

Phrases of the same shape. `t.Retold u` says that the token `u` may stand where `t` does: another
template list for a template list, another type for a type, and the same token otherwise. A phrase of
which each token is retold is a phrase of the same rule (`retells_lambda`).

Whether a text makes a template list is seen from its angle brackets and semicolons alone
(`templateText_of_marks`), which `angled` reads one by one.
-/

namespace LambdaTally

open scoped Computability

namespace Phrase

/-! ## Template lists -/

/-- A character that the text of a template list may not hold just anywhere. -/
def isMark (ch : Char) : Bool := ['<', '>', ';'].contains ch

/-- What may stand between the angle brackets of a template list, `inside` an inner pair or not. -/
def angled (inside : Bool) : List Char → Bool
  | [] => !inside
  | ch :: text =>
    if ch = '<' then !inside && angled true text
    else if ch = '>' then inside && angled false text
    else ch ≠ ';' && angled inside text

theorem ne_of_isMark_eq_false {ch : Char} (h : isMark ch = false) :
    ch ≠ '<' ∧ ch ≠ '>' ∧ ch ≠ ';' := by
  simpa [isMark] using h

theorem angled_cons {ch : Char} (h : isMark ch = false) (inside : Bool) (text : List Char) :
    angled inside (ch :: text) = angled inside text := by
  obtain ⟨opening, closing, semicolon⟩ := ne_of_isMark_eq_false h
  simp [angled, opening, closing, semicolon]

theorem angled_filter (inside : Bool) (text : List Char) :
    angled inside (text.filter isMark) = angled inside text := by
  induction text generalizing inside with
  | nil => rfl
  | cons ch text ih =>
    by_cases mark : isMark ch = true
    · rw [List.filter_cons_of_pos mark, angled, angled, ih, ih, ih]
    · rw [List.filter_cons_of_neg mark, angled_cons (by simpa using mark), ih]

theorem angled_plain {text : List Char} (h : text ∈ (noneOf ['<', '>', ';'])∗) (inside : Bool)
    (rest : List Char) : angled inside (text ++ rest) = angled inside rest := by
  have plain := mem_kstar_noneOf.1 h
  induction text with
  | nil => rfl
  | cons ch text ih =>
    obtain ⟨here, later⟩ := List.forall_mem_cons.1 plain
    rw [List.cons_append, angled_cons (by simpa [isMark] using here)]
    exact ih (mem_kstar_noneOf.2 later) later

/-- One character, or a text in angle brackets. -/
def templateItem : Language Char :=
  noneOf ['<', '>', ';'] + exactly ['<'] * (noneOf ['<', '>', ';'])∗ * exactly ['>']

theorem angled_item {item : List Char} (h : item ∈ templateItem) (rest : List Char) :
    angled false (item ++ rest) = angled false rest := by
  rcases h with ⟨ch, plain, rfl⟩ | ⟨_, ⟨_, rfl, inner, hinner, rfl⟩, _, rfl, rfl⟩
  · exact angled_cons (by simpa [isMark] using plain) false rest
  · calc angled false ((['<'] ++ inner ++ ['>']) ++ rest)
        = angled false ('<' :: (inner ++ '>' :: rest)) := by simp
      _ = angled true (inner ++ '>' :: rest) := rfl
      _ = angled true ('>' :: rest) := angled_plain hinner true _
      _ = angled false rest := rfl

theorem cons_mem_items {item rest : List Char} (h : item ∈ templateItem)
    (hr : rest ∈ templateItem∗) : item ++ rest ∈ templateItem∗ := by
  obtain ⟨items, rfl, each⟩ := hr
  exact ⟨item :: items, rfl, List.forall_mem_cons.2 ⟨h, each⟩⟩

/-- By induction on the text, in and outside an inner pair of angle brackets side by side. -/
theorem items_of_angled (text : List Char) :
    (angled false text = true → text ∈ templateItem∗) ∧
      (angled true text = true → ∃ inner rest, text = inner ++ '>' :: rest ∧
        inner ∈ (noneOf ['<', '>', ';'])∗ ∧ rest ∈ templateItem∗) := by
  induction text with
  | nil => exact ⟨fun _ => Language.nil_mem_kstar _, by simp [angled]⟩
  | cons ch text ih =>
    by_cases opening : ch = '<'
    · subst opening
      refine ⟨?_, by simp [angled]⟩
      intro h
      obtain ⟨inner, rest, rfl, plain, hrest⟩ := ih.2 h
      have item : '<' :: (inner ++ ['>']) ∈ templateItem :=
        .inr ⟨_, ⟨['<'], rfl, inner, plain, rfl⟩, ['>'], rfl, by simp⟩
      simpa using cons_mem_items item hrest
    by_cases closing : ch = '>'
    · subst closing
      refine ⟨by simp [angled], ?_⟩
      intro h
      exact ⟨[], text, rfl, Language.nil_mem_kstar _, ih.1 h⟩
    by_cases semicolon : ch = ';'
    · subst semicolon
      exact ⟨by simp [angled], by simp [angled]⟩
    have plain : ch ∉ ['<', '>', ';'] := by simp [opening, closing, semicolon]
    rw [angled_cons (by simpa [isMark] using plain), angled_cons (by simpa [isMark] using plain)]
    constructor
    · intro h
      exact cons_mem_items (.inl ⟨ch, plain, rfl⟩) (ih.1 h)
    · intro h
      obtain ⟨inner, rest, rfl, hinner, hrest⟩ := ih.2 h
      refine ⟨ch :: inner, rest, rfl, mem_kstar_noneOf.2 ?_, hrest⟩
      exact List.forall_mem_cons.2 ⟨plain, mem_kstar_noneOf.1 hinner⟩

theorem templateText_iff {text : List Char} :
    '<' :: text ++ ['>'] ∈ templateText ↔ angled false text = true := by
  constructor
  · rintro ⟨_, ⟨_, rfl, _, ⟨items, rfl, each⟩, rfl⟩, _, rfl, whole⟩
    obtain rfl : items.flatten = text := by simpa using whole
    clear whole
    induction items with
    | nil => rfl
    | cons item items ih =>
      obtain ⟨here, later⟩ := List.forall_mem_cons.1 each
      rw [List.flatten_cons, angled_item here]
      exact ih later
  · intro h
    exact ⟨_, ⟨['<'], rfl, text, (items_of_angled text).1 h, rfl⟩, ['>'], rfl, rfl⟩

/-- Only the angle brackets and semicolons of a template list matter. -/
theorem templateText_of_marks {a b : List Char} (h : '<' :: a ++ ['>'] ∈ templateText)
    (same : b.filter isMark = a.filter isMark) : '<' :: b ++ ['>'] ∈ templateText := by
  rw [templateText_iff] at *
  rw [← angled_filter, same, angled_filter]
  exact h

end Phrase

/-! ## Tokens told in another way -/

/-- The second token may stand where the first does. No brace is in a type told anew. -/
def Token.Retold : Token → Token → Prop
  | .templates _, u => ∃ text ∈ Phrase.templateText, u = .templates text
  | .type _, u => ∃ text, ';' ∉ text ∧ '\x7b' ∉ text ∧ u = .type text
  | t, u => u = t

theorem Token.Retold.isKeyword_eq {t u : Token} (h : t.Retold u) : u.isKeyword = t.isKeyword := by
  cases t with
  | templates => obtain ⟨_, -, rfl⟩ := h; rfl
  | type => obtain ⟨_, -, -, rfl⟩ := h; rfl
  | group => cases h; rfl
  | keyword => cases h; rfl
  | arrow => cases h; rfl

theorem head_of_retold {ts us : List Token} (h : List.Forall₂ Token.Retold ts us) :
    us.head?.any Token.isKeyword = ts.head?.any Token.isKeyword := by
  cases h with
  | nil => rfl
  | cons hu _ => exact hu.isKeyword_eq

/-- A type told anew holds no brace. -/
theorem not_mem_of_retold {ts us : List Token} (h : List.Forall₂ Token.Retold ts us) {type : List Char}
    (hmem : .type type ∈ us) : '\x7b' ∉ type := by
  induction h with
  | nil => cases hmem
  | @cons t u _ _ hu _ ih =>
    rcases List.mem_cons.1 hmem with rfl | later
    · cases t with
      | type =>
        obtain ⟨_, -, no_brace, same⟩ := hu
        cases same
        exact no_brace
      | templates => obtain ⟨_, -, same⟩ := hu; cases same
      | group => cases hu
      | keyword => cases hu
      | arrow => cases hu
    · exact ih later

namespace Phrase

/-- A language holds a phrase told in another way whenever it holds the phrase. -/
def Retells (l : Language Token) : Prop :=
  ∀ ⦃ts us : List Token⦄, List.Forall₂ Token.Retold ts us → ts ∈ l → us ∈ l

section Retells

variable {a b : Language Token}

theorem retells_token {t : Token} (h : ∀ u, t.Retold u → u = t) : Retells (token t) := by
  rintro _ us retold rfl
  cases retold with
  | cons hu rest =>
    cases rest
    rw [h _ hu]
    rfl

theorem retells_one : Retells 1 := by
  rintro _ us retold rfl
  cases retold
  rfl

theorem retells_add (ha : Retells a) (hb : Retells b) : Retells (a + b) := by
  rintro ts us retold (h | h)
  · exact .inl (ha retold h)
  · exact .inr (hb retold h)

theorem retold_append {x y us : List Token} (h : List.Forall₂ Token.Retold (x ++ y) us) :
    ∃ v w, us = v ++ w ∧ List.Forall₂ Token.Retold x v ∧ List.Forall₂ Token.Retold y w := by
  induction x generalizing us with
  | nil => exact ⟨[], us, rfl, .nil, h⟩
  | cons t x ih =>
    cases h with
    | @cons _ u _ us hu rest =>
      obtain ⟨v, w, rfl, hv, hw⟩ := ih rest
      exact ⟨u :: v, w, rfl, .cons hu hv, hw⟩

theorem retells_mul (ha : Retells a) (hb : Retells b) : Retells (a * b) := by
  rintro _ us retold ⟨x, hx, y, hy, rfl⟩
  obtain ⟨v, w, rfl, hv, hw⟩ := retold_append retold
  exact ⟨v, ha hv hx, w, hb hw hy, rfl⟩

theorem retells_maybe (ha : Retells a) : Retells (maybe a) := retells_add ha retells_one

theorem retells_kstar (ha : Retells a) : Retells a∗ := by
  rintro _ us retold ⟨phrases, rfl, each⟩
  induction phrases generalizing us with
  | nil =>
    cases retold
    exact Language.nil_mem_kstar a
  | cons x phrases ih =>
    obtain ⟨hx, later⟩ := List.forall_mem_cons.1 each
    obtain ⟨v, w, rfl, hv, hw⟩ := retold_append (x := x) retold
    obtain ⟨more, rfl, each'⟩ := ih later hw
    exact ⟨v :: more, rfl, List.forall_mem_cons.2 ⟨ha hv hx, each'⟩⟩

end Retells

theorem retells_templateList : Retells templateList := by
  rintro _ us retold ⟨text, -, rfl⟩
  cases retold with
  | cons hu rest =>
    cases rest
    obtain ⟨text', h, rfl⟩ := hu
    exact ⟨text', h, rfl⟩

theorem retells_typeName : Retells (oneOf .type (noneOf [';'])∗) := by
  rintro _ us retold ⟨text, -, rfl⟩
  cases retold with
  | cons hu rest =>
    cases rest
    obtain ⟨text', plain, -, rfl⟩ := hu
    refine ⟨text', mem_kstar_noneOf.2 ?_, rfl⟩
    intro ch hch semicolon
    rw [List.mem_singleton.1 semicolon] at hch
    exact plain hch

theorem retells_group (kind : Bracket) : Retells (token (.group kind)) :=
  retells_token fun _ => id

theorem retells_keyword (word : String) : Retells (token (.keyword word)) :=
  retells_token fun _ => id

theorem retells_tail : Retells tail := by
  have exception : Retells exceptionSpecifier :=
    retells_add (retells_mul (retells_keyword _) (retells_maybe (retells_group _)))
      (retells_mul (retells_keyword _) (retells_group _))
  have attributes : Retells attributeSpecifier :=
    retells_add (retells_group _) (retells_mul (retells_keyword _) (retells_group _))
  have trailing : Retells trailingReturn :=
    retells_mul (retells_token fun _ => id) retells_typeName
  exact retells_mul (retells_mul (retells_maybe exception) (retells_kstar attributes))
    (retells_maybe trailing)

theorem retells_declarator : Retells declarator := by
  have specifier : Retells specifier := retells_add (retells_keyword _) (retells_keyword _)
  have specifiers : Retells specifiers := retells_mul specifier (retells_maybe specifier)
  exact retells_add (retells_mul (retells_mul (retells_group _) (retells_maybe specifiers))
    retells_tail) retells_tail

/-- A lambda expression told in another way is a lambda expression. -/
theorem retells_lambda : Retells lambda :=
  retells_mul (retells_mul (retells_mul (retells_group _) (retells_maybe retells_templateList))
    (retells_maybe retells_declarator)) (retells_group _)

end Phrase
end LambdaTally
