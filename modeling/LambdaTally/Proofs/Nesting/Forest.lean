import LambdaTally.Bracket
import LambdaTally.Text.Utf8

/-!
# LambdaTally.Proofs.Nesting.Forest

Texts whose brackets pair up, and the tree of their groups.

`Dyck` is the grammar of words of brackets that pair up; a text is `WellNested` if its brackets,
everything else left out, are such a word. A `Forest` is the content of a group: characters and
whole groups, from left to right. The well-nested texts are exactly the texts of forests
(`wellNested_iff_exists_forest`), and a text is the text of at most one (`Forest.text_injective`).
-/

namespace LambdaTally

/-- A character that opens or closes a group. -/
def Bracket.isBracket (ch : Char) : Bool :=
  (Bracket.ofOpening? ch).isSome || (Bracket.ofClosing? ch).isSome

namespace Bracket

@[simp] theorem isBracket_opening (b : Bracket) : isBracket b.opening = true := by
  simp [isBracket]

@[simp] theorem isBracket_closing (b : Bracket) : isBracket b.closing = true := by
  simp [isBracket]

theorem ofOpening?_eq_none {ch : Char} (h : isBracket ch = false) : ofOpening? ch = none := by
  simp only [isBracket, Bool.or_eq_false_iff, Option.isSome_eq_false_iff,
    Option.isNone_iff_eq_none] at h
  exact h.1

theorem ofClosing?_eq_none {ch : Char} (h : isBracket ch = false) : ofClosing? ch = none := by
  simp only [isBracket, Bool.or_eq_false_iff, Option.isSome_eq_false_iff,
    Option.isNone_iff_eq_none] at h
  exact h.2

theorem isBracket_eq_false {ch : Char} (ho : ofOpening? ch = none) (hc : ofClosing? ch = none) :
    isBracket ch = false := by
  simp [isBracket, ho, hc]

theorem plain_of_all {text : List Char} (h : text.all (!isBracket ·) = true) :
    ∀ ch ∈ text, isBracket ch = false := by
  simpa using h

@[simp] theorem utf8Size_opening (b : Bracket) : b.opening.utf8Size = 1 := by
  cases b <;> rfl

@[simp] theorem utf8Size_closing (b : Bracket) : b.closing.utf8Size = 1 := by
  cases b <;> rfl

theorem opening_injective {a b : Bracket} (h : a.opening = b.opening) : a = b := by
  have := congrArg ofOpening? h
  simpa using this

theorem opening_ne_closing (a b : Bracket) : a.opening ≠ b.closing := by
  intro h
  have := congrArg ofOpening? h
  simp at this

theorem byteLength_group (kind : Bracket) (inside rest : List Char) :
    Utf8.byteLength (kind.opening :: inside ++ kind.closing :: rest) =
      1 + Utf8.byteLength inside + 1 + Utf8.byteLength rest := by
  simp only [List.cons_append, Utf8.byteLength_cons, Utf8.byteLength_append, utf8Size_opening,
    utf8Size_closing]
  omega

end Bracket

/-- The words of brackets that pair up. -/
inductive Dyck : List Char → Prop where
  | nil : Dyck []
  | group (kind : Bracket) {inside rest : List Char} :
      Dyck inside → Dyck rest → Dyck (kind.opening :: inside ++ kind.closing :: rest)

/-- The brackets of a text pair up. -/
def WellNested (text : List Char) : Prop := Dyck (text.filter Bracket.isBracket)

theorem Dyck.append {a b : List Char} (ha : Dyck a) (hb : Dyck b) : Dyck (a ++ b) := by
  induction ha with
  | nil => exact hb
  | group kind hi _ _ ih =>
    have := Dyck.group kind hi ih
    simpa using this

namespace WellNested

theorem nil : WellNested [] := Dyck.nil

theorem append {a b : List Char} (ha : WellNested a) (hb : WellNested b) :
    WellNested (a ++ b) := by
  unfold WellNested at *
  rw [List.filter_append]
  exact ha.append hb

theorem char {ch : Char} (plain : Bracket.isBracket ch = false) {rest : List Char}
    (h : WellNested rest) : WellNested (ch :: rest) := by
  unfold WellNested at *
  rwa [List.filter_cons_of_neg (by simp [plain])]

theorem group (kind : Bracket) {inside rest : List Char} (hi : WellNested inside)
    (hr : WellNested rest) : WellNested (kind.opening :: inside ++ kind.closing :: rest) := by
  unfold WellNested at *
  simpa using Dyck.group kind hi hr

end WellNested

/-- The content of a group: its characters and the groups directly inside it, from left to
right. -/
inductive Forest where
  | nil
  | char (ch : Char) (plain : Bracket.isBracket ch = false) (rest : Forest)
  | group (kind : Bracket) (inside rest : Forest)
  deriving DecidableEq

namespace Forest

/-- The text of a content, every group written out. -/
def text : Forest → List Char
  | nil => []
  | char ch _ rest => ch :: rest.text
  | group kind inside rest => kind.opening :: inside.text ++ kind.closing :: rest.text

/-- A group stands directly inside. -/
def hasGroup : Forest → Bool
  | nil => false
  | char _ _ rest => rest.hasGroup
  | group _ _ _ => true

/-- Characters that are no brackets, and then a content. -/
def ofPlain : (before : List Char) → (∀ ch ∈ before, Bracket.isBracket ch = false) → Forest → Forest
  | [], _, f => f
  | ch :: before, h, f =>
    .char ch (h ch List.mem_cons_self)
      (ofPlain before (fun c hc => h c (List.mem_cons_of_mem _ hc)) f)

theorem text_ofPlain (before : List Char) (h : ∀ ch ∈ before, Bracket.isBracket ch = false)
    (f : Forest) : (ofPlain before h f).text = before ++ f.text := by
  induction before with
  | nil => rfl
  | cons ch before ih => simp [ofPlain, text, ih]

theorem wellNested_text (f : Forest) : WellNested f.text := by
  induction f with
  | nil => exact .nil
  | char ch plain rest ih => exact .char plain ih
  | group kind inside rest ihi ihr => exact .group kind ihi ihr

/-- A text that can follow a content: nothing, or a bracket that closes. -/
def Ends : List Char → Prop
  | [] => True
  | ch :: _ => ∃ kind : Bracket, ch = kind.closing

theorem ends_closing (kind : Bracket) (rest : List Char) : Ends (kind.closing :: rest) := ⟨kind, rfl⟩

theorem text_append_injective {f g : Forest} {t u : List Char} (ht : Ends t) (hu : Ends u)
    (h : f.text ++ t = g.text ++ u) : f = g ∧ t = u := by
  have absurd_char : ∀ {ch rest v}, Bracket.isBracket ch = false → Ends v → v ≠ ch :: rest := by
    rintro ch rest v plain hv rfl
    obtain ⟨kind, rfl⟩ := hv
    simp at plain
  have absurd_group : ∀ {kind : Bracket} {rest v}, Ends v → v ≠ kind.opening :: rest := by
    rintro kind rest v hv rfl
    obtain ⟨kind', e⟩ := hv
    exact Bracket.opening_ne_closing _ _ e
  induction f generalizing g t u with
  | nil =>
    cases g with
    | nil => exact ⟨rfl, h⟩
    | char ch plain rest => exact absurd h (absurd_char plain ht)
    | group kind inside rest => exact absurd h (absurd_group ht)
  | char ch plain rest ih =>
    cases g with
    | nil => exact absurd h.symm (absurd_char plain hu)
    | char ch' plain' rest' =>
      simp only [text, List.cons_append, List.cons.injEq] at h
      obtain ⟨rfl, h⟩ := h
      obtain ⟨rfl, rfl⟩ := ih ht hu h
      exact ⟨rfl, rfl⟩
    | group kind inside rest' =>
      simp only [text, List.cons_append, List.cons.injEq] at h
      simp [h.1] at plain
  | group kind inside rest ihi ihr =>
    cases g with
    | nil => exact absurd h.symm (absurd_group hu)
    | char ch' plain' rest' =>
      simp only [text, List.cons_append, List.cons.injEq] at h
      simp [← h.1] at plain'
    | group kind' inside' rest' =>
      simp only [text, List.cons_append, List.cons.injEq, List.append_assoc] at h
      obtain ⟨hk, hinside⟩ := h
      obtain rfl := Bracket.opening_injective hk
      obtain ⟨rfl, hclose⟩ := ihi (ends_closing kind _) (ends_closing kind _) hinside
      obtain ⟨rfl, rfl⟩ := ihr ht hu (List.cons.inj hclose).2
      exact ⟨rfl, rfl⟩

/-- A text is the text of at most one content. -/
theorem text_injective {f g : Forest} (h : f.text = g.text) : f = g :=
  (text_append_injective (t := []) (u := []) trivial trivial (by simpa using h)).1

/-- By induction on the word of brackets; the characters between two brackets go to the content
that they stand in. -/
theorem exists_of_dyck {word : List Char} (hw : Dyck word) :
    ∀ text : List Char, text.filter Bracket.isBracket = word → ∃ f : Forest, f.text = text := by
  induction hw with
  | nil =>
    intro text h
    have plain : ∀ ch ∈ text, Bracket.isBracket ch = false := by
      intro ch hch
      simpa using List.filter_eq_nil_iff.1 h ch hch
    exact ⟨ofPlain text plain .nil, by simp [text_ofPlain, Forest.text]⟩
  | @group kind inside rest _ _ ihi ihr =>
    intro text h
    obtain ⟨before, tail, rfl, hbefore, -, htail⟩ := List.filter_eq_cons_iff.1 h
    obtain ⟨content, tail', rfl, hcontent, htail'⟩ := List.filter_eq_append_iff.1 htail
    obtain ⟨between, after, rfl, hbetween, -, hafter⟩ := List.filter_eq_cons_iff.1 htail'
    have plain : ∀ ch ∈ before, Bracket.isBracket ch = false := by
      intro ch hch
      simpa using hbefore ch hch
    have none_between : between.filter Bracket.isBracket = [] := List.filter_eq_nil_iff.2 hbetween
    obtain ⟨f, hf⟩ := ihi (content ++ between) (by
      rw [List.filter_append, hcontent, none_between, List.append_nil])
    obtain ⟨g, hg⟩ := ihr after hafter
    refine ⟨ofPlain before plain (.group kind f g), ?_⟩
    rw [text_ofPlain, Forest.text, hf, hg]
    simp

end Forest

theorem wellNested_iff_exists_forest {text : List Char} :
    WellNested text ↔ ∃ f : Forest, f.text = text := by
  constructor
  · intro h
    exact Forest.exists_of_dyck h text rfl
  · rintro ⟨f, rfl⟩
    exact f.wellNested_text

end LambdaTally
