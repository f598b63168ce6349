import LambdaTally.Proofs.Grammar.Ending
import LambdaTally.Proofs.Grammar.Retelling
import LambdaTally.Proofs.Nesting.Outline
import LambdaTally.Proofs.Tally

/-!
# LambdaTally.Proofs.Expressions

A lambda expression written out, with any content in its groups, counts for itself once; all others
are inside its groups. `f.Writes ts` says that the content `f` writes the tokens `ts`, each group
with a content of its own and two neighbours at most one blank apart. What is rendered of `f` spells
the phrase again, told in another way where a `[]` in a template list or a type is part of the name
of an operator (`exists_told`), and such a text is a single match.
-/

namespace LambdaTally

open CharClass

/-- By going through the blanks. -/
theorem CharClass.isWordChar_of_isBlank {ch : Char} (h : isBlank ch = true) :
    isWordChar ch = false := by
  have listed : ch.toNat ∈ List.range' 9 5 ++ [0x20, 0x85, 0xA0, 0x1680] ++ List.range' 0x2000 11 ++
      [0x2028, 0x2029, 0x202F, 0x205F, 0x3000] := by
    simp only [isBlank, Bool.or_eq_true, Bool.and_eq_true, decide_eq_true_eq, beq_iff_eq] at h
    simp only [List.mem_append, List.mem_range'_1, List.mem_cons, List.not_mem_nil, or_false]
    omega
  have none_in : ∀ n ∈ List.range' 9 5 ++ [0x20, 0x85, 0xA0, 0x1680] ++ List.range' 0x2000 11 ++
      [0x2028, 0x2029, 0x202F, 0x205F, 0x3000], isWordChar (Char.ofNat n) = false := by
    decide +kernel
  rw [← Char.ofNat_toNat ch]
  exact none_in _ listed

theorem Bracket.plain_of_isBlank {ch : Char} (h : isBlank ch = true) : isBracket ch = false := by
  rcases Bracket.sorts ch with ⟨kind, rfl⟩ | ⟨kind, rfl⟩ | plain
  · cases kind <;> revert h <;> decide
  · cases kind <;> revert h <;> decide
  · exact plain

/-! ## Writing -/

namespace Forest

/-- At most one blank. -/
inductive Gap : Forest → Prop where
  | none : Gap nil
  | blank {ch : Char} (h : isBlank ch = true) : Gap (char ch (Bracket.plain_of_isBlank h) nil)

end Forest

/-- The content writes the token. A group has any content, and so have the groups in a template list
and in a type; no group of braces is in a type. -/
inductive Token.Written : Token → Forest → Prop where
  | group (kind : Bracket) (inside : Forest) : Written (.group kind) (.group kind inside .nil)
  | keyword (word : String) (plain : ∀ ch ∈ word.toList, Bracket.isBracket ch = false) :
      Written (.keyword word) (.ofPlain word.toList plain .nil)
  | templates (inside : Forest) :
      Written (.templates ('<' :: inside.outline ++ ['>']))
        (.char '<' rfl (inside ++ .char '>' rfl .nil))
  | arrow : Written .arrow (.char '-' rfl (.char '>' rfl .nil))
  | type (text : Forest) : '\x7b' ∉ text.outline → Written (.type text.outline) text

/-- The content writes the tokens one after the other, two of them at most one blank apart, and two
keywords one blank. -/
inductive Forest.Writes : Forest → List Token → Prop where
  | last {t : Token} {f : Forest} : t.Written f → Writes f [t]
  | cons {t u : Token} {ts : List Token} {f gap g : Forest} : t.Written f → gap.Gap →
      (t.isKeyword = true → u.isKeyword = true → gap ≠ .nil) → Writes g (u :: ts) →
      Writes (f ++ (gap ++ g)) (t :: u :: ts)

/-! ## The text of a phrase -/

namespace Token

variable {t : Token}

theorem Solid.exists_plain_head (h : t.Solid) (other : t.isKeyword = false) :
    ∃ ch rest, t.text = ch :: rest ∧ isWordChar ch = false := by
  cases h with
  | square => exact ⟨'[', _, rfl, by decide⟩
  | paren => exact ⟨'(', _, rfl, by decide⟩
  | keyword => cases other
  | templates h =>
    obtain ⟨inner, rfl, -⟩ := Phrase.afterAngles_templateText h
    exact ⟨'<', inner, rfl, by decide⟩

/-- A solid token other than a keyword ends in a character that cuts. -/
theorem Solid.exists_plain_last (h : t.Solid) (other : t.isKeyword = false) :
    ∃ front ch, t.text = front ++ [ch] ∧ Cuts ch ∧ isWordChar ch = false := by
  cases h with
  | square => exact ⟨['['], ']', rfl, by decide, by decide⟩
  | paren => exact ⟨['('], ')', rfl, by decide, by decide⟩
  | keyword => cases other
  | templates h =>
    obtain ⟨front, -, _, rfl, rfl⟩ := h
    exact ⟨front, '>', rfl, by decide, by decide⟩

theorem exists_ends_of_mem_keywords {word : String} (h : word ∈ Phrase.keywords) :
    ∃ first last, word.toList.head? = some first ∧ word.toList.getLast? = some last ∧
      isWordChar first = true ∧ isWordChar last = true := by
  simp only [Phrase.keywords, List.mem_cons, List.not_mem_nil, or_false] at h
  rcases h with rfl | rfl | rfl | rfl | rfl <;> exact ⟨_, _, rfl, rfl, by decide, by decide⟩

theorem isBracket_of_mem_keywords {word : String} (h : word ∈ Phrase.keywords) :
    ∀ ch ∈ word.toList, Bracket.isBracket ch = false := by
  have letters : (Phrase.keywords.all fun w => w.toList.all fun c => !Bracket.isBracket c) = true :=
    by decide
  intro ch hch
  simpa using List.all_eq_true.1 (List.all_eq_true.1 letters word h) ch hch

end Token

/-- Behind `before`, the text spells the tokens, up to its end. A text that does not start with a
keyword does not start with a character of a word. -/
structure Shown (before : List Char) (ts : List Token) (text : List Char) : Prop where
  spells : ∀ p : Place, p.previous = before.getLast? → p.rest = text →
    ∃ q, p.Spells ts q ∧ q.rest = []
  head : ts.head?.any Token.isKeyword = false → text.head?.any isWordChar = false

/-- The text of a gap between two tokens. -/
def Spacing (gap : List Char) : Prop := gap = [] ∨ ∃ ch, isBlank ch = true ∧ gap = [ch]

theorem Spacing.blank {gap : List Char} (h : Spacing gap) : ∀ ch ∈ gap, isBlank ch = true := by
  rcases h with rfl | ⟨ch, blank, rfl⟩
  · simp
  · simpa using blank

theorem Spacing.not_mem {gap : List Char} (h : Spacing gap) {ch : Char}
    (plain : isBlank ch = false) : ch ∉ gap := by
  intro hmem
  rw [h.blank ch hmem] at plain
  cases plain

theorem Spacing.gap {gap : List Char} (h : Spacing gap) {p q : Place} (hs : p.Spans gap q) :
    p.Gap q := by
  rcases h with rfl | ⟨ch, blank, rfl⟩
  · cases hs
    exact .none
  · cases hs with
    | cons hn rest =>
      cases rest
      exact .blank blank hn

section Shown

variable {t : Token} {ts : List Token} {before gap text : List Char}

/-- A solid token in front, with a gap behind it. -/
theorem Shown.cons (solid : t.Solid) (h : Shown (before ++ t.text ++ gap) ts text) (nonempty : ts ≠ [])
    (apart : t.isKeyword = true → before.getLast?.any isWordChar = false) (spacing : Spacing gap)
    (parted : t.isKeyword = true → ts.head?.any Token.isKeyword = true → gap ≠ []) :
    Shown before (t :: ts) (t.text ++ gap ++ text) := by
  constructor
  · intro p previous rest
    rw [List.append_assoc] at rest
    obtain ⟨q, hq, rest_q⟩ := Place.spans_of_rest rest
    obtain ⟨r, hr, rest_r⟩ := Place.spans_of_rest rest_q
    have previous_r : r.previous = (before ++ t.text ++ gap).getLast? := by
      rw [hr.previous_eq, hq.previous_eq, previous, List.getLast?_append, List.getLast?_append]
    obtain ⟨s, spelled, at_end⟩ := h.spells r previous_r rest_r
    refine ⟨s, Place.spells_cons_iff.2 ⟨q, ⟨hq, ?_⟩, .inr ⟨nonempty, r, spacing.gap hr, spelled⟩⟩, at_end⟩
    intro keyword
    cases solid with
    | @keyword word hw =>
      obtain ⟨first, last, hfirst, hlast, word_first, word_last⟩ :=
        Token.exists_ends_of_mem_keywords hw
      have behind : (gap ++ text).head?.any isWordChar = false := by
        rcases spacing with rfl | ⟨ch, blank, rfl⟩
        · exact h.head (Bool.eq_false_iff.2 fun next => parted keyword next rfl)
        · simpa using isWordChar_of_isBlank blank
      constructor
      · rw [Place.atBoundary, previous, apart keyword, rest]
        simp [Token.text, hfirst, word_first]
      · rw [Place.atBoundary, rest_q, behind, hq.previous_eq]
        simp [Token.text, hlast, word_last]
    | square => cases keyword
    | paren => cases keyword
    | templates => cases keyword
  · intro other
    obtain ⟨ch, more, hch, plain⟩ := solid.exists_plain_head (by simpa using other)
    simp [hch, plain]

end Shown

/-! ## What is rendered of a phrase -/

namespace Forest

variable {f gap : Forest} {t : Token} {ts : List Token} {before : List Char}

theorem Gap.spacing (h : gap.Gap) : Spacing gap.text := by
  cases h with
  | none => exact .inl rfl
  | blank h => exact .inr ⟨_, h, rfl⟩

theorem Gap.rendered_eq (h : gap.Gap) (before : List Char) :
    gap.rendered before = before ++ gap.text := by
  cases h with
  | none => exact (List.append_nil before).symm
  | blank => rfl

theorem Gap.text_ne_nil (h : gap.Gap) (nonempty : gap ≠ nil) : gap.text ≠ [] := by
  cases h with
  | none => exact absurd rfl nonempty
  | blank => simp [text]

theorem Writes.uncons (h : f.Writes (t :: ts)) (nonempty : ts ≠ []) :
    ∃ first gap rest : Forest, f = first ++ (gap ++ rest) ∧ t.Written first ∧ gap.Gap ∧
      (t.isKeyword = true → ts.head?.any Token.isKeyword = true → gap.text ≠ []) ∧
      rest.Writes ts := by
  cases h with
  | last => exact absurd rfl nonempty
  | @cons _ u _ first gap rest ht hg parted hr =>
    exact ⟨first, gap, rest, rfl, ht, hg, fun ht hu => hg.text_ne_nil (parted ht hu), hr⟩

end Forest

theorem isMark_of_isBlank {ch : Char} (blank : isBlank ch = true) : Phrase.isMark ch = false := by
  have plain : ['<', '>', ';'].all (fun c => !isBlank c) = true := by decide
  rw [Bool.eq_false_iff]
  intro mark
  have none_here := List.all_eq_true.1 plain ch (by simpa [Phrase.isMark] using mark)
  rw [blank] at none_here
  cases none_here

section Told

variable {f : Forest} {t : Token} {before : List Char}

/-- A token of a stem stays as it is, but for the names of operators in a template list. -/
theorem Token.Written.rendered_solid (h : t.Written f) (solid : t.Solid) (kept : Kept before) :
    ∃ u, t.Retold u ∧ u.Solid ∧ u.isKeyword = t.isKeyword ∧
      f.rendered before = before ++ u.text := by
  cases h with
  | group kind inside =>
    exact ⟨.group kind, rfl, solid, rfl, collapsed_of_kept kept kind⟩
  | keyword word plain =>
    exact ⟨.keyword word, rfl, solid, rfl, Forest.rendered_ofPlain word.toList plain .nil before⟩
  | templates inside =>
    have list : '<' :: inside.outline ++ ['>'] ∈ Phrase.templateText := by
      cases solid with
      | templates h => exact h
    have marks : (inside.rendered []).filter Phrase.isMark = inside.outline.filter Phrase.isMark :=
      Forest.filter_rendered (fun _ => isMark_of_isBlank) (by decide) inside []
    have told := Phrase.templateText_of_marks list marks
    have cut : inside.rendered (before ++ ['<']) = before ++ '<' :: inside.rendered [] :=
      Forest.rendered_cut (by decide) inside before []
    refine ⟨.templates ('<' :: inside.rendered [] ++ ['>']), ⟨_, told, rfl⟩, .templates told, rfl, ?_⟩
    simp only [Forest.rendered, Forest.rendered_append, cut]
    simp [Token.text]
  | arrow => cases solid
  | type => cases solid

/-- Behind a solid token and a gap, a square group leaves its placeholder. -/
theorem Token.Solid.kept (h : t.Solid) {gap : List Char} (spacing : Spacing gap) :
    Kept (before ++ t.text ++ gap) := by
  by_cases keyword : t.isKeyword = true
  · cases h with
    | keyword hw => exact kept_keyword hw spacing.blank before
    | square => cases keyword
    | paren => cases keyword
    | templates => cases keyword
  · obtain ⟨front, ch, whole, cuts, -⟩ := h.exists_plain_last (by simpa using keyword)
    have behind := kept_cut cuts spacing.blank (before ++ front)
    simpa [whole] using behind

/-- What ends a phrase without an arrow. -/
theorem told_body (before : List Char) (written : f.Writes [.group .brace]) :
    ∃ us text, List.Forall₂ Token.Retold [.group .brace] us ∧ f.rendered before = before ++ text ∧
      Shown before us text := by
  cases written with
  | last h =>
    cases h with
    | group kind inside =>
      refine ⟨[.group .brace], Bracket.brace.placeholder, .cons rfl .nil, rfl, ?_, fun _ => by decide⟩
      intro p _ rest
      obtain ⟨q, hq, at_end⟩ := Place.spans_of_rest (rest.trans (List.append_nil _).symm)
      exact ⟨q, .last ⟨hq, by simp [Token.isKeyword]⟩, at_end⟩

/-- What ends a phrase with an arrow. The gap before the type is told as part of it. -/
theorem told_arrow {type : List Char} (plain : ';' ∉ type)
    (written : f.Writes [.arrow, .type type, .group .brace]) :
    ∃ us text, List.Forall₂ Token.Retold [.arrow, .type type, .group .brace] us ∧
      f.rendered before = before ++ text ∧ Shown before us text := by
  obtain ⟨first, gap, rest, rfl, shape, hgap, -, later⟩ := written.uncons (by simp)
  obtain ⟨content, gap', rest', rfl, shape', hgap', -, last⟩ := later.uncons (by simp)
  cases shape
  cases shape' with
  | type _ no_brace =>
    let told := content.rendered gap.text
    have absent {ch : Char} (other : isBlank ch = false) (square : ch ≠ '[' ∧ ch ≠ ']')
        (h : ch ∉ content.outline) : ch ∉ told := by
      refine Forest.not_mem_rendered other square ?_
      rw [List.mem_append, not_or]
      exact ⟨hgap.spacing.not_mem other, h⟩
    have cut : content.rendered (before ++ ['-'] ++ ['>'] ++ gap.text) =
        before ++ ['-'] ++ '>' :: told := by
      have alone : content.rendered (before ++ ['-'] ++ '>' :: gap.text) =
          before ++ ['-'] ++ '>' :: told := Forest.rendered_cut (by decide) content _ gap.text
      simpa using alone
    obtain ⟨us, text, retold, rendered, shown⟩ :=
      told_body (before ++ ['-'] ++ '>' :: told ++ gap'.text) last
    refine ⟨.arrow :: .type told :: us, ['-', '>'] ++ (told ++ (gap'.text ++ text)), ?_, ?_, ?_,
      fun _ => by rfl⟩
    · exact .cons rfl (.cons ⟨told, absent (by decide) (by decide) plain,
        absent (by decide) (by decide) no_brace, rfl⟩ retold)
    · simp only [Forest.rendered_append, Forest.rendered, hgap.rendered_eq, hgap'.rendered_eq, cut,
        rendered]
      simp
    · intro p previous rest
      obtain ⟨q, hq, rest_q⟩ := Place.spans_of_rest rest
      obtain ⟨r, hr, rest_r⟩ := Place.spans_of_rest rest_q
      obtain ⟨s, hs, rest_s⟩ := Place.spans_of_rest rest_r
      have previous_s : s.previous = (before ++ ['-'] ++ '>' :: told ++ gap'.text).getLast? := by
        rw [((hq.trans hr).trans hs).previous_eq, previous, ← List.getLast?_append]
        simp
      obtain ⟨e, spelled, at_end⟩ := shown.spells s previous_s rest_s
      have nonempty : us ≠ [] := by
        rintro rfl
        cases retold
      refine ⟨e, .cons ⟨hq, by simp [Token.isKeyword]⟩ .none ?_, at_end⟩
      exact Place.spells_cons_iff.2
        ⟨r, ⟨hr, by simp [Token.isKeyword]⟩, .inr ⟨nonempty, s, hgap'.spacing.gap hs, spelled⟩⟩

/-- By induction on the stem: what is rendered of a phrase spells it again, told in another way. -/
theorem exists_told {stem ending : List Token} (solid : stem ∈ Phrase.allOf Token.Solid)
    (ends : ending = [.group .brace] ∨
      ∃ type, ';' ∉ type ∧ ending = [.arrow, .type type, .group .brace])
    (written : f.Writes (stem ++ ending)) (kept : Kept before)
    (apart : (stem ++ ending).head?.any Token.isKeyword = true →
      before.getLast?.any isWordChar = false) :
    ∃ us text, List.Forall₂ Token.Retold (stem ++ ending) us ∧ f.rendered before = before ++ text ∧
      Shown before us text := by
  induction stem generalizing f before with
  | nil =>
    rcases ends with rfl | ⟨type, plain, rfl⟩
    · exact told_body before written
    · exact told_arrow plain written
  | cons t stem ih =>
    obtain ⟨solid_t, solid⟩ := List.forall_mem_cons.1 solid
    have nonempty : stem ++ ending ≠ [] := by
      rcases ends with rfl | ⟨type, -, rfl⟩ <;> simp
    obtain ⟨first, gap, rest, rfl, shape, hgap, parted, later⟩ :=
      Forest.Writes.uncons written nonempty
    obtain ⟨u, retold_t, solid_u, sort, rendered_t⟩ := shape.rendered_solid solid_t kept
    have apart' : (stem ++ ending).head?.any Token.isKeyword = true →
        (before ++ u.text ++ gap.text).getLast?.any isWordChar = false := by
      intro next
      rcases hgap.spacing with none_there | ⟨ch, blank, one⟩
      · have other : u.isKeyword = false := by
          rw [sort, Bool.eq_false_iff]
          exact fun keyword => parted keyword next none_there
        obtain ⟨front, ch, whole, -, plain⟩ := solid_u.exists_plain_last other
        simp [none_there, whole, plain]
      · simp [one, isWordChar_of_isBlank blank]
    obtain ⟨us, text, retold, rendered, shown⟩ :=
      ih solid later (solid_u.kept hgap.spacing) apart'
    have same := head_of_retold retold
    have some_us : us ≠ [] := by
      rintro rfl
      exact nonempty (List.forall₂_nil_right_iff.1 retold)
    refine ⟨u :: us, u.text ++ gap.text ++ text, .cons retold_t retold, ?_, ?_⟩
    · rw [Forest.rendered_append, Forest.rendered_append, rendered_t, hgap.rendered_eq, rendered]
      simp
    · refine shown.cons solid_u some_us ?_ hgap.spacing ?_
      · rw [sort]
        exact apart
      · rw [sort, same]
        exact parted

end Told

/-- **A lambda expression counts once.** A content that writes a lambda expression holds that one,
and otherwise those inside its groups. -/
theorem tally_expression {f : Forest} {ts : List Token} (lambda : ts ∈ Phrase.lambda)
    (written : f.Writes ts) :
    tally f.text = 1 + (f.contents.map fun inside => tally inside.text).sum := by
  have parts : ∃ stem ∈ Phrase.allOf Token.Solid, ∃ ending, ts = stem ++ ending ∧
      (ending = [.group .brace] ∨
        ∃ type, ';' ∉ type ∧ ending = [.arrow, .type type, .group .brace]) := by
    obtain ⟨stem, solid, rfl | ⟨type, plain, rfl⟩⟩ := Phrase.exists_stem_of_mem_lambda lambda
    · exact ⟨stem, solid, _, rfl, .inl rfl⟩
    · exact ⟨stem, solid, _, rfl, .inr ⟨type, plain, rfl⟩⟩
  obtain ⟨stem, solid, ending, rfl, ends⟩ := parts
  obtain ⟨us, text, retold, rendered, shown⟩ :=
    exists_told solid ends written kept_nil fun _ => rfl
  have types : ∀ type, Token.type type ∈ us → '\x7b' ∉ type := fun _ => not_mem_of_retold retold
  rw [List.nil_append] at rendered
  obtain ⟨q, spelled, at_end⟩ := shown.spells (.ofText text) rfl rfl
  have one : f.own = 1 := by
    rw [Forest.own, rendered, Grammar.matchesIn_of_spells (Phrase.retells_lambda retold lambda) types
      spelled at_end]
    rfl
  rw [tally_text, one, Forest.nested_eq, Nat.add_comm]

theorem tally_expression_trailing :
    ∃ f : Forest, ∃ ts ∈ Phrase.lambda, f.Writes ts ∧
      f.text = "[x](p) noexcept -> T \x7b[]\x7b\x7d\x7d".toList ∧ tally f.text = 2 := by
  have trailing : [.arrow, .type ['T']] ∈ Phrase.trailingReturn :=
    ⟨_, rfl, _, ⟨['T'], Phrase.mem_kstar_noneOf.2 (by simp), rfl⟩, rfl⟩
  have behind : [.keyword "noexcept", .arrow, .type ['T']] ∈ Phrase.tail :=
    ⟨_, ⟨_, .inl (.inl ⟨_, rfl, [], .inr rfl, rfl⟩), [], Language.nil_mem_kstar _, rfl⟩,
      _, .inl trailing, rfl⟩
  have lambda : [.group .square, .group .paren, .keyword "noexcept", .arrow, .type ['T'],
      .group .brace] ∈ Phrase.lambda :=
    ⟨_, ⟨_, ⟨_, rfl, [], .inr rfl, rfl⟩, _, .inl (.inl ⟨_, ⟨_, rfl, [], .inr rfl, rfl⟩, _, behind,
      rfl⟩), rfl⟩, _, rfl, rfl⟩
  have noexcept := Token.Written.keyword "noexcept"
    (Token.isBracket_of_mem_keywords (by simp [Phrase.keywords]))
  have space : (Forest.char ' ' rfl .nil).Gap := .blank (by decide)
  have written : Forest.Writes _ [.group .square, .group .paren, .keyword "noexcept", .arrow,
      .type ['T'], .group .brace] :=
    .cons (.group .square (.char 'x' rfl .nil)) .none (by simp [Token.isKeyword])
      (.cons (.group .paren (.char 'p' rfl .nil)) space (by simp [Token.isKeyword])
        (.cons noexcept space (by simp [Token.isKeyword])
          (.cons .arrow space (by simp [Token.isKeyword])
            (.cons (.type (.char 'T' rfl .nil) (by decide)) space (by simp [Token.isKeyword])
              (.last (.group .brace (.group .square .nil (.group .brace .nil .nil))))))))
  refine ⟨_, _, lambda, written, rfl, ?_⟩
  rw [tally_expression lambda written]
  decide +kernel

end LambdaTally
