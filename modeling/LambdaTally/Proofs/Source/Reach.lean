import LambdaTally.Proofs.Source.Pieces
import LambdaTally.Proofs.Source.RawString

/-!
# LambdaTally.Proofs.Source.Reach

Cursors only move forward over the source as it is written. `c.Reaches d` says that `d` is the place
behind some characters that stand at `c`, with the offset that these characters make up; `c.Leads d`
that reading by logical characters comes there. A text that no splice ties to what follows is read as
its characters without the splices (`reads_unspliced`). Every scanner leads to where it ends
(`leads_skipString` and its companions), a raw string included, whose end is found by counting octets.

`read?_spec` is all that later modules use of a piece: where it ends, what a square bracket is known
by, and that a plain character is neither a square bracket that opens nor a blank.
-/

namespace LambdaTally

open Utf8

namespace Cursor

/-- The place `d` follows some characters that stand at `c`. -/
def Reaches (c d : Cursor) : Prop :=
  ∃ taken, c.rest = taken ++ d.rest ∧ d.offset = c.offset + byteLength taken

namespace Reaches

theorem refl (c : Cursor) : c.Reaches c := ⟨[], rfl, rfl⟩

theorem trans {c d e : Cursor} (h : c.Reaches d) (k : d.Reaches e) : c.Reaches e := by
  obtain ⟨a, ha, oa⟩ := h
  obtain ⟨b, hb, ob⟩ := k
  refine ⟨a ++ b, ?_, ?_⟩
  · rw [ha, hb, List.append_assoc]
  · rw [ob, oa, byteLength_append, Nat.add_assoc]

theorem offset_lt {c d : Cursor} (h : c.Reaches d) (shorter : d.rest.length < c.rest.length) :
    c.offset < d.offset := by
  obtain ⟨taken, hr, ho⟩ := h
  have nonempty : taken ≠ [] := by
    rintro rfl
    rw [hr] at shorter
    exact absurd shorter (Nat.lt_irrefl _)
  have := byteLength_pos nonempty
  omega

end Reaches

theorem reaches_skipSplices (offset : Nat) (rest : List Char) :
    (⟨offset, rest⟩ : Cursor).Reaches (skipSplices offset rest) := by
  fun_induction skipSplices offset rest with
  | case1 offset rest ih => exact .trans ⟨['\\', '\n'], rfl, rfl⟩ ih
  | case2 offset rest ih => exact .trans ⟨['\\', '\r', '\n'], rfl, rfl⟩ ih
  | case3 => exact .refl _

theorem next?_eq_some_iff {c d : Cursor} {ch : Char} : c.next? = some (ch, d) ↔
    ∃ more, c.rest = ch :: more ∧ d = skipSplices (c.offset + ch.utf8Size) more := by
  unfold next?
  cases c.rest with
  | nil => simp
  | cons first more =>
    simp only [Option.some.injEq, Prod.mk.injEq, List.cons.injEq]
    constructor
    · rintro ⟨rfl, rfl⟩
      exact ⟨more, ⟨rfl, rfl⟩, rfl⟩
    · rintro ⟨_, ⟨rfl, rfl⟩, rfl⟩
      exact ⟨rfl, rfl⟩

theorem reaches_next {c d : Cursor} {ch : Char} (h : c.next? = some (ch, d)) : c.Reaches d := by
  obtain ⟨rest, hr, rfl⟩ := next?_eq_some_iff.1 h
  have first : c.Reaches ⟨c.offset + ch.utf8Size, rest⟩ := ⟨[ch], hr, by simp⟩
  exact first.trans (reaches_skipSplices _ rest)

/-- The logical characters on the way from one place to another. -/
inductive Reads : Cursor → List Char → Cursor → Prop where
  | nil {c : Cursor} : Reads c [] c
  | cons {c d e : Cursor} {ch : Char} {chars : List Char} :
      c.next? = some (ch, d) → Reads d chars e → Reads c (ch :: chars) e

theorem Reads.trans {c d e : Cursor} {a b : List Char} (h : c.Reads a d) (k : d.Reads b e) :
    c.Reads (a ++ b) e := by
  induction h with
  | nil => exact k
  | cons hn _ ih => exact .cons hn (ih k)

theorem Reads.reaches {c d : Cursor} {chars : List Char} (h : c.Reads chars d) : c.Reaches d := by
  induction h with
  | nil => exact .refl _
  | cons hn _ ih => exact (reaches_next hn).trans ih

theorem Reads.eq_nil {c : Cursor} {chars : List Char} (h : c.Reads chars c) : chars = [] := by
  cases h with
  | nil => rfl
  | cons next later =>
    have first := next?_length_lt next
    obtain ⟨taken, whole, -⟩ := later.reaches
    have length := congrArg List.length whole
    simp only [List.length_append] at length
    omega

theorem Reads.of_next {c d e : Cursor} {ch : Char} {chars : List Char} (h : c.Reads chars e)
    (here : c.next? = some (ch, d)) : chars = [] ∨ ∃ more, chars = ch :: more ∧ d.Reads more e := by
  cases h with
  | nil => exact .inl rfl
  | cons next later =>
    rw [here] at next
    cases next
    exact .inr ⟨_, rfl, later⟩

/-- Reading by logical characters comes from one place to the other. -/
def Leads (c d : Cursor) : Prop := ∃ chars, c.Reads chars d

namespace Leads

variable {c d e : Cursor}

theorem refl (c : Cursor) : c.Leads c := ⟨[], .nil⟩

theorem next {ch : Char} (h : c.next? = some (ch, d)) : c.Leads d := ⟨[ch], .cons h .nil⟩

theorem trans (h : c.Leads d) (k : d.Leads e) : c.Leads e := by
  obtain ⟨a, ha⟩ := h
  obtain ⟨b, hb⟩ := k
  exact ⟨a ++ b, ha.trans hb⟩

theorem reaches (h : c.Leads d) : c.Reaches d := by
  obtain ⟨chars, hr⟩ := h
  exact hr.reaches

end Leads

theorem rest_of_next {c d : Cursor} {ch : Char} (h : c.next? = some (ch, d)) :
    ∃ rest, c.rest = ch :: rest :=
  (next?_eq_some_iff.1 h).imp fun _ found => found.1

theorem dropOctets_byteLength (taken rest : List Char) :
    dropOctets (byteLength taken) (taken ++ rest) = rest := by
  induction taken with
  | nil => simp [dropOctets]
  | cons ch taken ih =>
    have := ch.utf8Size_pos
    obtain ⟨n, hn⟩ : ∃ n, byteLength (ch :: taken) = n + 1 :=
      ⟨ch.utf8Size + byteLength taken - 1, by rw [byteLength_cons]; omega⟩
    have left : n + 1 - ch.utf8Size = byteLength taken := by
      rw [byteLength_cons] at hn
      omega
    rw [hn, List.cons_append, dropOctets, left, ih]

/-! ## Splices -/

/-- A splice stands at the front. -/
def startsSplice : List Char → Bool
  | '\\' :: '\n' :: _ => true
  | '\\' :: '\r' :: '\n' :: _ => true
  | _ => false

theorem startsSplice_iff {text : List Char} :
    startsSplice text = true ↔ (∃ rest, text = '\\' :: '\n' :: rest) ∨
      ∃ rest, text = '\\' :: '\r' :: '\n' :: rest := by
  constructor
  · intro h
    unfold startsSplice at h
    split at h
    · exact .inl ⟨_, rfl⟩
    · exact .inr ⟨_, rfl⟩
    · cases h
  · rintro (⟨rest, rfl⟩ | ⟨rest, rfl⟩) <;> rfl

theorem skipSplices_of_not_starts {rest : List Char} (h : startsSplice rest = false) (offset : Nat) :
    skipSplices offset rest = ⟨offset, rest⟩ := by
  unfold skipSplices
  split
  · cases h
  · cases h
  · rfl

/-- No splice starts in the text and ends in what stands behind it. -/
def Apart (text behind : List Char) : Prop :=
  ∀ part, part <:+ text → part ≠ [] → startsSplice part = false → startsSplice (part ++ behind) = false

namespace Apart

variable {text behind : List Char}

theorem suffix {part : List Char} (h : Apart text behind) (hs : part <:+ text) : Apart part behind :=
  fun _ hp => h _ (hp.trans hs)

theorem nil (text : List Char) : Apart text [] := by
  intro part _ _ h
  rwa [List.append_nil]

/-- A splice across the border has its backslash in front of the border, or its return as well. -/
theorem of_ends (no_slash : ¬ ['\\'] <:+ text) (no_return : ¬ ['\\', '\r'] <:+ text)
    (behind : List Char) : Apart text behind := by
  intro part hs nonempty none_here
  rw [Bool.eq_false_iff] at *
  intro starts
  refine none_here (startsSplice_iff.2 ?_)
  rcases startsSplice_iff.1 starts with ⟨more, same⟩ | ⟨more, same⟩
  · rcases part with _ | ⟨a, _ | ⟨b, part⟩⟩
    · exact absurd rfl nonempty
    · obtain ⟨rfl, -⟩ := List.cons.inj same
      exact absurd hs no_slash
    · exact .inl ⟨part, by simp_all⟩
  · rcases part with _ | ⟨a, _ | ⟨b, _ | ⟨c, part⟩⟩⟩
    · exact absurd rfl nonempty
    · obtain ⟨rfl, -⟩ := List.cons.inj same
      exact absurd hs no_slash
    · obtain ⟨rfl, rest⟩ := List.cons.inj same
      obtain ⟨rfl, -⟩ := List.cons.inj rest
      exact absurd hs no_return
    · exact .inr ⟨part, by simp_all⟩

theorem of_last (front : List Char) {ch : Char} (no_slash : ch ≠ '\\') (no_return : ch ≠ '\r')
    (behind : List Char) : Apart (front ++ [ch]) behind := by
  refine of_ends ?_ ?_ behind
  · rintro ⟨u, hu⟩
    exact no_slash (List.cons.inj (List.append_inj_right' hu rfl)).1.symm
  · rintro ⟨u, hu⟩
    rw [List.append_cons u] at hu
    exact no_return (List.cons.inj (List.append_inj_right' hu rfl)).1.symm

end Apart

/-- The text without its splices. -/
def unspliced : List Char → List Char
  | '\\' :: '\n' :: rest => unspliced rest
  | '\\' :: '\r' :: '\n' :: rest => unspliced rest
  | ch :: rest => ch :: unspliced rest
  | [] => []

theorem reads_unspliced {text behind : List Char} (apart : Apart text behind) (offset : Nat) :
    (skipSplices offset (text ++ behind)).Reads (unspliced text)
      (skipSplices (offset + byteLength text) behind) := by
  fun_induction unspliced text generalizing offset with
  | case1 rest ih =>
    have later := ih (apart.suffix ⟨['\\', '\n'], rfl⟩) (offset + 2)
    have width : byteLength ('\\' :: '\n' :: rest) = 2 + byteLength rest :=
      byteLength_append ['\\', '\n'] rest
    rw [Nat.add_assoc, ← width] at later
    exact later
  | case2 rest ih =>
    have later := ih (apart.suffix ⟨['\\', '\r', '\n'], rfl⟩) (offset + 3)
    have width : byteLength ('\\' :: '\r' :: '\n' :: rest) = 3 + byteLength rest :=
      byteLength_append ['\\', '\r', '\n'] rest
    rw [Nat.add_assoc, ← width] at later
    exact later
  | case3 ch rest no_break no_return ih =>
    have none_here : startsSplice (ch :: rest) = false := by
      rw [Bool.eq_false_iff, Ne, startsSplice_iff]
      rintro (⟨more, same⟩ | ⟨more, same⟩)
      · obtain ⟨rfl, rfl⟩ := List.cons.inj same
        exact no_break _ rfl rfl
      · obtain ⟨rfl, rfl⟩ := List.cons.inj same
        exact no_return _ rfl rfl
    have still := apart (ch :: rest) (List.suffix_refl _) (List.cons_ne_nil _ _) none_here
    rw [skipSplices_of_not_starts still]
    have later := ih (apart.suffix ⟨[ch], rfl⟩) (offset + ch.utf8Size)
    rw [Nat.add_assoc, ← byteLength_cons] at later
    exact .cons rfl later
  | case4 => exact .nil

end Cursor

namespace Literal

open Cursor

theorem leads_skipLine (c : Cursor) : c.Leads (skipLine c) := by
  fun_induction skipLine c with
  | case1 => exact .refl _
  | case2 => exact .refl _
  | case3 c ch d h _ ih => exact (Leads.next h).trans ih

theorem leads_skipBlockComment (c : Cursor) : c.Leads (skipBlockComment c) := by
  fun_induction skipBlockComment c with
  | case1 => exact .refl _
  | case2 c d e he h => exact (Leads.next h).trans (Leads.next he)
  | case3 c d _ h ih => exact (Leads.next h).trans ih
  | case4 c ch d h _ ih => exact (Leads.next h).trans ih

theorem leads_skipDirective (c : Cursor) : c.Leads (skipDirective c) := by
  fun_induction skipDirective c with
  | case1 => exact .refl _
  | case2 => exact .refl _
  | case3 c d e he h _ ih =>
    exact (Leads.next h).trans ((Leads.next he).trans ((leads_skipBlockComment e).trans ih))
  | case4 c d e he h => exact (Leads.next h).trans ((Leads.next he).trans (leads_skipLine e))
  | case5 c d _ _ h _ ih => exact (Leads.next h).trans ih
  | case6 c ch d h _ _ ih => exact (Leads.next h).trans ih

theorem leads_skipString (c : Cursor) : c.Leads (skipString c) := by
  fun_induction skipString c with
  | case1 => exact .refl _
  | case2 => exact .refl _
  | case3 c d h => exact Leads.next h
  | case4 c d _ h => exact Leads.next h
  | case5 c d _ e he h _ _ ih => exact (Leads.next h).trans ((Leads.next he).trans ih)
  | case6 c ch d h _ _ _ ih => exact (Leads.next h).trans ih

theorem leads_closeEscape {room : Nat} {c d : Cursor} (h : closeEscape? room c = some d) :
    c.Leads d := by
  induction room generalizing c with
  | zero => cases h
  | succ room ih =>
    simp only [closeEscape?] at h
    split at h
    · cases h
    · rename_i ch e hn
      split at h
      · cases h; exact Leads.next hn
      · split at h
        · cases h
        · exact (Leads.next hn).trans (ih h)

theorem leads_closeCharacter {c d : Cursor} (h : closeCharacter? c = some d) : c.Leads d := by
  unfold closeCharacter? at h
  split at h
  · cases h
  · rename_i ch e hn
    split at h
    · cases h
    · split at h
      · split at h
        · cases h
        · rename_i he
          split at h
          · cases h
          · exact (Leads.next hn).trans ((Leads.next he).trans (leads_closeEscape h))
      · split at h
        · rename_i he
          cases h
          exact (Leads.next hn).trans (Leads.next he)
        · cases h

end Literal

namespace Piece

open Cursor

theorem startsSplice_of_skipRawString {c d : Cursor} (h : skipRawString? c = some d) :
    startsSplice c.rest = false := by
  obtain ⟨n, hn, -⟩ := Option.map_eq_some_iff.1 h
  obtain ⟨e, he, raw, m, whole, hm, -⟩ := Literal.prefixedRawLength?_eq_some_iff.1 hn
  obtain ⟨tail, rfl⟩ := Literal.exists_of_rawLength? hm
  rw [whole]
  revert e
  simp [Literal.encodings, startsSplice]

/-- A raw string is left where reading by logical characters comes as well: no splice lies across its
end, which is that of the source or right behind a quote. -/
theorem leads_skipRawString {c d : Cursor} (h : skipRawString? c = some d) : c.Leads d := by
  have plain := startsSplice_of_skipRawString h
  obtain ⟨n, hn, rfl⟩ := Option.map_eq_some_iff.1 h
  obtain ⟨taken, rest, whole, rfl, last⟩ := Literal.prefixedRawLength?_boundary hn
  have apart : Apart taken rest := by
    rcases last with rfl | ⟨front, rfl⟩
    · exact .nil taken
    · exact .of_last front (by decide) (by decide) rest
  have here : skipSplices c.offset (taken ++ rest) = c := by
    rw [← whole]
    exact skipSplices_of_not_starts plain c.offset
  refine ⟨unspliced taken, ?_⟩
  have reads := reads_unspliced apart c.offset
  rw [here] at reads
  rwa [jump, whole, dropOctets_byteLength]

/-- What a piece that stands at a cursor says about the source there. -/
def Fits (c : Cursor) : Piece → Prop
  | .square offset => offset = c.offset ∧ ∃ rest, c.rest = '[' :: rest
  | .plain ch => ch ≠ '[' ∧ CharClass.isBlank ch = false
  | _ => True

theorem readSlash_spec (c d : Cursor) : d.Leads (readSlash d).2 ∧ (readSlash d).1.Fits c := by
  unfold readSlash
  split
  · rename_i e he
    exact ⟨(Leads.next he).trans (Literal.leads_skipLine e), trivial⟩
  · rename_i e he
    exact ⟨(Leads.next he).trans (Literal.leads_skipBlockComment e), trivial⟩
  · exact ⟨.refl _, by decide, by decide⟩

theorem readQuote_spec (c d : Cursor) (word : Word) :
    d.Leads (readQuote d word).2 ∧ (readQuote d word).1.Fits c := by
  unfold readQuote
  split
  · exact ⟨.refl _, trivial⟩
  · split
    · rename_i e he
      exact ⟨Literal.leads_closeCharacter he, trivial⟩
    · exact ⟨.refl _, by decide, by decide⟩

theorem rawOrPlain_spec {c d : Cursor} (hd : c.Leads d) (word : Word) {ch : Char}
    (hch : ch ≠ '[' ∧ CharClass.isBlank ch = false) :
    c.Leads (rawOrPlain c d word ch).2 ∧ (rawOrPlain c d word ch).1.Fits c := by
  unfold rawOrPlain
  split
  · split
    · rename_i e he
      exact ⟨leads_skipRawString he, trivial⟩
    · exact ⟨hd, hch⟩
  · exact ⟨hd, hch⟩

theorem read?_spec {c d : Cursor} {lineStart : Bool} {word : Word} {piece : Piece}
    (h : read? c lineStart word = some (piece, d)) : c.Leads d ∧ piece.Fits c := by
  cases hn : c.next? with
  | none =>
    rw [read?_end hn] at h
    cases h
  | some r =>
    obtain ⟨ch, e⟩ := r
    have hne := Leads.next hn
    have known {r : Piece × Cursor} (hr : read? c lineStart word = some r)
        (spec : c.Leads r.2 ∧ r.1.Fits c) : c.Leads d ∧ piece.Fits c := by
      rw [h] at hr
      cases hr
      exact spec
    cases kind lineStart ch with
    | newline => exact known (read?_newline hn) ⟨hne, trivial⟩
    | blank no_break blank => exact known (read?_blank hn no_break blank) ⟨hne, trivial⟩
    | directive start =>
      subst start
      exact known (read?_directive hn) ⟨hne.trans (Literal.leads_skipDirective e), trivial⟩
    | slash =>
      obtain ⟨leads, fits⟩ := readSlash_spec c e
      exact known (read?_slash hn) ⟨hne.trans leads, fits⟩
    | string =>
      exact known (read?_string hn) ⟨hne.trans (Literal.leads_skipString e), trivial⟩
    | quote =>
      obtain ⟨leads, fits⟩ := readQuote_spec c e word
      exact known (read?_quote hn) ⟨hne.trans leads, fits⟩
    | square =>
      obtain ⟨rest, hrest⟩ := rest_of_next hn
      exact known (read?_square hn) ⟨hne, rfl, rest, hrest⟩
    | letter letter =>
      have solid : ch ≠ '[' ∧ CharClass.isBlank ch = false := by
        simp only [opensRaw, Bool.or_eq_true, beq_iff_eq] at letter
        rcases letter with ((rfl | rfl) | rfl) | rfl <;> decide
      exact known (read?_raw hn letter) (rawOrPlain_spec hne word solid)
    | plain ordinary =>
      exact known (read?_plain hn ordinary) ⟨hne, ordinary.no_square, ordinary.no_blank⟩

end Piece
end LambdaTally
