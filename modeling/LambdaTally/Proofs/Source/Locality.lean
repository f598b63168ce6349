import LambdaTally.Proofs.Source.Pieces
import LambdaTally.Proofs.Source.Within

/-!
# LambdaTally.Proofs.Source.Locality

The piece at a place of a source that stands among others. It is the piece of the source alone, and
ends at the same place, if it leaves all that follows (`read?_of_within`), and also if a line break
comes in the source and the piece ends before the source does (`read?_within`). What a piece can look
at beyond its end is the delimiter of a raw string that opens nowhere, the quote of a character
literal that is none, and one character after a slash; none of the three looks past a line break.
-/

namespace LambdaTally
namespace Piece

open Cursor

/-- The same piece in a source that starts further back. -/
def shift (k : Nat) : Piece → Piece
  | .square offset => .square (offset + k)
  | piece => piece

/-- A piece and the place behind it, in a source among others. -/
def place (k : Nat) (behind : List Char) (r : Piece × Cursor) : Piece × Cursor :=
  (r.1.shift k, r.2.within k behind)

variable {c d e : Cursor} {ch : Char} {k : Nat} {behind : List Char} {lineStart : Bool} {word : Word}

theorem jump_within {taken rest : List Char} (whole : c.rest = taken ++ rest)
    (sealed : Sealed c.rest behind) (k : Nat) :
    (c.within k behind).jump (Utf8.byteLength taken) =
      (c.jump (Utf8.byteLength taken)).within k behind := by
  have sealed_rest : Sealed rest behind := sealed.suffix ⟨taken, whole.symm⟩
  have joined : (c.within k behind).rest = taken ++ (rest ++ behind) := by simp [within, whole]
  rw [jump, jump, joined, whole, dropOctets_byteLength, dropOctets_byteLength,
    ← skipSplices_within sealed_rest]
  simp [within, Nat.add_right_comm]

/-- A raw string read among others that leaves all that follows is one of the source alone. -/
theorem prefixedRawLength?_of_within {m : Nat}
    (there : Literal.prefixedRawLength? (c.rest ++ behind) = some m)
    (keeps : behind.length ≤ ((c.within k behind).jump m).rest.length) :
    Literal.prefixedRawLength? c.rest = some m := by
  obtain ⟨taken, rest, whole, rfl, -⟩ := Literal.prefixedRawLength?_boundary there
  have left : behind.length ≤ rest.length := by
    refine Nat.le_trans keeps ?_
    have joined : (c.within k behind).rest = taken ++ rest := whole
    rw [jump, joined, dropOctets_byteLength]
    exact skipSplices_length_le _ rest
  obtain ⟨more, rfl⟩ := List.suffix_of_suffix_length_le ⟨c.rest, whole⟩ ⟨taken, rfl⟩ left
  have here : c.rest = taken ++ more := List.append_cancel_right (by simpa using whole)
  by_cases empty : more ++ behind = []
  · obtain ⟨rfl, rfl⟩ := List.append_eq_nil_iff.1 empty
    rw [← there, List.append_nil]
  · rw [whole] at there
    rw [here]
    exact Literal.prefixedRawLength?_append there empty more

/-- A raw string of a source that ends before the source is the same among others. -/
theorem prefixedRawLength?_append_behind {n : Nat}
    (here : Literal.prefixedRawLength? c.rest = some n) (more : (c.jump n).rest ≠ [])
    (behind : List Char) : Literal.prefixedRawLength? (c.rest ++ behind) = some n := by
  obtain ⟨taken, rest, whole, rfl, -⟩ := Literal.prefixedRawLength?_boundary here
  have nonempty : rest ≠ [] := by
    rintro rfl
    refine more ?_
    rw [jump, whole, dropOctets_byteLength]
    rfl
  rw [whole] at here ⊢
  rw [List.append_assoc]
  exact Literal.prefixedRawLength?_append here nonempty _

/-- The raw string is read to its end without what follows. -/
theorem prefixedRawLength?_within
    (near : (∀ e, skipRawString? (c.within k behind) = some e → behind.length ≤ e.rest.length) ∨
      '\n' ∈ c.rest ∧ ∀ d, skipRawString? c = some d → d.rest ≠ []) :
    Literal.prefixedRawLength? (c.rest ++ behind) = Literal.prefixedRawLength? c.rest := by
  cases there : Literal.prefixedRawLength? (c.rest ++ behind) with
  | none =>
    cases here : Literal.prefixedRawLength? c.rest with
    | none => rfl
    | some n =>
      obtain ⟨m, opened⟩ := Literal.exists_prefixedRawLength?_append here behind
      rw [there] at opened
      cases opened
  | some m =>
    rcases near with keeps | ⟨newline, more⟩
    · have left := keeps _ (Option.map_eq_some_iff.2 ⟨m, there, rfl⟩)
      exact (prefixedRawLength?_of_within there left).symm
    · -- what opens the raw string stands in front of the line break, and so in the source
      obtain ⟨a, b, split⟩ := List.append_of_mem newline
      rw [split, List.append_assoc, List.cons_append] at there
      obtain ⟨n, opened⟩ := Literal.exists_prefixedRawLength?_of_newline there
      obtain ⟨n', here⟩ := Literal.exists_prefixedRawLength?_append opened ('\n' :: b)
      rw [← split] at here
      have same := prefixedRawLength?_append_behind here
        (more _ (Option.map_eq_some_iff.2 ⟨n', here, rfl⟩)) behind
      rw [split, List.append_assoc, List.cons_append, there] at same
      rw [here, same]

theorem skipRawString?_within (sealed : Sealed c.rest behind)
    (near : (∀ e, skipRawString? (c.within k behind) = some e → behind.length ≤ e.rest.length) ∨
      '\n' ∈ c.rest ∧ ∀ d, skipRawString? c = some d → d.rest ≠ []) :
    skipRawString? (c.within k behind) = (skipRawString? c).map (within k behind) := by
  have same : Literal.prefixedRawLength? (c.within k behind).rest =
      Literal.prefixedRawLength? c.rest := prefixedRawLength?_within near
  rw [skipRawString?, skipRawString?, same]
  cases here : Literal.prefixedRawLength? c.rest with
  | none => rfl
  | some n =>
    obtain ⟨taken, rest, whole, rfl, -⟩ := Literal.prefixedRawLength?_boundary here
    exact congrArg some (jump_within whole sealed k)

theorem readSlash_within (sealed : Sealed d.rest behind)
    (stops : (readSlash d).2.rest ≠ [] ∨
      behind.length ≤ (readSlash (d.within k behind)).2.rest.length) :
    readSlash (d.within k behind) = place k behind (readSlash d) := by
  by_cases line : ∃ e, d.next? = some ('/', e)
  · obtain ⟨e, here⟩ := line
    have there := next?_within k sealed here
    rw [readSlash_line here, readSlash_line there] at stops ⊢
    rw [Literal.skipLine_within (sealed.reaches (reaches_next here)) stops]
    rfl
  by_cases block : ∃ e, d.next? = some ('*', e)
  · obtain ⟨e, here⟩ := block
    have there := next?_within k sealed here
    rw [readSlash_block here, readSlash_block there] at stops ⊢
    rw [Literal.skipBlockComment_within (sealed.reaches (reaches_next here)) stops]
    rfl
  have plain : readSlash d = (.plain '/', d) :=
    readSlash_plain (fun e he => line ⟨e, he⟩) (fun e he => block ⟨e, he⟩)
  -- a comment that opens behind the border leaves less than what stands there
  have no_comment : ∀ ch e, ch = '/' ∨ ch = '*' → (d.within k behind).next? ≠ some (ch, e) := by
    intro ch e opens there
    obtain ⟨e', here, -⟩ | ⟨empty, shorter⟩ := next?_of_within sealed there
    · rcases opens with rfl | rfl
      · exact line ⟨e', here⟩
      · exact block ⟨e', here⟩
    · rcases stops with inside | keeps
      · exact inside (by rw [plain, empty])
      · rcases opens with rfl | rfl
        · rw [readSlash_line there] at keeps
          exact absurd (Nat.lt_of_le_of_lt (Literal.skipLine_length_le e) shorter)
            (Nat.not_lt.2 keeps)
        · rw [readSlash_block there] at keeps
          exact absurd (Nat.lt_of_le_of_lt (Literal.skipBlockComment_length_le e) shorter)
            (Nat.not_lt.2 keeps)
  rw [plain, readSlash_plain (fun e => no_comment '/' e (.inl rfl))
    (fun e => no_comment '*' e (.inr rfl))]
  rfl

theorem readQuote_within (sealed : Sealed d.rest behind)
    (near : behind.length ≤ (readQuote (d.within k behind) word).2.rest.length ∨ d.Lined) :
    readQuote (d.within k behind) word = place k behind (readQuote d word) := by
  by_cases number : word = .number
  · subst number
    rfl
  cases here : Literal.closeCharacter? d with
  | some e =>
    rw [readQuote_character number here,
      readQuote_character number (Literal.closeCharacter?_within sealed here)]
    rfl
  | none =>
    have none_there : Literal.closeCharacter? (d.within k behind) = none := by
      cases there : Literal.closeCharacter? (d.within k behind) with
      | none => rfl
      | some e =>
        rw [readQuote_character number there] at near
        obtain ⟨e', closed⟩ := Literal.exists_closeCharacter? sealed there near
        rw [here] at closed
        cases closed
    rw [readQuote_plain number here, readQuote_plain number none_there]
    rfl

theorem rawOrPlain_within (sealed : Sealed c.rest behind)
    (near : behind.length ≤
        (rawOrPlain (c.within k behind) (d.within k behind) word ch).2.rest.length ∨
      '\n' ∈ c.rest ∧ (rawOrPlain c d word ch).2.rest ≠ []) :
    rawOrPlain (c.within k behind) (d.within k behind) word ch =
      place k behind (rawOrPlain c d word ch) := by
  by_cases no_word : word = .none
  · subst no_word
    have same := skipRawString?_within (k := k) sealed <| near.imp
      (fun keeps e he => by rwa [rawOrPlain_raw rfl he] at keeps)
      (And.imp_right fun inside e he => by rwa [rawOrPlain_raw rfl he] at inside)
    simp only [rawOrPlain, same]
    cases skipRawString? c <;> rfl
  · simp only [rawOrPlain, if_neg no_word]
    rfl

theorem mem_of_lined {c : Cursor} (lined : c.Lined) : '\n' ∈ c.rest := by
  obtain ⟨d, leads, newline⟩ := lined
  obtain ⟨taken, whole, -⟩ := leads.reaches
  rw [whole]
  exact List.mem_append_right _ (List.mem_of_head? newline)

/-- The piece at a place of a source is the same among others, if it leaves all that follows or ends
before a line break of the source. -/
theorem read?_place (sealed : Sealed c.rest behind) (nonempty : c.rest ≠ [])
    (near : (∀ r, read? (c.within k behind) lineStart word = some r →
        behind.length ≤ r.2.rest.length) ∨
      c.Lined ∧ ∀ r, read? c lineStart word = some r → r.2.rest ≠ []) :
    read? (c.within k behind) lineStart word = (read? c lineStart word).map (place k behind) := by
  obtain ⟨ch, d, here⟩ := exists_next? nonempty
  have there := next?_within k sealed here
  have sealed_d := sealed.reaches (reaches_next here)
  have both {r₀ r₁ : Piece × Cursor} (h₀ : read? c lineStart word = some r₀)
      (h₁ : read? (c.within k behind) lineStart word = some r₁)
      (same : behind.length ≤ r₁.2.rest.length ∨ c.Lined ∧ r₀.2.rest ≠ [] →
        r₁ = place k behind r₀) :
      read? (c.within k behind) lineStart word =
        (read? c lineStart word).map (place k behind) := by
    rw [h₀, h₁,
      same (near.imp (fun keeps => keeps r₁ h₁) (And.imp_right fun inside => inside r₀ h₀))]
    rfl
  cases kind lineStart ch with
  | newline => exact both (read?_newline here) (read?_newline there) fun _ => rfl
  | blank no_break blank =>
    exact both (read?_blank here no_break blank) (read?_blank there no_break blank) fun _ => rfl
  | directive start =>
    subst start
    refine both (read?_directive here) (read?_directive there) fun near => ?_
    exact congrArg (Prod.mk Piece.directive)
      (Literal.skipDirective_within sealed_d (near.symm.imp_left And.right))
  | slash =>
    exact both (read?_slash here) (read?_slash there) fun near =>
      readSlash_within sealed_d (near.symm.imp_left And.right)
  | string =>
    refine both (read?_string here) (read?_string there) fun near => ?_
    exact congrArg (Prod.mk Piece.string)
      (Literal.skipString_within sealed_d (near.symm.imp_left And.right))
  | quote =>
    exact both (read?_quote here) (read?_quote there) fun near =>
      readQuote_within sealed_d (near.imp_right fun h => h.1.next here (by decide))
  | square => exact both (read?_square here) (read?_square there) fun _ => rfl
  | letter letter =>
    exact both (read?_raw here letter) (read?_raw there letter) fun near =>
      rawOrPlain_within sealed (near.imp_right (And.imp_left mem_of_lined))
  | plain ordinary =>
    exact both (read?_plain here ordinary) (read?_plain there ordinary) fun _ => rfl

/-- Octets in front of a source change nothing but the offsets. -/
theorem read?_moved (c : Cursor) (k : Nat) (lineStart : Bool) (word : Word) :
    read? (c.within k []) lineStart word = (read? c lineStart word).map (place k []) := by
  by_cases nonempty : c.rest = []
  · have here : c.next? = none := by simp [next?, nonempty]
    have there : (c.within k []).next? = none := by simp [next?, within, nonempty]
    rw [read?_end here, read?_end there]
    rfl
  · exact read?_place (.nil _) nonempty (.inl fun _ _ => Nat.zero_le _)

/-- A piece read among others that leaves all that follows is the piece of the source alone. -/
theorem read?_of_within {r : Piece × Cursor} (sealed : Sealed c.rest behind) (nonempty : c.rest ≠ [])
    (h : read? (c.within k behind) lineStart word = some r) (keeps : behind.length ≤ r.2.rest.length) :
    ∃ r', read? c lineStart word = some r' ∧ r = place k behind r' := by
  have same := read?_place sealed nonempty <| .inl fun r' h' => by
    rw [h] at h'
    cases h'
    exact keeps
  rw [h] at same
  obtain ⟨r', here, placed⟩ := Option.map_eq_some_iff.1 same.symm
  exact ⟨r', here, placed.symm⟩

/-- The piece of a source with a line break still to come behind it is the same among others. -/
theorem read?_within {r : Piece × Cursor} (sealed : Sealed c.rest behind)
    (h : read? c lineStart word = some r) (lined : r.2.Lined) :
    read? (c.within k behind) lineStart word = some (place k behind r) := by
  have leads : c.Leads r.2 := (read?_spec h).1
  have shorter := read?_length_lt h
  have nonempty : c.rest ≠ [] := by
    intro empty
    simp [empty] at shorter
  have same := read?_place (k := k) sealed nonempty <| .inr ⟨lined.of_leads leads, fun r' h' => by
    rw [h] at h'
    cases h'
    exact lined.rest_ne_nil⟩
  rw [same, h]
  rfl

end Piece
end LambdaTally
