import LambdaTally.Proofs.Structural.Border

/-!
# LambdaTally.Proofs.Progress

Reading a source comes to an end and never asks for a part of the source that is not there
(`reading_progress`). `Stands source c` says that some moves of a cursor lead from the start of the source
to `c`: steps over logical characters, and jumps behind raw strings. Every such place is sound: the octets
before it are a whole number of characters of the source, what is left is the rest of the source from there
on, and no splice stands there.

A scanner is a loop. `Loop.turn` is one turn of it, which goes on from a place further on or leaves the
loop; `Loop.scan_eq` says that the scanners of `Literal` are these loops. The turns use up source, which is
the measure of all loops here (`Loop.exists_turns`, `exists_steps`).
-/

namespace LambdaTally

open Utf8 Cursor Literal

variable {source text rest : List Char} {c d e : Cursor} {n : Nat}

/-- The text from an octet on; `none` if no character starts there and the text does not end there. -/
def slice? : List Char → Nat → Option (List Char)
  | text, 0 => some text
  | [], _ + 1 => none
  | ch :: rest, n + 1 =>
    if ch.utf8Size ≤ n + 1 then slice? rest (n + 1 - ch.utf8Size) else none

theorem slice?_append (taken rest : List Char) :
    slice? (taken ++ rest) (byteLength taken) = some rest := by
  induction taken with
  | nil =>
    rw [byteLength_nil, List.nil_append, slice?]
  | cons ch taken ih =>
    have some_octet := ch.utf8Size_pos
    obtain ⟨n, width⟩ : ∃ n, ch.utf8Size + byteLength taken = n + 1 :=
      ⟨ch.utf8Size + byteLength taken - 1, by omega⟩
    have left : n + 1 - ch.utf8Size = byteLength taken := by omega
    rw [byteLength_cons, width, List.cons_append, slice?, if_pos (by omega), left, ih]

theorem exists_of_slice? (h : slice? text n = some rest) :
    ∃ taken, text = taken ++ rest ∧ n = byteLength taken := by
  fun_induction slice? text n with
  | case1 text =>
    cases h
    exact ⟨[], rfl, rfl⟩
  | case2 n => cases h
  | case3 ch more n whole ih =>
    obtain ⟨taken, rfl, width⟩ := ih h
    refine ⟨ch :: taken, rfl, ?_⟩
    rw [byteLength_cons]
    omega
  | case4 ch more n cut => cases h

/-! ## Places -/

/-- A cursor comes from the start of the source to the place: over logical characters, and behind raw
strings. -/
inductive Stands (source : List Char) : Cursor → Prop where
  | start : Stands source (.ofSource source)
  | next {c d : Cursor} {ch : Char} : Stands source c → c.next? = some (ch, d) → Stands source d
  | jump {c d : Cursor} : Stands source c → Piece.skipRawString? c = some d → Stands source d

/-- The place is one of the source: the source can be cut there, and it is not cut before a splice. -/
structure Sound (source : List Char) (c : Cursor) : Prop where
  rest_eq : slice? source c.offset = some c.rest
  offset_le : c.offset ≤ byteLength source
  no_splice : startsSplice c.rest = false

theorem sound_of_reaches (h : (⟨0, source⟩ : Cursor).Reaches c) (plain : startsSplice c.rest = false) :
    Sound source c := by
  obtain ⟨taken, whole, offset⟩ := h
  have whole : source = taken ++ c.rest := whole
  have offset : c.offset = byteLength taken := by rw [offset, Nat.zero_add]
  have inside : c.offset ≤ byteLength source := by
    rw [offset, whole, byteLength_append]
    exact Nat.le_add_right _ _
  refine ⟨?_, inside, plain⟩
  rw [offset, whole]
  exact slice?_append taken c.rest

theorem offset_le_of_reaches (h : c.Reaches d) : c.offset ≤ d.offset := by
  obtain ⟨taken, -, offset⟩ := h
  rw [offset]
  exact Nat.le_add_right _ _

/-- From any cut of the source, passing the splices there comes to a sound place. -/
theorem sound_skipSplices (h : slice? source n = some rest) :
    Sound source (skipSplices n rest) ∧ n ≤ (skipSplices n rest).offset := by
  obtain ⟨taken, rfl, rfl⟩ := exists_of_slice? h
  have here : (⟨0, taken ++ rest⟩ : Cursor).Reaches ⟨byteLength taken, rest⟩ :=
    ⟨taken, rfl, (Nat.zero_add _).symm⟩
  have passed := reaches_skipSplices (byteLength taken) rest
  exact ⟨sound_of_reaches (here.trans passed) (startsSplice_skipSplices _ rest),
    offset_le_of_reaches passed⟩

namespace Stands

theorem leads (h : Stands source c) : (Cursor.ofSource source).Leads c := by
  induction h with
  | start => exact .refl _
  | next _ next ih => exact ih.trans (Leads.next next)
  | jump _ raw ih => exact ih.trans (Piece.leads_skipRawString raw)

theorem of_leads (h : Stands source c) (leads : c.Leads d) : Stands source d := by
  obtain ⟨chars, reads⟩ := leads
  induction reads with
  | nil => exact h
  | cons next _ ih => exact ih (h.next next)

theorem reaches (h : Stands source c) : (⟨0, source⟩ : Cursor).Reaches c :=
  (reaches_skipSplices 0 source).trans h.leads.reaches

theorem sound (h : Stands source c) : Sound source c :=
  sound_of_reaches h.reaches (startsSplice_of_leads h.leads)

end Stands

/-! ## Raw strings -/

/-- The octets of an encoding in front of a raw string can be cut off. -/
theorem slice?_encoding {opening : List Char} (known : opening ∈ rawPrefixes)
    (stands : opening.isPrefixOf text = true) :
    slice? text (opening.length - 2) = some (text.drop (opening.length - 2)) := by
  have spelt : rawPrefixes = encodings.map (· ++ ['R', '"']) := rfl
  have ascii : ∀ e ∈ encodings, byteLength e = e.length := by decide
  obtain ⟨more, rfl⟩ := List.isPrefixOf_iff_prefix.1 stands
  rw [spelt] at known
  obtain ⟨e, encoding, rfl⟩ := List.mem_map.1 known
  have octets : (e ++ ['R', '"']).length - 2 = byteLength e := by
    rw [ascii e encoding, List.length_append]
    rfl
  rw [octets, List.append_assoc, slice?_append, ascii e encoding, List.drop_left]

/-- A raw string ends at a place of the source, which the cursor jumps to before it passes the splices
there. -/
theorem slice?_raw (stands : Stands source c) (raw : prefixedRawLength? c.rest = some n) :
    0 < n ∧ c.offset + n ≤ byteLength source ∧ ∃ rest, slice? source (c.offset + n) = some rest ∧
      Piece.skipRawString? c = some (skipSplices (c.offset + n) rest) := by
  have some_octet : 0 < n := by
    obtain ⟨e, -, raw, m, -, long, rfl⟩ := prefixedRawLength?_eq_some_iff.1 raw
    have := Piece.rawLength?_pos long
    omega
  obtain ⟨taken, rest, split, rfl, -⟩ := prefixedRawLength?_boundary raw
  obtain ⟨front, whole, offset⟩ := stands.reaches
  have whole : source = (front ++ taken) ++ rest := by
    rw [List.append_assoc, ← split]
    exact whole
  have offset : c.offset + byteLength taken = byteLength (front ++ taken) := by
    rw [offset, Nat.zero_add, byteLength_append]
  refine ⟨some_octet, ?_, rest, ?_, ?_⟩
  · rw [offset, whole, byteLength_append (front ++ taken)]
    exact Nat.le_add_right _ _
  · rw [offset, whole]
    exact slice?_append (front ++ taken) rest
  · rw [Piece.skipRawString?, raw, Option.map_some, jump, split, dropOctets_byteLength]

/-! ## Scanners -/

/-- The scanners that are loops over logical characters. -/
inductive Loop where
  | line
  | blockComment
  | directive
  | string
  deriving DecidableEq, Repr

/-- What one turn of a loop comes to: the place where the next turn starts, or where the loop is left. -/
inductive Turn where
  | goOn (place : Cursor)
  | leave (place : Cursor)
  deriving DecidableEq, Repr

namespace Loop

/-- One turn of a loop. A directive takes a block comment in it in one turn. -/
def turn (l : Loop) (c : Cursor) : Turn :=
  match c.next? with
  | none => .leave c
  | some (ch, d) =>
    match l with
    | line => if ch = '\n' then .leave c else .goOn d
    | blockComment =>
      if ch = '*' then
        match d.next? with
        | some ('/', e) => .leave e
        | _ => .goOn d
      else .goOn d
    | directive =>
      if ch = '\n' then .leave c
      else if ch = '/' then
        match d.next? with
        | some ('*', e) => .goOn (skipBlockComment e)
        | some ('/', e) => .leave (skipLine e)
        | _ => .goOn d
      else .goOn d
    | string =>
      if ch = '\n' then .leave c
      else if ch = '"' then .leave d
      else if ch = '\\' then
        match d.next? with
        | none => .goOn d
        | some (_, e) => .goOn e
      else .goOn d

/-- The scanner that is the loop. -/
def scan : Loop → Cursor → Cursor
  | line => skipLine
  | blockComment => skipBlockComment
  | directive => skipDirective
  | string => skipString

variable {l : Loop}

/-- The scanner does one turn of its loop, and the rest of them if that does not leave it. -/
theorem scan_eq (l : Loop) (c : Cursor) :
    l.scan c = match l.turn c with | .goOn d => l.scan d | .leave d => d := by
  cases next : c.next? with
  | none =>
    have ended : l.turn c = .leave c := by simp [turn, next]
    rw [ended]
    cases l with
    | line => exact skipLine_end next
    | blockComment => exact skipBlockComment_end next
    | directive => exact skipDirective_end next
    | string => exact skipString_end next
  | some r =>
    obtain ⟨ch, d⟩ := r
    cases l with
    | line =>
      simp only [turn, next, scan, skipLine_step next]
      split <;> rfl
    | blockComment =>
      simp only [turn, next, scan, skipBlockComment_step next]
      split
      · cases d.next? with
        | none => rfl
        | some r => split <;> simp_all
      · rfl
    | directive =>
      simp only [turn, next, scan, skipDirective_step next]
      split
      · rfl
      · split
        · cases d.next? with
          | none => rfl
          | some r => split <;> simp_all
        · rfl
    | string =>
      simp only [turn, next, scan, skipString_step next]
      split
      · rfl
      · split
        · rfl
        · split
          · cases later : d.next? with
            | none => exact (skipString_end later).symm
            | some r => rfl
          · rfl

/-- A turn that goes on has passed a character at least. -/
theorem turn_goOn (h : l.turn c = .goOn e) : ∃ ch d, c.next? = some (ch, d) ∧ d.Leads e := by
  cases here : c.next? with
  | none => simp [turn, here] at h
  | some r =>
    obtain ⟨ch, d⟩ := r
    refine ⟨ch, d, rfl, ?_⟩
    cases l with
    | line =>
      simp only [turn, here] at h
      split at h <;> cases h
      exact .refl _
    | blockComment =>
      simp only [turn, here] at h
      split at h
      · split at h <;> cases h
        exact .refl _
      · cases h
        exact .refl _
    | directive =>
      simp only [turn, here] at h
      split at h
      · cases h
      · split at h
        · split at h <;> cases h
          · rename_i later
            exact (Leads.next later).trans (leads_skipBlockComment _)
          · exact .refl _
        · cases h
          exact .refl _
    | string =>
      simp only [turn, here] at h
      split at h
      · cases h
      · split at h
        · cases h
        · split at h
          · split at h <;> cases h
            · exact .refl _
            · rename_i later
              exact Leads.next later
          · cases h
            exact .refl _

/-- A loop is left where it stands, or further on. -/
theorem turn_leave (h : l.turn c = .leave e) : c.Leads e := by
  cases here : c.next? with
  | none =>
    obtain rfl : c = e := by simpa [turn, here] using h
    exact .refl c
  | some r =>
    obtain ⟨ch, d⟩ := r
    have first := Leads.next here
    cases l with
    | line =>
      simp only [turn, here] at h
      split at h <;> cases h
      exact .refl _
    | blockComment =>
      simp only [turn, here] at h
      split at h
      · split at h <;> cases h
        rename_i later
        exact first.trans (Leads.next later)
      · cases h
    | directive =>
      simp only [turn, here] at h
      split at h
      · cases h
        exact .refl _
      · split at h
        · split at h <;> cases h
          rename_i later
          exact first.trans ((Leads.next later).trans (leads_skipLine _))
        · cases h
    | string =>
      simp only [turn, here] at h
      split at h
      · cases h
        exact .refl _
      · split at h
        · cases h
          exact first
        · split at h
          · split at h <;> cases h
          · cases h

theorem goOn_spec (h : l.turn c = .goOn d) : c.Leads d ∧ d.rest.length < c.rest.length := by
  obtain ⟨ch, e, next, leads⟩ := turn_goOn h
  obtain ⟨taken, whole, -⟩ := leads.reaches
  have shorter := next?_length_lt next
  rw [whole, List.length_append] at shorter
  exact ⟨(Leads.next next).trans leads, by omega⟩

/-- Some turns of the loop that go on, one after the other. -/
inductive Turns (l : Loop) : Cursor → Cursor → Prop where
  | refl {c : Cursor} : Turns l c c
  | cons {c d e : Cursor} : l.turn c = .goOn d → Turns l d e → Turns l c e

/-- After some turns the loop is left, at the end of its scanner. -/
theorem exists_turns (l : Loop) (c : Cursor) : ∃ d, l.Turns c d ∧ l.turn d = .leave (l.scan c) := by
  induction left : c.rest.length using Nat.strongRecOn generalizing c with
  | ind n ih =>
    have scanned := l.scan_eq c
    cases first : l.turn c with
    | leave d =>
      rw [first] at scanned
      exact ⟨c, .refl, by rw [first, scanned]⟩
    | goOn d =>
      rw [first] at scanned
      obtain ⟨e, turns, last⟩ := ih d.rest.length (left ▸ (goOn_spec first).2) d rfl
      exact ⟨e, .cons first turns, by rw [last, scanned]⟩

end Loop

/-! ## The whole reading -/

namespace Structural

theorem next?_eq_none {lineStart : Bool} {word : Word} (h : Piece.read? c lineStart word = none) :
    c.next? = none := by
  unfold Piece.read? at h
  split at h
  · assumption
  · cases h

/-- How a source is read. -/
structure Progress (source : List Char) : Prop where
  /-- No cursor comes to anything but a place of the source, and none stands at a splice. -/
  sound : ∀ c, Stands source c → Sound source c
  /-- Passing splices never goes back, and leaves the cursor at a place of the source again. -/
  splices : ∀ n rest, slice? source n = some rest →
    Sound source (skipSplices n rest) ∧ n ≤ (skipSplices n rest).offset
  /-- The main loop stands where cursors come, and each turn takes it further. -/
  pieces : ∀ c f, Visits source c f → Stands source c ∧
    ∀ piece d, Piece.read? c f.lineStart f.word = some (piece, d) → Stands source d ∧ c.offset < d.offset
  /-- So does each scanner, from any such place: a turn that does not leave the loop takes it further, and
  after some turns the loop is left. -/
  loops : ∀ (l : Loop) c, Stands source c →
    (∀ d, l.turn c = .goOn d → Stands source d ∧ c.offset < d.offset) ∧
    (∀ d, l.turn c = .leave d → Stands source d ∧ c.offset ≤ d.offset) ∧
    ∃ d, l.Turns c d ∧ l.turn d = .leave (l.scan c)
  /-- A character literal that is closed ends further on. -/
  characters : ∀ c d, Stands source c → closeCharacter? c = some d →
    Stands source d ∧ c.offset < d.offset
  /-- A raw string is found by cutting off its encoding, -/
  encodings : ∀ c, Stands source c → ∀ opening ∈ rawPrefixes, opening.isPrefixOf c.rest = true →
    slice? c.rest (opening.length - 2) = some (c.rest.drop (opening.length - 2))
  /-- and the jump over it goes to a place of the source. -/
  rawStrings : ∀ c n, Stands source c → prefixedRawLength? c.rest = some n →
    0 < n ∧ c.offset + n ≤ byteLength source ∧ ∃ rest, slice? source (c.offset + n) = some rest ∧
      Piece.skipRawString? c = some (skipSplices (c.offset + n) rest)
  /-- The main loop comes to the end of the source. -/
  ends : ∃ c f, Visits source c f ∧ c.rest = [] ∧ c.offset = byteLength source ∧
    ofSource source = f.finish

/-- Every source is read to its end, by turns that each use up some of it, and whatever is cut off the
source on the way can be cut there. -/
theorem reading_progress (source : List Char) : Progress source where
  sound c := Stands.sound
  splices n rest := sound_skipSplices
  pieces := by
    intro c f visits
    have stands : Stands source c := .of_leads .start visits.leads
    refine ⟨stands, fun piece d read => ?_⟩
    have leads := (Piece.read?_spec read).1
    exact ⟨stands.of_leads leads, leads.reaches.offset_lt (Piece.read?_length_lt read)⟩
  loops := by
    intro l c stands
    refine ⟨fun d turn => ?_, fun d turn => ?_, l.exists_turns c⟩
    · obtain ⟨leads, shorter⟩ := Loop.goOn_spec turn
      exact ⟨stands.of_leads leads, leads.reaches.offset_lt shorter⟩
    · have leads := Loop.turn_leave turn
      exact ⟨stands.of_leads leads, offset_le_of_reaches leads.reaches⟩
  characters := by
    intro c d stands closed
    have leads := leads_closeCharacter closed
    exact ⟨stands.of_leads leads, leads.reaches.offset_lt (closeCharacter?_length_lt closed)⟩
  encodings c _ opening := slice?_encoding
  rawStrings c n := slice?_raw
  ends := by
    obtain ⟨c, visits, ended⟩ := exists_steps (.ofSource source) .empty
    have visits : Visits source c (reduceFrom (.ofSource source) .empty) := visits
    have all_read : c.rest = [] := rest_eq_nil (next?_eq_none ended)
    obtain ⟨taken, whole, offset⟩ := visits.reaches
    have whole : source = taken ++ c.rest := whole
    rw [all_read, List.append_nil] at whole
    refine ⟨c, _, visits, all_read, ?_, rfl⟩
    rw [offset, whole, Nat.zero_add]

end Structural
end LambdaTally
