import Mathlib.Data.Nat.PSub
import LambdaTally.Proofs.Text.Octets
import LambdaTally.Sampling.Window

/-!
# LambdaTally.Proofs.Sampling.Extent

The window around a place, by octets: where it starts and where it stops. Both are found by steps from
line break to line break, and each step looks only at octets that the source has (`extent?` has no result
otherwise). Whatever the offset, they come to places between characters, and the stretch from one to the
other is the window: the lines of the source from `margin` before the one of the place to `margin` behind
it, as far as there are such lines (`around_lines`).

All of it rests on the lines of a source around a place (`Lines`): some that end before it, the one that
it stands in, and some that begin behind it.
-/

namespace LambdaTally
namespace Window

open Utf8

/-! ## The steps of a place -/

/-- The start of the line of a place: behind the last line break before it. -/
def lineStart? (octets : List UInt8) (place : Nat) : Option Nat :=
  if place ≤ octets.length then
    some (((octets.take place).reverse.findIdx? (· == 0x0A)).elim 0 (place - ·))
  else none

/-- The end of the line of a place: the first line break from it on, or the end of the octets. -/
def lineStop? (octets : List UInt8) (place : Nat) : Option Nat :=
  if place ≤ octets.length then
    some (((octets.drop place).findIdx? (· == 0x0A)).elim octets.length (place + ·))
  else none

/-- The start of the line `margin` lines further up, or of the first line. -/
def back? (octets : List UInt8) : (margin start : Nat) → Option Nat
  | 0, start => some start
  | margin + 1, start =>
    if start = 0 then some start
    else do back? octets margin (← lineStart? octets (← start.ppred))

/-- The end of the line `margin` lines further down, or of the last line. -/
def ahead? (octets : List UInt8) : (margin stop : Nat) → Option Nat
  | 0, stop => some stop
  | margin + 1, stop =>
    if octets.length ≤ stop then some stop
    else do ahead? octets margin (← lineStop? octets (stop + 1))

/-- Where the lines around an offset start and stop. -/
def extent? (source : List Char) (offset margin : Nat) : Option (Nat × Nat) := do
  let octets := encode source
  let place := min offset octets.length
  let start ← back? octets margin (← lineStart? octets place)
  let stop ← ahead? octets margin (← lineStop? octets place)
  some (start, stop)

/-- The text stands in the source from one place to another, both of them between characters. -/
def Slices (source text : List Char) (start stop : Nat) : Prop :=
  ∃ front behind, source = front ++ text ++ behind ∧ byteLength front = start ∧
    byteLength (front ++ text) = stop

theorem Slices.stop_le {source text : List Char} {start stop : Nat} (h : Slices source text start stop) :
    stop ≤ byteLength source := by
  obtain ⟨front, behind, rfl, -, rfl⟩ := h
  rw [byteLength_append _ behind]
  exact Nat.le_add_right _ _

/-! ## Lines with their breaks -/

/-- Lines, each with the break behind it. -/
def closed (lines : List (List Char)) : List Char := lines.flatMap (· ++ ['\n'])

/-- Lines, each with the break before it. -/
def opened (lines : List (List Char)) : List Char := lines.flatMap ('\n' :: ·)

section Breaks

variable {line text : List Char} {front later : List (List Char)}

@[simp] theorem closed_nil : closed [] = [] := rfl

@[simp] theorem closed_cons : closed (line :: front) = line ++ '\n' :: closed front := by
  simp [closed]

@[simp] theorem opened_nil : opened [] = [] := rfl

@[simp] theorem opened_cons : opened (line :: later) = '\n' :: line ++ opened later := rfl

theorem closed_append (a b : List (List Char)) : closed (a ++ b) = closed a ++ closed b :=
  List.flatMap_append

theorem byteLength_closed_append_line (front : List (List Char)) (line : List Char) :
    byteLength (closed (front ++ [line])) = byteLength (closed front) + byteLength line + 1 := by
  rw [closed_append, byteLength_append, closed_cons, byteLength_append, Nat.add_assoc]
  rfl

theorem opened_append (a b : List (List Char)) : opened (a ++ b) = opened a ++ opened b :=
  List.flatMap_append

theorem intercalate_cons (line : List Char) (later : List (List Char)) :
    ['\n'].intercalate (line :: later) = line ++ opened later := by
  induction later generalizing line with
  | nil => simp
  | cons next later ih => simp [List.intercalate_cons_cons, ih]

theorem intercalate_append (front : List (List Char)) (line : List Char) (later : List (List Char)) :
    ['\n'].intercalate (front ++ line :: later) = closed front ++ (line ++ opened later) := by
  induction front with
  | nil => exact intercalate_cons line later
  | cons first front ih =>
    have nonempty : front ++ line :: later ≠ [] := by simp
    rw [List.cons_append, List.intercalate_cons_of_ne_nil nonempty, ih]
    simp

/-- The lines of a text, none of which has a break. -/
theorem exists_lines (text : List Char) :
    ∃ line later, text = line ++ opened later ∧ ∀ l ∈ line :: later, '\n' ∉ l := by
  induction text with
  | nil => exact ⟨[], [], rfl, by simp⟩
  | cons ch text ih =>
    obtain ⟨line, later, rfl, single⟩ := ih
    rw [List.forall_mem_cons] at single
    by_cases newline : ch = '\n'
    · exact ⟨[], line :: later, by rw [newline]; rfl,
        List.forall_mem_cons.2 ⟨List.not_mem_nil, List.forall_mem_cons.2 single⟩⟩
    · refine ⟨ch :: line, later, rfl, List.forall_mem_cons.2 ⟨?_, single.2⟩⟩
      rw [List.mem_cons, not_or]
      exact ⟨Ne.symm newline, single.1⟩

theorem exists_lines_before (text : List Char) :
    ∃ front line, text = closed front ++ line ∧ ∀ l ∈ front ++ [line], '\n' ∉ l := by
  obtain ⟨first, later, rfl, single⟩ := exists_lines text
  obtain ⟨front, line, whole⟩ := List.eq_nil_or_concat (first :: later) |>.resolve_left (by simp)
  rw [List.concat_eq_append] at whole
  refine ⟨front, line, ?_, whole ▸ single⟩
  rw [← intercalate_cons, whole, intercalate_append]
  simp

theorem reverse_closed (front : List (List Char)) :
    (closed front).reverse = opened (front.reverse.map List.reverse) := by
  rw [closed, opened, List.reverse_flatMap, List.flatMap_map]
  exact congrArg (List.flatMap · _) (funext fun line => List.reverse_append)

theorem reverse_opened (later : List (List Char)) :
    (opened later).reverse = closed (later.reverse.map List.reverse) := by
  rw [closed, opened, List.reverse_flatMap, List.flatMap_map]
  exact congrArg (List.flatMap · _) (funext fun line => List.reverse_cons)

/-! ## What the window takes of the lines -/

theorem takeLines_line (no_break : '\n' ∉ line) (margin : Nat) (rest : List Char) :
    takeLines margin (line ++ rest) = line ++ takeLines margin rest := by
  induction line with
  | nil => rfl
  | cons ch line ih =>
    rw [List.mem_cons, not_or] at no_break
    cases margin <;>
      simp only [List.cons_append, takeLines, if_neg (Ne.symm no_break.1), ih no_break.2]

theorem takeLines_opened (single : ∀ l ∈ later, '\n' ∉ l) (margin : Nat) :
    takeLines margin (opened later) = opened (later.take margin) := by
  induction later generalizing margin with
  | nil => cases margin <;> rfl
  | cons line later ih =>
    rw [List.forall_mem_cons] at single
    cases margin with
    | zero => rfl
    | succ margin =>
      change '\n' :: takeLines margin (line ++ opened later) = _
      rw [takeLines_line single.1, ih single.2]
      rfl

theorem takeLines_reverse_closed (single : ∀ l ∈ front, '\n' ∉ l) (margin : Nat) :
    (takeLines margin (closed front).reverse).reverse = closed (front.drop (front.length - margin)) := by
  have reversed : ∀ l ∈ front.reverse.map List.reverse, '\n' ∉ l := by
    intro l member
    obtain ⟨line, known, rfl⟩ := List.mem_map.1 member
    rw [List.mem_reverse]
    exact single line (List.mem_reverse.1 known)
  rw [reverse_closed, takeLines_opened reversed, reverse_opened, ← List.map_take, List.take_reverse]
  simp only [List.map_reverse, List.reverse_reverse, List.map_map, Function.comp_def, List.map_id']

end Breaks

/-! ## The lines around a place -/

/-- What is taken of a text by `split`: characters that start before the offset, and all of these. -/
theorem split_spec (before text : List Char) (offset : Nat) :
    ∃ taken rest, text = taken ++ rest ∧ split before offset text = (taken.reverse ++ before, rest) ∧
      min offset (byteLength text) ≤ byteLength taken ∧
      ∀ front ch later, taken = front ++ ch :: later → byteLength front < offset := by
  induction text generalizing before offset with
  | nil => cases offset <;> exact ⟨[], [], rfl, rfl, by simp, by simp⟩
  | cons ch text ih =>
    cases offset with
    | zero => exact ⟨[], ch :: text, rfl, rfl, by simp, by simp⟩
    | succ offset =>
      obtain ⟨taken, rest, rfl, cut, upper, lower⟩ := ih (ch :: before) (offset + 1 - ch.utf8Size)
      refine ⟨ch :: taken, rest, rfl, ?_, ?_, ?_⟩
      · rw [split, cut, List.reverse_cons, List.append_assoc]
        rfl
      · simp only [byteLength_cons]
        omega
      · intro front last later whole
        cases front with
        | nil => exact Nat.succ_pos _
        | cons first front =>
          obtain ⟨rfl, rfl⟩ := List.cons.inj whole
          have := lower front last later rfl
          simp only [byteLength_cons]
          omega

/-- A source around an offset: the lines before the one of the place, that line in two parts, and the
lines behind it. -/
structure Lines (source : List Char) (offset : Nat) (front : List (List Char)) (x y : List Char)
    (later : List (List Char)) : Prop where
  whole : source = closed front ++ ((x ++ y) ++ opened later)
  single : ∀ l ∈ front ++ (x ++ y) :: later, '\n' ∉ l
  split : split [] offset source = ((closed front ++ x).reverse, y ++ opened later)
  lower : byteLength (closed front) ≤ min offset (byteLength source)
  upper : min offset (byteLength source) ≤ byteLength (closed front ++ (x ++ y))

theorem exists_lines_around (source : List Char) (offset : Nat) :
    ∃ front x y later, Lines source offset front x y later := by
  obtain ⟨taken, rest, rfl, cut, upper, lower⟩ := split_spec [] source offset
  obtain ⟨front, x, rfl, before⟩ := exists_lines_before taken
  obtain ⟨y, later, rfl, behind⟩ := exists_lines rest
  refine ⟨front, x, y, later, ⟨by simp, ?_, by simpa using cut, ?_, ?_⟩⟩
  · simp only [List.mem_append, List.mem_cons, List.not_mem_nil, or_false] at before behind ⊢
    rintro l (member | rfl | member)
    · exact before l (.inl member)
    · rw [List.mem_append, not_or]
      exact ⟨before x (.inr rfl), behind y (.inl rfl)⟩
    · exact behind l (.inr member)
  · refine Nat.le_min.2 ⟨?_, by simp [byteLength_append]⟩
    obtain rfl | ⟨front, line, rfl⟩ := List.eq_nil_or_concat front
    · exact Nat.zero_le _
    · have started := lower (closed front ++ line) '\n' x (by simp [closed_append])
      rwa [List.concat_eq_append, byteLength_closed_append_line, ← byteLength_append]
  · simp only [byteLength_append] at upper ⊢
    omega

/-! ## The octets around a place -/

theorem newline_notMem_encode {text : List Char} (no_break : '\n' ∉ text) : 0x0A ∉ encode text := by
  intro member
  obtain ⟨front, back, whole⟩ := List.append_of_mem member
  obtain ⟨before, after, rfl, -⟩ := encode_cut_char '\n' whole (by decide) rfl
  exact no_break (List.mem_append_right _ List.mem_cons_self)

theorem encode_closed_append_line (front : List (List Char)) (line : List Char) :
    encode (closed (front ++ [line])) = encode (closed front) ++ (encode line ++ [0x0A]) := by
  simp only [closed_append, closed_cons, closed_nil, encode_append]
  rfl

section Octets

variable {octets w rest : List UInt8} {front later : List (List Char)} {text : List Char}

theorem findIdx?_newline (no_break : 0x0A ∉ w) : w.findIdx? (· == 0x0A) = none := by
  rw [List.findIdx?_eq_none_iff]
  intro b member
  exact beq_eq_false_iff_ne.2 fun same => no_break (same ▸ member)

theorem lineStart?_eq (whole : octets = encode (closed front) ++ (w ++ rest)) (no_break : 0x0A ∉ w) :
    lineStart? octets (byteLength (closed front) + w.length) = some (byteLength (closed front)) := by
  have inside : byteLength (closed front) + w.length ≤ octets.length := by
    simp [whole]
  have before : octets.take (byteLength (closed front) + w.length) = encode (closed front) ++ w := by
    rw [whole, ← List.append_assoc, List.take_left' (by simp)]
  have none_in : w.reverse.findIdx? (· == 0x0A) = none := findIdx?_newline (by simpa using no_break)
  rw [lineStart?, if_pos inside, before, List.reverse_append, List.findIdx?_append, none_in]
  obtain rfl | ⟨front, line, rfl⟩ := List.eq_nil_or_concat front
  · rfl
  · have last : (encode (closed (front.concat line))).reverse =
        0x0A :: (encode (closed front ++ line)).reverse := by
      simp [closed_append, encode_append]
      rfl
    rw [last, List.findIdx?_cons]
    simp

theorem lineStop?_eq {a : List UInt8} (whole : octets = a ++ (w ++ encode (opened later)))
    (no_break : 0x0A ∉ w) : lineStop? octets a.length = some (a.length + w.length) := by
  have inside : a.length ≤ octets.length := by simp [whole]
  have behind : octets.drop a.length = w ++ encode (opened later) := by rw [whole, List.drop_left]
  rw [lineStop?, if_pos inside, behind, List.findIdx?_append, findIdx?_newline no_break]
  cases later with
  | nil => simp [whole]
  | cons line later =>
    have first : encode (opened (line :: later)) = 0x0A :: encode (line ++ opened later) := rfl
    rw [first, List.findIdx?_cons]
    simp [Nat.add_comm]

/-- A step back takes a line off those that end at the place. -/
theorem back?_eq (single : ∀ l ∈ front, '\n' ∉ l) (whole : octets = encode (closed front) ++ rest)
    (margin : Nat) : back? octets margin (byteLength (closed front)) =
      some (byteLength (closed (front.take (front.length - margin)))) := by
  induction margin generalizing front rest with
  | zero => simp [back?]
  | succ margin ih =>
    obtain rfl | ⟨front, line, rfl⟩ := List.eq_nil_or_concat front
    · simp [back?]
    · rw [List.concat_eq_append] at single whole ⊢
      rw [encode_closed_append_line, List.append_assoc, List.append_assoc] at whole
      rw [List.forall_mem_append, List.forall_mem_singleton] at single
      have step := lineStart?_eq whole (newline_notMem_encode single.2)
      rw [length_encode] at step
      rw [byteLength_closed_append_line, back?, if_neg (Nat.succ_ne_zero _), Nat.ppred_succ]
      have shorter : (front ++ [line]).take (front.length - margin) = front.take (front.length - margin) :=
        List.take_append_of_le_length (Nat.sub_le _ _)
      simp [step, ih single.1 whole, shorter]

/-- A step ahead adds a line to what ends at the place. -/
theorem ahead?_eq {a : List UInt8} (single : ∀ l ∈ later, '\n' ∉ l)
    (whole : octets = a ++ encode (opened later)) (margin : Nat) :
    ahead? octets margin a.length = some (a.length + byteLength (opened (later.take margin))) := by
  induction margin generalizing a later with
  | zero => simp [ahead?]
  | succ margin ih =>
    cases later with
    | nil => simp [ahead?, whole]
    | cons line later =>
      rw [List.forall_mem_cons] at single
      have parted : octets = (a ++ [0x0A]) ++ (encode line ++ encode (opened later)) := by
        rw [whole, opened_cons, encode_append, List.append_assoc]
        rfl
      have inside : ¬ octets.length ≤ a.length := by simp [parted]
      have step := lineStop?_eq parted (newline_notMem_encode single.1)
      have behind := ih (a := (a ++ [0x0A]) ++ encode line) single.2 (by simp [parted])
      rw [List.length_append, length_encode] at behind
      rw [List.length_append, List.length_singleton] at step behind
      rw [length_encode] at step
      rw [ahead?, if_neg inside, step]
      refine behind.trans (congrArg some ?_)
      have size : '\n'.utf8Size = 1 := rfl
      simp only [List.take_succ_cons, opened_cons, List.cons_append, byteLength_cons, byteLength_append]
      omega

end Octets

theorem count_encode_closed {front : List (List Char)} (single : ∀ l ∈ front, '\n' ∉ l) :
    (encode (closed front)).count 0x0A = front.length := by
  induction front with
  | nil => rfl
  | cons line front ih =>
    rw [List.forall_mem_cons] at single
    have whole : encode (closed (line :: front)) = encode line ++ 0x0A :: encode (closed front) := by
      rw [closed_cons, encode_append]
      rfl
    rw [whole, List.count_append, List.count_eq_zero_of_not_mem (newline_notMem_encode single.1),
      List.count_cons_self, ih single.2, Nat.zero_add, List.length_cons]

namespace Lines

variable {source : List Char} {offset : Nat} {front later : List (List Char)} {x y : List Char}

theorem around_eq (h : Lines source offset front x y later) (margin : Nat) :
    around source offset margin = closed (front.drop (front.length - margin)) ++
      ((x ++ y) ++ opened (later.take margin)) := by
  have single := h.single
  simp only [List.mem_append, List.mem_cons] at single
  have no_break : '\n' ∉ x ++ y := single _ (.inr (.inl rfl))
  rw [List.mem_append, not_or] at no_break
  have before := takeLines_reverse_closed (fun l member => single l (.inl member)) margin
  have behind := takeLines_opened (fun l member => single l (.inr (.inr member))) margin
  have x_single : '\n' ∉ x.reverse := by simpa using no_break.1
  rw [around, h.split, List.reverse_append]
  simp only [takeLines_line x_single, takeLines_line no_break.2, List.reverse_append, List.reverse_reverse,
    before, behind, List.append_assoc]

/-- The octets of a source around the place: it cuts those of its line, maybe inside a character. -/
theorem octets_eq (h : Lines source offset front x y later) :
    ∃ u v, encode source = encode (closed front) ++ (u ++ (v ++ encode (opened later))) ∧
      u ++ v = encode (x ++ y) ∧ 0x0A ∉ u ∧ 0x0A ∉ v ∧
      min offset (byteLength source) = byteLength (closed front) + u.length := by
  have no_break : 0x0A ∉ encode (x ++ y) := newline_notMem_encode (h.single _ (by simp))
  have upper := h.upper
  rw [byteLength_append] at upper
  generalize within : min offset (byteLength source) - byteLength (closed front) = n
  refine ⟨(encode (x ++ y)).take n, (encode (x ++ y)).drop n, ?_, List.take_append_drop _ _, ?_, ?_, ?_⟩
  · rw [← List.append_assoc ((encode (x ++ y)).take n), List.take_append_drop]
    exact (congrArg encode h.whole).trans (by rw [encode_append, encode_append])
  · exact fun member => no_break (List.mem_of_mem_take member)
  · exact fun member => no_break (List.mem_of_mem_drop member)
  · have := h.lower
    rw [List.length_take, length_encode]
    omega

theorem extent?_eq (h : Lines source offset front x y later) (margin : Nat) :
    extent? source offset margin = some (byteLength (closed (front.take (front.length - margin))),
      byteLength (closed front) + byteLength (x ++ y) + byteLength (opened (later.take margin))) := by
  obtain ⟨u, v, whole, parts, u_single, v_single, place⟩ := h.octets_eq
  have before : encode source = (encode (closed front) ++ u) ++ (v ++ encode (opened later)) := by
    rw [whole, List.append_assoc]
  have behind : encode source = (encode (closed front) ++ encode (x ++ y)) ++ encode (opened later) := by
    rw [whole, ← parts]
    simp only [List.append_assoc]
  have start := lineStart?_eq whole u_single
  have stop := lineStop?_eq before v_single
  have back := back?_eq (fun l member => h.single l (List.mem_append_left _ member)) whole margin
  have ahead := ahead?_eq (fun l member => h.single l (by simp [member])) behind margin
  have line : byteLength (x ++ y) = u.length + v.length := by
    rw [← length_encode, ← parts, List.length_append]
  rw [List.length_append, length_encode] at stop
  rw [List.length_append, length_encode, length_encode, line, ← Nat.add_assoc] at ahead
  simp only [extent?, length_encode, place]
  simp [start, stop, back, ahead, line, ← Nat.add_assoc]

theorem splitOn_eq (h : Lines source offset front x y later) :
    source.splitOn '\n' = front ++ (x ++ y) :: later := by
  rw [h.whole, ← intercalate_append]
  exact List.splitOn_intercalate '\n' h.single (by simp)

/-- The place has as many line breaks before it as there are lines before its own. -/
theorem count_breaks (h : Lines source offset front x y later) :
    ((encode source).take (min offset (byteLength source))).count 0x0A = front.length := by
  obtain ⟨u, v, whole, -, u_single, -, place⟩ := h.octets_eq
  have before : (encode source).take (min offset (byteLength source)) = encode (closed front) ++ u := by
    rw [whole, ← List.append_assoc, place, List.take_left' (by simp)]
  rw [before, List.count_append, List.count_eq_zero_of_not_mem u_single]
  exact count_encode_closed fun l member => h.single l (List.mem_append_left _ member)

theorem slices (h : Lines source offset front x y later) (margin : Nat) :
    Slices source (around source offset margin) (byteLength (closed (front.take (front.length - margin))))
      (byteLength (closed front) + byteLength (x ++ y) + byteLength (opened (later.take margin))) := by
  have before : closed front = closed (front.take (front.length - margin)) ++
      closed (front.drop (front.length - margin)) := by
    rw [← closed_append, List.take_append_drop]
  have behind : opened later = opened (later.take margin) ++ opened (later.drop margin) := by
    rw [← opened_append, List.take_append_drop]
  refine ⟨closed (front.take (front.length - margin)), opened (later.drop margin), ?_, rfl, ?_⟩
  · rw [h.around_eq]
    refine h.whole.trans ?_
    rw [before, behind]
    simp only [List.append_assoc]
  · rw [h.around_eq, ← List.append_assoc, ← before, byteLength_append, byteLength_append, Nat.add_assoc]

/-- The lines of the window, by their numbers. -/
theorem take_drop_eq (margin : Nat) (line : List Char) :
    let last := (front ++ line :: later).length - 1
    ((front ++ line :: later).take (min last (front.length + margin) + 1)).drop (front.length - margin) =
      front.drop (front.length - margin) ++ line :: later.take margin := by
  intro last
  have number : min last (front.length + margin) + 1 = front.length + (min margin later.length + 1) := by
    have size : last = front.length + later.length := by simp [last]
    omega
  rw [number, List.take_length_add_append, List.take_succ_cons, ← List.take_eq_take_min]
  exact List.drop_append_of_le_length (Nat.sub_le _ _)

theorem infix_around (h : Lines source offset front x y later) (margin more : Nat) :
    around source offset margin <:+: around source offset (margin + more) := by
  obtain ⟨above, before⟩ : front.drop (front.length - margin) <:+
      front.drop (front.length - (margin + more)) := List.drop_suffix_drop_left front (by omega)
  obtain ⟨below, behind⟩ : later.take margin <+: later.take (margin + more) :=
    List.take_prefix_take_left (Nat.le_add_right _ _)
  refine ⟨closed above, opened below, ?_⟩
  rw [h.around_eq, h.around_eq, ← before, ← behind, closed_append, opened_append]
  simp only [List.append_assoc]

end Lines

theorem byteLength_mono {a b : List Char} (h : a <+: b) : byteLength a ≤ byteLength b := by
  obtain ⟨rest, rfl⟩ := h
  rw [byteLength_append]
  exact Nat.le_add_right _ _

theorem closed_take_mono {j k : Nat} (h : j ≤ k) (front : List (List Char)) :
    closed (front.take j) <+: closed (front.take k) := by
  obtain ⟨rest, whole⟩ : front.take j <+: front.take k := List.take_prefix_take_left h
  exact ⟨closed rest, by rw [← whole, closed_append]⟩

theorem opened_take_mono {j k : Nat} (h : j ≤ k) (later : List (List Char)) :
    opened (later.take j) <+: opened (later.take k) := by
  obtain ⟨rest, whole⟩ : later.take j <+: later.take k := List.take_prefix_take_left h
  exact ⟨opened rest, by rw [← whole, opened_append]⟩

/-- For every source, offset and margin, each step looks at octets that the source has, and the window is
the stretch from the first place to the second: it covers the offset, and is made of the lines around the
one of the offset. A greater margin moves the first place back and the second ahead, if at all. -/
theorem around_lines (source : List Char) (offset margin : Nat) :
    let place := min offset (byteLength source)
    let lines := source.splitOn '\n'
    let i := ((encode source).take place).count 0x0A
    (∃ start stop, extent? source offset margin = some (start, stop) ∧
      Slices source (around source offset margin) start stop ∧
      start ≤ place ∧ place ≤ stop ∧ stop ≤ byteLength source ∧
      ∀ more, ∃ start' stop', extent? source offset (margin + more) = some (start', stop') ∧
        start' ≤ start ∧ stop ≤ stop') ∧
    around source offset margin =
      ['\n'].intercalate ((lines.take (min (lines.length - 1) (i + margin) + 1)).drop (i - margin)) ∧
    ∀ more, around source offset margin <:+: around source offset (margin + more) := by
  intro place lines i
  obtain ⟨front, x, y, later, h⟩ := exists_lines_around source offset
  have count : i = front.length := h.count_breaks
  have split : lines = front ++ (x ++ y) :: later := h.splitOn_eq
  have upper := h.upper
  rw [byteLength_append] at upper
  refine ⟨⟨_, _, h.extent?_eq margin, h.slices margin, ?_, ?_, ?_, fun more =>
    ⟨_, _, h.extent?_eq (margin + more), ?_, ?_⟩⟩, ?_, h.infix_around margin⟩
  · have before := closed_take_mono (Nat.sub_le front.length margin) front
    rw [List.take_length] at before
    exact Nat.le_trans (byteLength_mono before) h.lower
  · exact Nat.le_add_right_of_le upper
  · exact (h.slices margin).stop_le
  · exact byteLength_mono (closed_take_mono (by omega) front)
  · exact Nat.add_le_add_left (byteLength_mono (opened_take_mono (Nat.le_add_right _ _) later)) _
  · rw [split, count, Lines.take_drop_eq, intercalate_append, h.around_eq]

end Window
end LambdaTally
