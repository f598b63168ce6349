import LambdaTally.Proofs.Pattern.Matches
import Mathlib.Data.List.Basic

/-!
# LambdaTally.Proofs.Pattern.Context

A pattern that never takes a separator sees nothing past it. `Place.within` puts a text between two
separators; the ends of such a pattern are the same there, moved along (`ends_within`), and so are
its matches. `matchesIn_append` puts this together for a text that a separator cuts in two.
-/

namespace LambdaTally

open Utf8

/-- What stands around a text: how many octets are in front of it, the last character there, and
the text behind it. On either side there is the separator or nothing. -/
structure Surroundings (separator : Char) where
  skipped : Nat
  before : Option Char
  behind : List Char
  before_eq : before = none ∨ before = some separator
  behind_eq : behind.head? = none ∨ behind.head? = some separator

variable {separator : Char}

namespace Place

/-- The same place when its text stands among others. -/
def within (s : Surroundings separator) (p : Place) : Place :=
  ⟨p.offset + s.skipped, p.previous.or s.before, p.rest ++ s.behind⟩

variable (s : Surroundings separator) {p q : Place} {ch : Char}

theorem next?_within (h : p.next? = some (ch, q)) :
    (p.within s).next? = some (ch, q.within s) := by
  obtain ⟨rest, hr, rfl⟩ := next?_eq_some_iff.1 h
  refine next?_eq_some_iff.2 ⟨rest ++ s.behind, by simp [within, hr], ?_⟩
  simp [within, Nat.add_right_comm]

theorem rest_of_next?_eq_none (h : p.next? = none) : p.rest = [] := by
  unfold next? at h
  split at h
  · assumption
  · cases h

/-- At the end of the text the separator comes next, if anything does. -/
theorem eq_separator (h : p.next? = none) (hn : (p.within s).next? = some (ch, q)) :
    ch = separator := by
  obtain ⟨rest, hr, -⟩ := next?_eq_some_iff.1 hn
  have behind : s.behind = ch :: rest := by simpa [within, rest_of_next?_eq_none h] using hr
  rcases s.behind_eq with none_there | separated
  · rw [behind] at none_there
    cases none_there
  · rw [behind] at separated
    exact Option.some.inj separated

theorem atBoundary_within (border : CharClass.isWordChar separator = false) :
    (p.within s).atBoundary = p.atBoundary := by
  have before : (p.previous.or s.before).any CharClass.isWordChar =
      p.previous.any CharClass.isWordChar := by
    cases p.previous with
    | some last => rfl
    | none => rcases s.before_eq with h | h <;> simp [h, border]
  have behind : (p.rest ++ s.behind).head?.any CharClass.isWordChar =
      p.rest.head?.any CharClass.isWordChar := by
    cases p.rest with
    | cons next rest => rfl
    | nil => rcases s.behind_eq with h | h <;> simp [h, border]
  unfold atBoundary
  rw [within, before, behind]

theorem length_within_lt_iff :
    (q.within s).rest.length < (p.within s).rest.length ↔ q.rest.length < p.rest.length := by
  simp [within]

end Place

namespace Pattern

/-- The pattern never takes the character. -/
def avoids (ch : Char) : Pattern → Bool
  | literal text => !text.contains ch
  | blank => !CharClass.isBlank ch
  | boundary => true
  | noneOf excluded => excluded.contains ch
  | seq p q => p.avoids ch && q.avoids ch
  | either p q => p.avoids ch && q.avoids ch
  | group p => p.avoids ch
  | optional p => p.avoids ch
  | many p => p.avoids ch
  | few p => p.avoids ch

section Within

variable (s : Surroundings separator) {p q : Place}

theorem afterChar?_within {test : Char → Bool} (h : test separator = false) :
    afterChar? test (p.within s) = (afterChar? test p).map (·.within s) := by
  cases hn : p.next? with
  | some r =>
    obtain ⟨ch, q⟩ := r
    simp only [afterChar?, hn, Place.next?_within s hn]
    split <;> rfl
  | none =>
    cases hs : (p.within s).next? with
    | none => simp [afterChar?, hn, hs]
    | some r =>
      obtain ⟨ch, q⟩ := r
      obtain rfl := Place.eq_separator s hn hs
      simp [afterChar?, hn, hs, h]

theorem afterLiteral?_within {text : List Char} (h : separator ∉ text) :
    afterLiteral? text (p.within s) = (afterLiteral? text p).map (·.within s) := by
  induction text generalizing p with
  | nil => rfl
  | cons ch text ih =>
    rw [List.mem_cons, not_or] at h
    cases hn : p.next? with
    | some r =>
      obtain ⟨found, q⟩ := r
      simp only [afterLiteral?, hn, Place.next?_within s hn]
      split
      · exact ih h.2
      · rfl
    | none =>
      cases hs : (p.within s).next? with
      | none => simp [afterLiteral?, hn, hs]
      | some r =>
        obtain ⟨found, q⟩ := r
        obtain rfl := Place.eq_separator s hn hs
        simp [afterLiteral?, hn, hs, h.1]

theorem greedyEnds_within {step : Place → List Place}
    (h : ∀ p, step (p.within s) = (step p).map (·.within s)) :
    greedyEnds step (p.within s) = (greedyEnds step p).map (·.within s) := by
  fun_induction greedyEnds step p with
  | case1 p ih =>
    rw [greedyEnds, h, List.flatMap_map, List.map_append, List.map_flatMap]
    congr 1
    refine List.flatMap_congr fun q _ => ?_
    by_cases lt : q.rest.length < p.rest.length
    · rw [dif_pos lt, dif_pos ((Place.length_within_lt_iff s).2 lt), ih q lt]
    · rw [dif_neg lt, dif_neg fun k => lt ((Place.length_within_lt_iff s).1 k)]
      rfl

theorem lazyEnds_within {step : Place → List Place}
    (h : ∀ p, step (p.within s) = (step p).map (·.within s)) :
    lazyEnds step (p.within s) = (lazyEnds step p).map (·.within s) := by
  fun_induction lazyEnds step p with
  | case1 p ih =>
    rw [lazyEnds, h, List.flatMap_map, List.map_cons, List.map_flatMap]
    congr 1
    refine List.flatMap_congr fun q _ => ?_
    by_cases lt : q.rest.length < p.rest.length
    · rw [dif_pos lt, dif_pos ((Place.length_within_lt_iff s).2 lt), ih q lt]
    · rw [dif_neg lt, dif_neg fun k => lt ((Place.length_within_lt_iff s).1 k)]
      rfl

variable {pattern : Pattern} (border : CharClass.isWordChar separator = false)
  (h : pattern.avoids separator = true)

include border h

theorem ends_within (p : Place) :
    pattern.ends (p.within s) = (pattern.ends p).map (·.within s) := by
  induction pattern generalizing p with
  | literal text =>
    have apart : separator ∉ text := by simpa [avoids] using h
    rw [ends, ends, afterLiteral?_within s apart]
    cases afterLiteral? text p <;> rfl
  | blank =>
    have apart : CharClass.isBlank separator = false := by simpa [avoids] using h
    rw [ends, ends, afterChar?_within s apart]
    cases afterChar? CharClass.isBlank p <;> rfl
  | boundary =>
    rw [ends, ends, Place.atBoundary_within s border]
    split <;> rfl
  | noneOf excluded =>
    have apart : (!excluded.contains separator) = false := by simpa [avoids] using h
    rw [ends, ends, afterChar?_within s apart]
    cases afterChar? (fun ch => !excluded.contains ch) p <;> rfl
  | seq a b iha ihb =>
    obtain ⟨ha, hb⟩ : a.avoids separator = true ∧ b.avoids separator = true := by
      simpa [avoids] using h
    rw [ends, ends, iha ha, List.flatMap_map, List.map_flatMap]
    exact List.flatMap_congr fun q _ => ihb hb q
  | either a b iha ihb =>
    obtain ⟨ha, hb⟩ : a.avoids separator = true ∧ b.avoids separator = true := by
      simpa [avoids] using h
    rw [ends, ends, iha ha, ihb hb, List.map_append]
  | group a ih => exact ih h p
  | optional a ih =>
    rw [ends, ends, ih h, List.map_append]
    rfl
  | many a ih => exact greedyEnds_within s (ih h)
  | few a ih => exact lazyEnds_within s (ih h)

theorem firstEnd?_within (p : Place) :
    pattern.firstEnd? (p.within s) = (pattern.firstEnd? p).map (·.within s) := by
  unfold firstEnd?
  rw [ends_within s border h, List.head?_map, Option.filter_map]
  congr 2
  funext q
  simp [Place.length_within_lt_iff]

end Within

/-! ## Matches -/

section Matches

variable {pattern : Pattern} {p q : Place} {ch : Char}

theorem matchesFrom_of_firstEnd? (h : pattern.firstEnd? p = some q) :
    pattern.matchesFrom p = (p.offset, q.offset) :: pattern.matchesFrom q := by
  rw [matchesFrom]
  split
  · rename_i r found
    rw [h] at found
    cases found
    rfl
  · rename_i none_here
    rw [h] at none_here
    cases none_here

theorem matchesFrom_of_next? (h : pattern.firstEnd? p = none) (hn : p.next? = some (ch, q)) :
    pattern.matchesFrom p = pattern.matchesFrom q := by
  rw [matchesFrom]
  split
  · rename_i r found
    rw [h] at found
    cases found
  · split
    · rename_i next
      rw [hn] at next
      cases next
      rfl
    · rename_i at_end
      rw [hn] at at_end
      cases at_end

/-- At the end of a text nothing is left to take. -/
theorem firstEnd?_of_rest_eq_nil (h : p.rest = []) : pattern.firstEnd? p = none := by
  refine Option.filter_eq_none_iff.2 fun q _ => ?_
  simp [h]

theorem matchesFrom_of_rest_eq_nil (h : p.rest = []) : pattern.matchesFrom p = [] := by
  have at_end : p.next? = none := by simp [Place.next?, h]
  rw [matchesFrom]
  split
  · rename_i found
    rw [firstEnd?_of_rest_eq_nil h] at found
    cases found
  · split
    · rename_i next
      rw [at_end] at next
      cases next
    · rfl

variable (s : Surroundings separator) (border : CharClass.isWordChar separator = false)
  (h : pattern.avoids separator = true)

include border h

/-- The matches of a text that stands among others are its own, moved along, and those from its
end on. -/
theorem matchesFrom_within {text : List Char} (hq : p.Spans text q) (at_end : q.rest = []) :
    pattern.matchesFrom (p.within s) =
      (pattern.matchesFrom p).map (fun m => (m.1 + s.skipped, m.2 + s.skipped)) ++
        pattern.matchesFrom (q.within s) := by
  fun_induction matchesFrom pattern p generalizing text with
  | case1 p r found ih =>
    obtain ⟨taken, hr⟩ := spans_of_mem_ends
      (mem_ends_of_firstEnd? found)
    have whole : text = taken ++ r.rest := by
      rw [← hr.rest_eq, hq.rest_eq, at_end, List.append_nil]
    rw [whole] at hq
    obtain ⟨r', hr', hmore⟩ := hq.split
    obtain rfl := hr.unique hr'
    rw [matchesFrom_of_firstEnd? (by rw [firstEnd?_within s border h, found]; rfl), ih hmore]
    rfl
  | case2 p none_here ch r next ih =>
    have later : pattern.matchesFrom (p.within s) = pattern.matchesFrom (r.within s) := by
      refine matchesFrom_of_next? ?_ (Place.next?_within s next)
      rw [firstEnd?_within s border h, none_here]
      rfl
    cases hq with
    | nil => simp [Place.next?, at_end] at next
    | cons hn hrest =>
      rw [next] at hn
      cases hn
      rw [later, ih hrest]
  | case3 p _ none_next =>
    cases hq with
    | nil => rfl
    | cons hn =>
      rw [none_next] at hn
      cases hn

/-- **A separator cuts the matches of a text in two.** -/
theorem matchesIn_append (a b : List Char) :
    pattern.matchesIn (a ++ separator :: b) =
      pattern.matchesIn a ++ (pattern.matchesIn b).map fun m =>
        (m.1 + (byteLength a + separator.utf8Size), m.2 + (byteLength a + separator.utf8Size)) := by
  let left : Surroundings separator := ⟨0, none, separator :: b, .inl rfl, .inr rfl⟩
  let right : Surroundings separator :=
    ⟨byteLength a + separator.utf8Size, some separator, [], .inr rfl, .inl rfl⟩
  obtain ⟨q, hq, hrest⟩ := Place.exists_end a
  obtain ⟨r, hr, hrest'⟩ := Place.exists_end b
  have cut : (q.within left).next? = some (separator, (Place.ofText b).within right) := by
    refine Place.next?_eq_some_iff.2 ⟨b, by simp [Place.within, left, hrest], ?_⟩
    simp [Place.within, Place.ofText, left, right, hq.offset_eq]
  have no_end : pattern.firstEnd? (q.within left) = none := by
    rw [firstEnd?_within left border h, firstEnd?_of_rest_eq_nil hrest]
    rfl
  calc pattern.matchesIn (a ++ separator :: b)
      = pattern.matchesFrom ((Place.ofText a).within left) := rfl
    _ = (pattern.matchesIn a).map (fun m => (m.1 + 0, m.2 + 0)) ++
          pattern.matchesFrom (q.within left) := matchesFrom_within left border h hq hrest
    _ = pattern.matchesIn a ++ pattern.matchesFrom ((Place.ofText b).within right) := by
      rw [matchesFrom_of_next? no_end cut]
      simp
    _ = pattern.matchesIn a ++ ((pattern.matchesIn b).map (fun m =>
          (m.1 + right.skipped, m.2 + right.skipped)) ++ pattern.matchesFrom (r.within right)) :=
      congrArg _ (matchesFrom_within right border h hr hrest')
    _ = _ := by
      have nothing : (r.within right).rest = [] := by simp [Place.within, right, hrest']
      rw [matchesFrom_of_rest_eq_nil nothing, List.append_nil]

end Matches

end Pattern
end LambdaTally
