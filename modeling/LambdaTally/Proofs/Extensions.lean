import LambdaTally.CommandLine.Arguments
import LambdaTally.Proofs.Text.Decoding
import Mathlib.Data.List.Forall2

/-!
# LambdaTally.Proofs.Extensions

What the spelling of an extension argument changes (`extension_arguments`). Neither the case of an
argument nor the dots in front of an extension to examine matter. An extension to exclude is taken as it
is written: without dots it refuses its files whatever is to be examined, and with a dot in front it
refuses none, because an extension has no dot in it (`Path.dot_not_mem_extensionText?`).
-/

namespace LambdaTally

open CharClass

variable {e e' x text : List Char} {extensions extensions' : List (List Char)} {path : Path}

/-- The extension of a path, if there is one that is text. -/
def Path.extensionText? (path : Path) : Option (List Char) := path.extension?.bind Utf8.decode?

/-- The same characters, in any ASCII case. -/
def SameLetters (e e' : List Char) : Prop := asciiLower e = asciiLower e'

instance (e e' : List Char) : Decidable (SameLetters e e') :=
  inferInstanceAs (Decidable (asciiLower e = asciiLower e'))

/-- Written with a dot in front. -/
def Dotted (e : List Char) : Prop := e.head? = some '.'

instance : DecidablePred Dotted := fun e => inferInstanceAs (Decidable (e.head? = some '.'))

/-- The same extension, each written with any number of dots in front and in any ASCII case. -/
def SameExtension (e e' : List Char) : Prop :=
  SameLetters (e.dropWhile (· == '.')) (e'.dropWhile (· == '.'))

instance (e e' : List Char) : Decidable (SameExtension e e') :=
  inferInstanceAs (Decidable (SameLetters _ _))

theorem SameExtension.of_not_dotted (h : SameExtension e e') (plain : ¬ Dotted e) (plain' : ¬ Dotted e') :
    SameLetters e e' := by
  have stays {e : List Char} (plain : ¬ Dotted e) : e.dropWhile (· == '.') = e := by
    cases e with
    | nil => rfl
    | cons ch rest =>
      have other : ch ≠ '.' := fun same => plain (by rw [same]; rfl)
      exact List.dropWhile_cons_of_neg (by simpa using other)
  rw [SameExtension, stays plain, stays plain'] at h
  exact h

/-! ## The dots of an extension -/

theorem eq_dot_of_toLower {ch : Char} (h : ch.toLower = '.') : ch = '.' := by
  unfold Char.toLower at h
  split at h
  · rename_i capital
    have code := congrArg (fun c : Char => c.val.toNat) h
    have least : 65 ≤ ch.val.toNat := capital.1
    have greatest : ch.val.toNat ≤ 90 := capital.2
    simp only [UInt32.toNat_add] at code
    change (ch.val.toNat + 32) % 4294967296 = 46 at code
    omega
  · exact h

/-- What has a dot in front is no text without dots. -/
theorem Dotted.not_sameLetters (dotted : Dotted e) (no_dot : '.' ∉ x) : ¬ SameLetters e x := by
  intro same
  cases e with
  | nil => cases dotted
  | cons ch rest =>
    obtain rfl : ch = '.' := Option.some.inj dotted
    cases x with
    | nil => cases same
    | cons first more =>
      have first_dot : '.' = first.toLower := (List.cons.inj same).1
      rw [eq_dot_of_toLower first_dot.symm] at no_dot
      exact no_dot List.mem_cons_self

namespace Path

theorem extensionText?_of_encode (h : path.extension? = some (Utf8.encode x)) :
    path.extensionText? = some x := by
  rw [extensionText?, h]
  exact Utf8.decode?_encode x

theorem dot_not_mem_extensionOf? {name after : List UInt8} (h : extensionOf? name = some after) :
    dot ∉ after := by
  unfold extensionOf? at h
  dsimp only at h
  split at h
  · cases h
  · cases h
    intro mem
    have kept := List.all_eq_true.1 List.all_takeWhile dot (List.mem_reverse.1 mem)
    simp at kept

theorem dot_not_mem_extensionText? (h : path.extensionText? = some x) : '.' ∉ x := by
  obtain ⟨octets, extension, decoded⟩ := Option.bind_eq_some_iff.1 h
  obtain ⟨name, -, after⟩ := Option.bind_eq_some_iff.1 extension
  intro mem
  exact dot_not_mem_extensionOf? after
    (Utf8.mem_of_mem_decode? decoded (by decide) (by decide) mem)

end Path

/-! ## What a filter accepts -/

namespace Filter

theorem names_eq_true_iff : names extensions x = true ↔ ∃ e ∈ extensions, SameLetters e x := by
  simp [names, SameLetters]

theorem accepts_of_none {f : Filter} (h : path.extensionText? = none) :
    f.accepts path = f.allow.isEmpty := by
  rw [accepts, show path.extension?.bind Utf8.decode? = none from h]

theorem accepts_of_some {f : Filter} (h : path.extensionText? = some x) :
    f.accepts path = (!names f.deny x && (f.allow.isEmpty || names f.allow x)) := by
  rw [accepts, show path.extension?.bind Utf8.decode? = some x from h]

/-- Lists that name the same extensions without dots make the same filter. -/
theorem accepts_congr {f f' : Filter} (empty : f.allow.isEmpty = f'.allow.isEmpty)
    (allow : ∀ x, '.' ∉ x → names f.allow x = names f'.allow x)
    (deny : ∀ x, '.' ∉ x → names f.deny x = names f'.deny x) (path : Path) :
    f.accepts path = f'.accepts path := by
  cases extension : path.extensionText? with
  | none => rw [accepts_of_none extension, accepts_of_none extension, empty]
  | some x =>
    have no_dot := Path.dot_not_mem_extensionText? extension
    rw [accepts_of_some extension, accepts_of_some extension, empty, allow x no_dot, deny x no_dot]

theorem names_congr
    (h : List.Forall₂ (fun e e' => SameLetters e x ↔ SameLetters e' x) extensions extensions') :
    names extensions x = names extensions' x := by
  induction h with
  | nil => rfl
  | cons same _ ih =>
    rw [names, names, List.any_cons, List.any_cons]
    congr 1
    exact Bool.eq_iff_iff.2 (by simpa [SameLetters] using same)

end Filter

namespace CommandLine

open LambdaTally.Filter

/-- The same arguments without the dotted ones among the extensions to exclude. -/
def Arguments.withoutDotted (a : Arguments) : Arguments :=
  { a with excludeExt := a.excludeExt.filter fun e => ¬ Dotted e }

theorem isEmpty_eq {l l' : List (List Char)} (h : List.Forall₂ SameExtension l l') :
    l.isEmpty = l'.isEmpty := by
  cases h with
  | nil => rfl
  | cons _ _ => rfl

theorem names_withoutDots {l l' : List (List Char)} (h : List.Forall₂ SameExtension l l') :
    names (l.map (·.dropWhile (· == '.'))) x = names (l'.map (·.dropWhile (· == '.'))) x := by
  refine names_congr ?_
  rw [List.forall₂_map_left_iff, List.forall₂_map_right_iff]
  refine h.imp fun e e' same => ?_
  rw [SameLetters, SameLetters, show asciiLower _ = asciiLower _ from same]

/-- With a dot in front, neither spelling is that of a text without dots; otherwise both are compared as
they stand. -/
theorem names_excluded {l l' : List (List Char)} (no_dot : '.' ∉ x)
    (h : List.Forall₂ (fun e e' => SameExtension e e' ∧ (Dotted e ↔ Dotted e')) l l') :
    names l x = names l' x := by
  refine names_congr (h.imp fun e e' ⟨same, dots⟩ => ?_)
  by_cases dotted : Dotted e
  · exact iff_of_false (dotted.not_sameLetters no_dot) ((dots.1 dotted).not_sameLetters no_dot)
  · have letters := same.of_not_dotted dotted fun dotted' => dotted (dots.2 dotted')
    rw [SameLetters, SameLetters, show asciiLower e = asciiLower e' from letters]

/-- A dotted argument names nothing. -/
theorem names_filter_not_dotted (no_dot : '.' ∉ x) (l : List (List Char)) :
    names (l.filter fun e => ¬ Dotted e) x = names l x := by
  rw [Bool.eq_iff_iff, names_eq_true_iff, names_eq_true_iff]
  constructor
  · rintro ⟨e, kept, same⟩
    exact ⟨e, List.mem_of_mem_filter kept, same⟩
  · rintro ⟨e, listed, same⟩
    have plain : ¬ Dotted e := fun dotted => dotted.not_sameLetters no_dot same
    exact ⟨e, List.mem_filter.2 ⟨listed, by simpa using plain⟩, same⟩

/-- The spelling of extension arguments. Two command lines that name the same extensions, in any case,
with or without dots in front, make filters that accept the same paths, if the same ones among the
extensions to exclude have a dot in front. An extension to exclude that has none keeps out all its files,
whatever is to be examined. One that has a dot in front keeps out none. -/
theorem extension_arguments (a a' : Arguments) (ext : List.Forall₂ SameExtension a.ext a'.ext)
    (exclude : List.Forall₂ (fun e e' => SameExtension e e' ∧ (Dotted e ↔ Dotted e'))
      a.excludeExt a'.excludeExt) (path : Path) :
    a.filter.accepts path = a'.filter.accepts path ∧
    (∀ e ∈ a.excludeExt, ¬ Dotted e → ∀ x, path.extensionText? = some x → SameExtension e x →
      a.filter.accepts path = false) ∧
    a.filter.accepts path = a.withoutDotted.filter.accepts path := by
  have empty := isEmpty_eq ext
  refine ⟨?_, ?_, ?_⟩
  · refine accepts_congr ?_ (fun x _ => ?_) (fun x no_dot => names_excluded no_dot exclude) path
    · simp only [Arguments.filter, empty]
      split <;> simp [empty]
    · simp only [Arguments.filter, empty]
      split
      · rfl
      · exact names_withoutDots ext
  · intro e listed plain x extension same
    have plain' : ¬ Dotted x := fun dotted =>
      dotted.not_sameLetters (Path.dot_not_mem_extensionText? extension) rfl
    have named : names a.filter.deny x = true :=
      names_eq_true_iff.2 ⟨e, listed, same.of_not_dotted plain plain'⟩
    rw [accepts_of_some extension, named]
    rfl
  · have empty : a.filter.allow.isEmpty = a.withoutDotted.filter.allow.isEmpty := rfl
    refine accepts_congr empty (fun x _ => rfl) (fun x no_dot => ?_) path
    exact (names_filter_not_dotted no_dot a.excludeExt).symm

/-- Here the extensions to examine are written in three ways. The dot in front of `hpp` keeps it from
being excluded. -/
theorem extension_arguments_spellings :
    let a := { Arguments.empty with
      ext := [".CC".toList, "hpp".toList], excludeExt := ["Cc".toList, ".hpp".toList] }
    let a' := { Arguments.empty with
      ext := ["cc".toList, "..HPP".toList], excludeExt := ["cC".toList, "..Hpp".toList] }
    (∀ path : Path, a.filter.accepts path = a'.filter.accepts path) ∧
      a.filter.accepts (.ofString "src/a.cc") = false ∧
      a.filter.accepts (.ofString "src/a.hpp") = true := by
  intro a a'
  have ext : List.Forall₂ SameExtension a.ext a'.ext :=
    .cons (by decide) (.cons (by decide) .nil)
  have exclude : List.Forall₂ (fun e e' => SameExtension e e' ∧ (Dotted e ↔ Dotted e'))
      a.excludeExt a'.excludeExt :=
    .cons ⟨by decide, by decide⟩ (.cons ⟨by decide, by decide⟩ .nil)
  refine ⟨fun path => (extension_arguments a a' ext exclude path).1, ?_, ?_⟩
  · have plain : ¬ Dotted "Cc".toList := by decide
    have extension : (Path.ofString "src/a.cc").extensionText? = some "cc".toList :=
      Path.extensionText?_of_encode (by decide)
    exact (extension_arguments a a' ext exclude _).2.1 _ List.mem_cons_self plain _ extension (by decide)
  · have extension : (Path.ofString "src/a.hpp").extensionText? = some "hpp".toList :=
      Path.extensionText?_of_encode (by decide)
    rw [accepts_of_some extension]
    decide

/-- A dot in front of an extension to exclude changes what is accepted. -/
theorem excluded_dot_accepted :
    ¬ ∀ a a' : Arguments, List.Forall₂ SameExtension a.ext a'.ext →
      List.Forall₂ SameExtension a.excludeExt a'.excludeExt →
      ∀ path : Path, a.filter.accepts path = a'.filter.accepts path := by
  intro same
  have both := same { Arguments.empty with excludeExt := [".cc".toList] }
    { Arguments.empty with excludeExt := ["cc".toList] } .nil (.cons (by decide) .nil) (.ofString "a.cc")
  have extension : (Path.ofString "a.cc").extensionText? = some "cc".toList :=
    Path.extensionText?_of_encode (by decide)
  rw [accepts_of_some extension, accepts_of_some extension] at both
  revert both
  decide

end CommandLine
end LambdaTally
