import LambdaTally.Files.Tree
import Mathlib.Data.List.Basic

/-!
# LambdaTally.Proofs.Files.Lookup

What a path leads to depends on its components alone. The steps that no component asks for stay where
they are, and can only make a look-up fail, where they ask for a directory and there is none. So two
spellings of one list of components that both lead somewhere lead to the same place
(`place_unique`), and what is read there is the same (`read_unique`).
-/

namespace LambdaTally

/-- A step that goes somewhere. -/
def Step.moves (s : Step) : Bool := s != stay

/-- The step that a component asks for. -/
def Component.step : Component → Step
  | parent => .up
  | name octets => .down octets
  | _ => .stay

namespace Path

theorem moves_stepOf (stretch : List UInt8) :
    [stepOf stretch].filter Step.moves =
      ((component? stretch).toList.map Component.step).filter Step.moves := by
  unfold component? stepOf
  cases stretch with
  | nil => rfl
  | cons b rest =>
    by_cases current : b :: rest = [dot]
    · simp [current, Step.moves]
    · by_cases parent : b :: rest = [dot, dot]
      · simp [parent, Component.step, dot]
      · simp [current, parent, Component.step]

/-- The moves of a path are those that its components ask for. -/
theorem moves_steps (p : Path) :
    p.steps.filter Step.moves = (p.components.map Component.step).filter Step.moves := by
  have stretches (l : List (List UInt8)) : (l.map stepOf).filter Step.moves =
      ((l.filterMap component?).map Component.step).filter Step.moves := by
    induction l with
    | nil => rfl
    | cons stretch l ih =>
      have front := moves_stepOf stretch
      rw [List.map_cons, ← List.singleton_append, List.filter_append, front, ih]
      cases named : component? stretch with
      | none => simp [named]
      | some component =>
        rw [List.filterMap_cons_some named, List.map_cons, ← List.singleton_append, List.filter_append]
        rfl
  rw [steps, components, stretches, List.map_append, List.filter_append]
  split
  · rfl
  · split <;> rfl
  · rfl

theorem splitSlashes_ne_nil (read octets : List UInt8) : splitSlashes read octets ≠ [] := by
  induction octets generalizing read with
  | nil => exact List.cons_ne_nil _ _
  | cons b octets ih =>
    rw [splitSlashes]
    split
    · exact List.cons_ne_nil _ _
    · exact ih _

theorem splitSlashes_cons_of_ne {read : List UInt8} (octets : List UInt8) (h : read ≠ []) :
    ∃ b more rest, splitSlashes read octets = (b :: more) :: rest := by
  induction octets generalizing read with
  | nil =>
    obtain ⟨b, more, reversed⟩ := List.exists_cons_of_ne_nil (List.reverse_ne_nil_iff.2 h)
    exact ⟨b, more, [], by rw [splitSlashes, reversed]⟩
  | cons c octets ih =>
    rw [splitSlashes]
    split
    · obtain ⟨b, more, reversed⟩ := List.exists_cons_of_ne_nil (List.reverse_ne_nil_iff.2 h)
      exact ⟨b, more, _, by rw [reversed]⟩
    · exact ih (List.cons_ne_nil _ _)

theorem root_not_mem (stretches : List (List UInt8)) :
    Component.root ∉ stretches.filterMap component? := by
  intro member
  obtain ⟨stretch, -, named⟩ := List.mem_filterMap.1 member
  unfold component? at named
  split at named
  · cases named
  · split at named
    · cases named
    · split at named <;> cases named

/-- A path is absolute exactly if its first component says so. -/
theorem isAbsolute_eq (p : Path) : p.isAbsolute = (p.components.head? == some .root) := by
  obtain ⟨octets⟩ := p
  cases octets with
  | nil => rfl
  | cons b rest =>
    by_cases first : b = slash
    · obtain ⟨stretch, rests, split⟩ := List.exists_cons_of_ne_nil (splitSlashes_ne_nil [] rest)
      simp [isAbsolute, components, splitSlashes, first, split]
    · obtain ⟨c, more, rests, split⟩ := splitSlashes_cons_of_ne rest (List.cons_ne_nil b [])
      have relative : isAbsolute ⟨b :: rest⟩ = false := by simp [isAbsolute, first]
      have rootless : Component.root ∉ components ⟨b :: rest⟩ := by
        intro member
        rw [components, splitSlashes, if_neg first, split] at member
        rcases List.mem_append.1 member with front | back
        · cases more with
          | nil => by_cases current : c = dot <;> simp [current] at front
          | cons d more => cases front
        · exact root_not_mem _ back
      rw [relative, eq_comm, beq_eq_false_iff_ne]
      exact fun head => rootless (List.mem_of_mem_head? head)

end Path

namespace FileTree

variable {root : Node} {jump : List FileName → List Step → Except SystemError (List FileName)}
  {links : Nat} {place : List FileName}

theorem takeSteps_stay {found : List FileName} {rest : List Step}
    (h : takeSteps root jump place (.stay :: rest) = .ok found) :
    takeSteps root jump place rest = .ok found := by
  rw [takeSteps] at h
  split at h
  · exact h
  · cases h

/-- A look-up that finds something goes on to its first move. -/
theorem exists_takeSteps_move {step : Step} {rest other : List Step} {found : List FileName}
    (moving : step.moves) (same : (step :: rest).filter Step.moves = other.filter Step.moves)
    (h : takeSteps root jump place other = .ok found) :
    ∃ rest', rest.filter Step.moves = rest'.filter Step.moves ∧
      takeSteps root jump place (step :: rest') = .ok found := by
  induction other with
  | nil => simp [moving] at same
  | cons first other ih =>
    cases goes : first.moves with
    | false =>
      have staying : first = .stay := by simpa [Step.moves] using goes
      subst staying
      exact ih (by simpa [goes] using same) (takeSteps_stay h)
    | true =>
      rw [List.filter_cons_of_pos moving, List.filter_cons_of_pos goes] at same
      obtain ⟨rfl, rests⟩ := List.cons.inj same
      exact ⟨other, rests, h⟩

/-- Steps that stay lead to where they start. -/
theorem takeSteps_still {steps : List Step} {found : List FileName}
    (still : steps.filter Step.moves = []) (h : takeSteps root jump place steps = .ok found) :
    found = place := by
  induction steps with
  | nil => exact (Except.ok.inj h).symm
  | cons first steps ih =>
    obtain ⟨stays, stills⟩ : first.moves = false ∧ steps.filter Step.moves = [] := by
      cases goes : first.moves <;> simp_all
    have staying : first = .stay := by simpa [Step.moves] using stays
    subst staying
    exact ih stills (takeSteps_stay h)

/-- Look-ups that make the same moves find the same, if they find something. -/
def Determined (look : List FileName → List Step → Except SystemError (List FileName)) : Prop :=
  ∀ place one other a b, one.filter Step.moves = other.filter Step.moves →
    look place one = .ok a → look place other = .ok b → a = b

theorem takeSteps_determined (behind : Determined jump) : Determined (takeSteps root jump) := by
  intro place one other a b same h h'
  fun_induction takeSteps root jump place one generalizing other with
  | case1 place =>
    rw [takeSteps_still same.symm h']
    exact (Except.ok.inj h).symm
  | case2 place rest entries directory ih => exact ih other same h h'
  | case3 place rest entries directory ih =>
    obtain ⟨rest', rests, goes⟩ := exists_takeSteps_move rfl same h'
    rw [takeSteps, directory] at goes
    exact ih rest' rests h goes
  | case4 => cases h
  | case5 => cases h
  | case6 place rest entries directory name short target link =>
    obtain ⟨rest', rests, goes⟩ := exists_takeSteps_move rfl same h'
    rw [takeSteps, directory] at goes
    simp only [short, if_false, link] at goes
    refine behind _ _ _ a b ?_ h goes
    rw [List.filter_append, List.filter_append, rests]
  | case7 place rest entries directory name short node plain found ih =>
    obtain ⟨rest', rests, goes⟩ := exists_takeSteps_move rfl same h'
    rw [takeSteps, directory] at goes
    simp only [short, if_false, found] at goes
    exact ih rest' rests h goes
  | case8 => cases h

theorem follow_determined (root : Node) (links : Nat) : Determined (follow root links) := by
  induction links with
  | zero =>
    refine takeSteps_determined ?_
    intro place one other a b _ h
    cases h
  | succ links ih => exact takeSteps_determined ih

/-- Spellings of one path that lead somewhere lead to the same place. -/
theorem place_unique {t : FileTree} {p q : Path} {a b : List FileName}
    (same : p.components = q.components) (h : t.place p = .ok a) (h' : t.place q = .ok b) :
    a = b := by
  have moves : p.steps.filter Step.moves = q.steps.filter Step.moves := by
    rw [Path.moves_steps, Path.moves_steps, same]
  have start : p.isAbsolute = q.isAbsolute := by
    rw [Path.isAbsolute_eq, Path.isAbsolute_eq, same]
  unfold FileTree.place at h h'
  split at h
  · cases h
  · split at h'
    · cases h'
    · rw [start] at h
      exact follow_determined t.root maxLinks _ _ _ a b moves h h'

theorem exists_of_read {t : FileTree} {p : Path} {octets : List UInt8} (h : t.read p = .ok octets) :
    ∃ place size, t.place p = .ok place ∧ t.root.at? place = some (.file size (.ok octets)) := by
  unfold FileTree.read FileTree.find at h
  cases found : t.place p with
  | error e =>
    rw [found] at h
    cases h
  | ok place =>
    rw [found] at h
    refine ⟨place, ?_⟩
    cases node : t.root.at? place with
    | none => simp [node] at h
    | some node' =>
      cases node' with
      | file size content =>
        simp only [node] at h
        exact ⟨size, rfl, by rw [h]⟩
      | directory entries => simp [node] at h
      | link target => simp [node] at h

/-- What is read under two spellings of one path is the same, where both can be read. -/
theorem read_unique {t : FileTree} {p q : Path} {a b : List UInt8}
    (same : p.components = q.components) (h : t.read p = .ok a) (h' : t.read q = .ok b) : a = b := by
  obtain ⟨here, _, found, file⟩ := exists_of_read h
  obtain ⟨there, _, found', file'⟩ := exists_of_read h'
  rw [place_unique same found found', file'] at file
  injection file with file
  injection file with _ content
  exact (Except.ok.inj content).symm

end FileTree
end LambdaTally
