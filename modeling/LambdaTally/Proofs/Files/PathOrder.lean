import LambdaTally.Files.Path
import Mathlib.Data.List.Sort

/-!
# LambdaTally.Proofs.Files.PathOrder

The order of paths. Octets, components and lists of components are each ordered lexicographically, so
the order is a linear one on lists of components; on paths it is a preorder, in which two of them are
equal exactly if they have the same components (`compare_eq_iff`).
-/

namespace LambdaTally

open Std

/-- An order taken along a function. -/
theorem transCmp_comp {α β : Type} {cmp : α → α → Ordering} [TransCmp cmp] (f : β → α) :
    TransCmp fun a b => cmp (f a) (f b) where
  eq_swap := OrientedCmp.eq_swap
  isLE_trans := TransCmp.isLE_trans

/-- An order turned around. -/
theorem transCmp_swap {α : Type} (cmp : α → α → Ordering) [TransCmp cmp] :
    TransCmp fun a b => (cmp a b).swap := by
  rw [show (fun a b => (cmp a b).swap) = fun a b => cmp b a from
    funext₂ fun _ _ => OrientedCmp.eq_swap.symm]
  exact TransCmp.opposite

/-- The equations of a lexicographic order determine it. -/
theorem eq_compareLex {α : Type} {cmp : α → α → Ordering} {lex : List α → List α → Ordering}
    (nil_nil : lex [] [] = .eq) (nil_cons : ∀ b bs, lex [] (b :: bs) = .lt)
    (cons_nil : ∀ a as, lex (a :: as) [] = .gt)
    (cons_cons : ∀ a as b bs, lex (a :: as) (b :: bs) = (cmp a b).then (lex as bs)) :
    lex = List.compareLex cmp := by
  funext as bs
  induction as generalizing bs with
  | nil =>
    cases bs with
    | nil => exact nil_nil
    | cons b bs => exact nil_cons b bs
  | cons a as ih =>
    cases bs with
    | nil => exact cons_nil a as
    | cons b bs => rw [cons_cons, ih, List.compareLex_cons_cons]

namespace Component

/-- The order of octets, as numbers. -/
def compareOctet (a b : UInt8) : Ordering := compare a.toNat b.toNat

instance : TransCmp compareOctet := transCmp_comp UInt8.toNat

instance : LawfulEqCmp compareOctet where
  compare_self {a} := Std.compare_self (a := a.toNat)
  eq_of_compare h := UInt8.toNat_inj.1 (LawfulEqCmp.eq_of_compare h)

theorem compareOctets_eq : compareOctets = List.compareLex compareOctet :=
  eq_compareLex rfl (fun _ _ => rfl) (fun _ _ => rfl) fun _ _ _ _ => rfl

instance : TransCmp compareOctets := by
  rw [compareOctets_eq]
  infer_instance

instance : LawfulEqCmp compareOctets := by
  rw [compareOctets_eq]
  infer_instance

/-- The octets of a name; nothing else has any. -/
def octets : Component → List UInt8
  | name octets => octets
  | _ => []

theorem eq_of_rank_of_octets {a b : Component} (rank : a.rank = b.rank) (octets : a.octets = b.octets) :
    a = b := by
  cases a with
  | name x =>
    cases b with
    | name y => exact congrArg name octets
    | _ => cases rank
  | _ => cases b <;> first | rfl | cases rank

/-- Components are ordered by their sort first. -/
theorem compare_eq (a b : Component) :
    a.compare b = (compare a.rank b.rank).then (compareOctets a.octets b.octets) := by
  cases a <;> cases b <;> rfl

instance : TransCmp Component.compare := by
  have by_rank : TransCmp fun a b : Component => compare a.rank b.rank := transCmp_comp rank
  have by_octets : TransCmp fun a b : Component => compareOctets a.octets b.octets :=
    transCmp_comp octets
  rw [show Component.compare = compareLex (fun a b => compare a.rank b.rank)
    (fun a b => compareOctets a.octets b.octets) from funext₂ compare_eq]
  infer_instance

instance : LawfulEqCmp Component.compare where
  compare_self := ReflCmp.compare_self
  eq_of_compare {a b} h := by
    rw [compare_eq, Ordering.then_eq_eq] at h
    exact eq_of_rank_of_octets (LawfulEqCmp.eq_of_compare h.1) (LawfulEqCmp.eq_of_compare h.2)

end Component

namespace Path

theorem compareComponents_eq : compareComponents = List.compareLex Component.compare :=
  eq_compareLex rfl (fun _ _ => rfl) (fun _ _ => rfl) fun _ _ _ _ => rfl

instance : TransCmp compareComponents := by
  rw [compareComponents_eq]
  infer_instance

instance : LawfulEqCmp compareComponents := by
  rw [compareComponents_eq]
  infer_instance

instance : TransCmp Path.compare := transCmp_comp components

/-- Two spellings compare equal if they have the same components, and then only. -/
theorem compare_eq_iff {p q : Path} : p.compare q = .eq ↔ p.components = q.components := by
  rw [Path.compare]
  exact LawfulEqCmp.compare_eq_iff_eq

end Path
end LambdaTally
