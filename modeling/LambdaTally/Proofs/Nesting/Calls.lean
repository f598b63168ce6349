import LambdaTally.Nesting.LeafStream

/-!
# LambdaTally.Proofs.Nesting.Calls

The leaves of a structural text taken one call at a time are those of the whole pass: the answer of
call number `k` is the item number `k` that the pass delivers (`LeafStream.call_start`), and the
failure, if there is one, is the last item (`Flattening.items_error_iff`).
-/

namespace LambdaTally

/-- The leaves found before a text stand before those found in it. -/
theorem run_leaves (n : Nesting) (leaves : List Leaf) (text : List Char) :
    Flattening.run n leaves text =
      ⟨leaves.reverse ++ (Flattening.run n [] text).leaves, (Flattening.run n [] text).failure⟩ := by
  induction text generalizing n leaves with
  | nil =>
    simp only [Flattening.run]
    split <;> simp
  | cons ch rest ih =>
    simp only [Flattening.run]
    split
    · rename_i m leaf _
      rw [ih, ih m (leaf.toList ++ [])]
      cases leaf <;> simp
    · simp

namespace LeafStream

theorem call_finished (l : LeafStream) (h : l.finished = true) (k : Nat) : l.call k = none := by
  induction k with
  | zero => simp [call, next, h]
  | succ k ih => simpa [call, next, h] using ih

theorem call_congr {l m : LeafStream} (h : l.next = m.next) (k : Nat) : l.call k = m.call k := by
  cases k with
  | zero => simp [call, h]
  | succ k => simp [call, h]

theorem call_eq_getElem? (n : Nesting) (text : List Char) (k : Nat) :
    (⟨n, text, false⟩ : LeafStream).call k = (Flattening.run n [] text).items[k]? := by
  induction text generalizing n k with
  | nil =>
    cases hf : n.finish with
    | error e =>
      cases k with
      | zero => simp [call, next, advance, Flattening.run, Flattening.items, hf]
      | succ k =>
        simp [call, next, advance, Flattening.run, Flattening.items, hf, call_finished]
    | ok leaf =>
      cases k with
      | zero => cases leaf <;> simp [call, next, advance, Flattening.run, Flattening.items, hf]
      | succ k =>
        cases leaf <;>
          simp [call, next, advance, Flattening.run, Flattening.items, hf, call_finished]
  | cons ch rest ih =>
    cases hs : n.step ch with
    | error e =>
      cases k with
      | zero => simp [call, next, advance, Flattening.run, Flattening.items, hs]
      | succ k =>
        simp [call, next, advance, Flattening.run, Flattening.items, hs, call_finished]
    | ok r =>
      obtain ⟨m, leaf⟩ := r
      have run_eq : Flattening.run n [] (ch :: rest) = Flattening.run m leaf.toList rest := by
        simp [Flattening.run, hs]
      rw [run_eq, run_leaves]
      cases leaf with
      | none =>
        have same : (⟨n, ch :: rest, false⟩ : LeafStream).next = (⟨m, rest, false⟩ : LeafStream).next := by
          simp [next, advance, hs]
        rw [call_congr same, ih]
        rfl
      | some leaf =>
        cases k with
        | zero => simp [call, next, advance, hs, Flattening.items]
        | succ k =>
          have later : (⟨n, ch :: rest, false⟩ : LeafStream).call (k + 1) =
              (⟨m, rest, false⟩ : LeafStream).call k := by
            simp [call, next, advance, hs]
          rw [later, ih]
          simp [Flattening.items]

theorem call_start (s : Structural) (k : Nat) : (start s).call k = s.flatten.items[k]? :=
  call_eq_getElem? _ _ _

end LeafStream

/-- The failure stands behind all leaves, and nothing behind it. -/
theorem Flattening.items_error_iff (f : Flattening) (k : Nat) (e : NestingError) :
    f.items[k]? = some (.error e) ↔ f.failure = some e ∧ k = f.leaves.length := by
  unfold items
  rcases Nat.lt_or_ge k f.leaves.length with lt | ge
  · have : k ≠ f.leaves.length := by omega
    simp [List.getElem?_append_left, lt, this]
  · rw [List.getElem?_append_right (by simpa using ge)]
    cases hf : f.failure with
    | none => simp
    | some e' =>
      rcases Nat.eq_or_lt_of_le ge with rfl | lt
      · simp
      · have : k - f.leaves.length ≠ 0 := by omega
        have : k ≠ f.leaves.length := by omega
        simp_all

end LambdaTally
