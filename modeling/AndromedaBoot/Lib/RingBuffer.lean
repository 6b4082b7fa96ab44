import Mathlib.Data.Nat.ModEq
import Mathlib.Logic.Function.Basic

/-!
# A ring that is written round and round

`write size o xs r` writes the elements of `xs` to the positions `o`, `o + 1`, … modulo `size`. What is left of them are
the last `size` (`write_last`); positions that none of them hits are as before (`write_other`).
-/

namespace RingBuffer

variable {α : Type*} {size o : Nat} {xs ys : List α} {r : Nat → α}

def write (size : Nat) : Nat → List α → (Nat → α) → Nat → α
  | _, [], r => r
  | o, x :: xs, r => write size (o + 1) xs (Function.update r (o % size) x)

theorem write_append : write size o (xs ++ ys) r = write size (o + xs.length) ys (write size o xs r) := by
  induction xs generalizing o r with
  | nil => rfl
  | cons x xs ih =>
    rw [List.cons_append, write, ih, write, List.length_cons, Nat.add_right_comm, Nat.add_assoc]

/-- Only the position modulo `size` matters. -/
theorem write_mod : write size (o % size) xs r = write size o xs r := by
  induction xs generalizing o r with
  | nil => rfl
  | cons x xs ih => rw [write, write, Nat.mod_mod, ← ih, Nat.mod_add_mod, ih]

theorem write_congr {r' : Nat → α} {j : Nat} (h : ∀ j < size, r j = r' j) (hj : j < size) :
    write size o xs r j = write size o xs r' j := by
  induction xs generalizing o r r' with
  | nil => exact h j hj
  | cons x xs ih =>
    refine ih ?_
    intro k hk
    by_cases hko : k = o % size
    · rw [hko, Function.update_self, Function.update_self]
    · rw [Function.update_of_ne hko, Function.update_of_ne hko, h k hk]

theorem write_other {j : Nat} (h : ∀ i < xs.length, (o + i) % size ≠ j) : write size o xs r j = r j := by
  induction xs generalizing o r with
  | nil => rfl
  | cons x xs ih =>
    have hrest : ∀ i < xs.length, (o + 1 + i) % size ≠ j := by
      intro i hi
      rw [Nat.add_assoc, Nat.add_comm 1 i]
      exact h (i + 1) (Nat.succ_lt_succ hi)
    have hfirst : o % size ≠ j := h 0 (Nat.succ_pos _)
    rw [write, ih hrest, Function.update_of_ne hfirst.symm]

/-- Fewer than `size` steps do not come back. -/
theorem add_mod_ne {d : Nat} (hpos : 0 < d) (hd : d < size) : (o + d) % size ≠ o % size := by
  intro h
  have hmod : o + d ≡ o + 0 [MOD size] := h
  have hdvd : size ∣ d := (Nat.modEq_zero_iff_dvd).1 (Nat.ModEq.add_left_cancel' o hmod)
  exact absurd (Nat.le_of_dvd hpos hdvd) (Nat.not_le.2 hd)

/-- The last `size` elements are there. -/
theorem write_last {i : Nat} (hi : i < xs.length) (h : xs.length ≤ i + size) : write size o xs r ((o + i) % size) = xs[i] := by
  induction xs generalizing o r i with
  | nil => nomatch hi
  | cons x xs ih =>
    rw [List.length_cons] at h
    rw [write]
    cases i with
    | zero =>
      have hrest : ∀ k < xs.length, (o + 1 + k) % size ≠ o % size := by
        intro k hk
        rw [Nat.add_assoc]
        exact add_mod_ne (by omega) (by omega)
      exact (write_other hrest).trans (Function.update_self _ _ _)
    | succ i =>
      rw [← Nat.add_assoc, Nat.add_right_comm]
      exact ih (Nat.lt_of_succ_lt_succ hi) (by omega)

end RingBuffer
