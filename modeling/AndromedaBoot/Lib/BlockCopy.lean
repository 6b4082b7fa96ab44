import Mathlib.Data.Nat.Init
import Mathlib.Tactic.Common

/-!
# Copying forward, block by block

`blocks k src dst n f` copies `n` blocks of `k` elements from `src` to `dst`, the lowest first; a block is read
as a whole before it is written. Where `dst` lies behind `src`, a block may be written over elements that are
read later: then the copy is the original exactly when the original repeats itself there (`blocks_eq_iff`).
-/

namespace BlockCopy

variable {α : Type*} {k src dst n n' j a : ℕ} {f : ℕ → α}

/-- One block. -/
def block (k src dst : ℕ) (f : ℕ → α) (a : ℕ) : α := if dst ≤ a ∧ a < dst + k then f (src + (a - dst)) else f a

def blocks (k src dst : ℕ) : ℕ → (ℕ → α) → ℕ → α
  | 0, f => f
  | n + 1, f => block k (src + k * n) (dst + k * n) (blocks k src dst n f)

theorem blocks_outside (h : a < dst ∨ dst + k * n ≤ a) : blocks k src dst n f a = f a := by
  induction n with
  | zero => rfl
  | succ n ih =>
    rw [Nat.mul_succ] at h
    rw [blocks, block, if_neg (by omega)]
    exact ih (by omega)

/-- What is written stays. -/
theorem blocks_stays (hj : j < k * n) (hn : n ≤ n') : blocks k src dst n' f (dst + j) = blocks k src dst n f (dst + j) := by
  induction n', hn using Nat.le_induction with
  | base => rfl
  | succ n' hn ih =>
    have hle : k * n ≤ k * n' := Nat.mul_le_mul_left k hn
    rw [blocks, block, if_neg (by omega), ih]

/-- An element is read when the blocks before its own are written. -/
theorem blocks_read (hj : j < k * n) : blocks k src dst n f (dst + j) = blocks k src dst (j / k) f (src + j) := by
  have hk : 0 < k := Nat.pos_of_mul_pos_right (Nat.zero_lt_of_lt hj)
  have hsplit : k * (j / k) + j % k = j := Nat.div_add_mod j k
  have hmod : j % k < k := Nat.mod_lt j hk
  have hblock : j / k + 1 ≤ n := Nat.div_lt_of_lt_mul hj
  rw [blocks_stays (n := j / k + 1) (by rw [Nat.mul_succ]; omega) hblock, blocks, block, if_pos (by omega)]
  congr 1
  omega

/-- The copy of an element is the original, or the copy of an earlier element that was written over it. -/
theorem blocks_eq (hlt : src < dst) (hj : j < k * n) :
    blocks k src dst n f (dst + j) =
      if dst - src ≤ j ∧ j % k < dst - src then blocks k src dst n f (dst + (j - (dst - src))) else f (src + j) := by
  have hsplit : k * (j / k) + j % k = j := Nat.div_add_mod j k
  rw [blocks_read hj]
  split_ifs with h
  · have hearlier : j - (dst - src) < k * (j / k) := by omega
    rw [blocks_stays hearlier (Nat.le_of_lt (Nat.div_lt_of_lt_mul hj))]
    congr 1
    omega
  · exact blocks_outside (by omega)

theorem blocks_of_le (hle : dst ≤ src) (hj : j < k * n) : blocks k src dst n f (dst + j) = f (src + j) := by
  have hsplit : k * (j / k) + j % k = j := Nat.div_add_mod j k
  rw [blocks_read hj]
  exact blocks_outside (.inr (by omega))

/-- When the copy is the original. -/
theorem blocks_eq_iff (hlt : src < dst) : (∀ j < k * n, blocks k src dst n f (dst + j) = f (src + j)) ↔
    ∀ j < k * n, dst - src ≤ j → j % k < dst - src → f (src + j) = f (src + (j - (dst - src))) := by
  constructor
  · intro h j hj hd hmod
    rw [← h j hj, blocks_eq hlt hj, if_pos ⟨hd, hmod⟩, h _ (by omega)]
  · intro h j
    induction j using Nat.strongRecOn with
    | ind j ih =>
      intro hj
      rw [blocks_eq hlt hj]
      split_ifs with hd
      · rw [ih _ (by omega) (by omega), h j hj hd.1 hd.2]
      · rfl

end BlockCopy
