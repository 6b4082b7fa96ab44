import Mathlib.Logic.Function.Iterate
import Mathlib.Tactic.Common

/-!
# Loops that write through a moving pointer

A pen writes the byte it stands on and moves on. `Draws f advance span` says that `f` moves every pen by `advance`
bytes and writes only to the `span` bytes from where it started; nested loops are put together from it with
`Draws.comp` and `Draws.iterate`.
-/

/-- The pointer, what has been written through it, and the other variable of the loop. -/
structure Pen (σ : Type*) where
  pointer : BitVec 64
  writes : List (BitVec 64 × BitVec 8)
  data : σ

namespace Pen

variable {σ : Type*} {f g : Pen σ → Pen σ} {advance advance' span span' : Nat} {p : Pen σ}

/-- `*pointer = b; pointer++` -/
def put (b : BitVec 8) (p : Pen σ) : Pen σ := { p with pointer := p.pointer + 1#64, writes := p.writes ++ [(p.pointer, b)] }

/-- `pointer += offset` -/
def move (offset : BitVec 64) (p : Pen σ) : Pen σ := { p with pointer := p.pointer + offset }

/-- The low bytes of a colour, the lowest first. -/
def putPixel {w : Nat} : Nat → BitVec w → Pen σ → Pen σ
  | 0, _, p => p
  | k + 1, color, p => putPixel k (color >>> 8) (p.put (color.setWidth 8))

def Draws (f : Pen σ → Pen σ) (advance span : Nat) : Prop :=
  ∀ p, (f p).pointer = p.pointer + BitVec.ofNat 64 advance ∧
    ∃ writes, (f p).writes = p.writes ++ writes ∧ ∀ w ∈ writes, ∃ i < span, w.1 = p.pointer + BitVec.ofNat 64 i

theorem Draws.mono (h : Draws f advance span) (hle : span ≤ span') : Draws f advance span' := by
  intro p
  obtain ⟨hpointer, writes, hwrites, hspan⟩ := h p
  refine ⟨hpointer, writes, hwrites, ?_⟩
  intro w hw
  obtain ⟨i, hi, hw⟩ := hspan w hw
  exact ⟨i, by omega, hw⟩

theorem Draws.comp (hg : Draws g advance' span') (hf : Draws f advance span) :
    Draws (g ∘ f) (advance + advance') (max span (advance + span')) := by
  intro p
  obtain ⟨hf, writes, hwrites, hspan⟩ := hf p
  obtain ⟨hg, writes', hwrites', hspan'⟩ := hg (f p)
  refine ⟨?_, writes ++ writes', ?_, ?_⟩
  · rw [Function.comp_apply, hg, hf, BitVec.ofNat_add, BitVec.add_assoc]
  · rw [Function.comp_apply, hwrites', hwrites, List.append_assoc]
  · intro w hw
    rcases List.mem_append.1 hw with hw | hw
    · obtain ⟨i, hi, hw⟩ := hspan w hw
      exact ⟨i, by omega, hw⟩
    · obtain ⟨i, hi, hw⟩ := hspan' w hw
      exact ⟨advance + i, by omega, by rw [hw, hf, BitVec.ofNat_add, BitVec.add_assoc]⟩

theorem Draws.id : Draws (fun p : Pen σ => p) 0 span := by
  intro p
  exact ⟨(BitVec.add_zero _).symm, [], (List.append_nil _).symm, fun w hw => absurd hw List.not_mem_nil⟩

/-- A loop. -/
theorem Draws.iterate (hf : Draws f advance span) (n : Nat) : Draws f^[n] (n * advance) ((n - 1) * advance + span) := by
  induction n with
  | zero =>
    rw [Nat.zero_mul]
    exact .id
  | succ n ih =>
    have hstep := hf.comp ih
    rw [← Function.iterate_succ', ← Nat.succ_mul] at hstep
    refine hstep.mono ?_
    rw [Nat.add_sub_cancel]
    have hle : (n - 1) * advance ≤ n * advance := Nat.mul_le_mul_right _ (Nat.sub_le n 1)
    omega

/-- A loop that leaves nothing out. -/
theorem Draws.iterate_full (hf : Draws f advance advance) (n : Nat) : Draws f^[n] (n * advance) (n * advance) := by
  cases n with
  | zero =>
    rw [Nat.zero_mul]
    exact .id
  | succ n =>
    refine (hf.iterate (n + 1)).mono (Nat.le_of_eq ?_)
    rw [Nat.add_sub_cancel, Nat.succ_mul]

theorem draws_put (b : BitVec 8) : Draws (put b : Pen σ → Pen σ) 1 1 := by
  intro p
  refine ⟨rfl, [(p.pointer, b)], rfl, fun w hw => ⟨0, by decide, ?_⟩⟩
  rw [List.mem_singleton.1 hw, BitVec.add_zero]

theorem draws_move (k : Nat) : Draws (move (BitVec.ofNat 64 k) : Pen σ → Pen σ) k 0 := by
  intro p
  exact ⟨rfl, [], (List.append_nil _).symm, fun w hw => absurd hw List.not_mem_nil⟩

theorem draws_putPixel {w : Nat} (k : Nat) (color : BitVec w) : Draws (putPixel k color : Pen σ → Pen σ) k k := by
  induction k generalizing color with
  | zero => exact .id
  | succ k ih =>
    have hstep := (ih (color >>> 8)).comp (draws_put (σ := σ) (color.setWidth 8))
    rw [Nat.add_comm 1 k] at hstep
    exact hstep.mono (by omega)

end Pen
