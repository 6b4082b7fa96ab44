import AndromedaBoot.Lib.Arm64

/-!
# Branches to a place (KernelErrataPatcherLib.h :54-59)

`ARM64_BRANCH_LOCATION_INSTRUCTION` puts the distance in words over the bits of a branch with a link. It keeps
27 bits of the distance, where the instruction has 26; the bit above is set in the instruction anyway.
-/

namespace Andromeda

open Arm64

/-- `ARM64_BRANCH_LOCATION_INSTRUCTION`. -/
def branchLocationInstruction (currentOffset targetOffset : BitVec 64) : BitVec 32 :=
  0x94000000#32 ||| (((targetOffset - currentOffset) / 4#64).setWidth 32 &&& 0x7FFFFFF#32)

theorem div_four (v : BitVec 64) : v / 4#64 = v >>> 2 := by
  apply BitVec.eq_of_toNat_eq
  rw [BitVec.toNat_udiv, BitVec.toNat_ushiftRight, Nat.shiftRight_eq_div_pow]
  rfl

theorem branch_top (currentOffset targetOffset : BitVec 64) :
    (branchLocationInstruction currentOffset targetOffset).extractLsb' 26 6 = 0b100101#6 := by
  unfold branchLocationInstruction
  ext i hi
  simp only [BitVec.getElem_extractLsb', BitVec.getLsbD_or, BitVec.getLsbD_and]
  interval_cases i <;> simp

theorem branch_low (currentOffset targetOffset : BitVec 64) :
    (branchLocationInstruction currentOffset targetOffset).extractLsb' 0 26 =
      ((targetOffset - currentOffset) / 4#64).setWidth 26 := by
  unfold branchLocationInstruction
  generalize (targetOffset - currentOffset) / 4#64 = v
  ext i hi
  simp only [BitVec.getElem_extractLsb', BitVec.getLsbD_or, BitVec.getLsbD_and, BitVec.getLsbD_setWidth,
    BitVec.getElem_setWidth]
  interval_cases i <;> simp

theorem decode_branch (currentOffset targetOffset : BitVec 64) :
    decode (branchLocationInstruction currentOffset targetOffset) =
      some (.bl (branchOffset (((targetOffset - currentOffset) / 4#64).setWidth 26))) := by
  rw [decode_bl (branch_top _ _), branch_low]

/-- A word is known by its six high and its 26 low bits. -/
theorem ext_branch {v w : BitVec 32} (htop : v.extractLsb' 26 6 = w.extractLsb' 26 6)
    (hlow : v.extractLsb' 0 26 = w.extractLsb' 0 26) : v = w := by
  refine BitVec.eq_of_getLsbD_eq ?_
  intro i hi
  by_cases h : i < 26
  · have hbit := congrArg (BitVec.getLsbD · i) hlow
    simpa [h] using hbit
  · have hbit := congrArg (BitVec.getLsbD · (i - 26)) htop
    simpa [show i - 26 < 6 by omega, show 26 + (i - 26) = i by omega] using hbit

/-- Within 128 MiB, it is the one branch with a link from `current` to `target`. -/
theorem branchLocationInstruction_eq_iff {current target : BitVec 64} (hmod : (target - current).toNat % 4 = 0)
    (hrange : (target - current).toNat < 2 ^ 27 ∨ 2 ^ 64 - 2 ^ 27 ≤ (target - current).toNat) {w : BitVec 32} :
    branchLocationInstruction current target = w ↔ ∃ offset, decode w = some (.bl offset) ∧ current + offset = target := by
  have hoffset := branchOffset_div hmod hrange
  constructor
  · rintro rfl
    refine ⟨_, decode_branch current target, ?_⟩
    rw [hoffset]
    bv_omega
  · rintro ⟨offset, hdecode, htarget⟩
    obtain ⟨htop, hlow⟩ := decode_eq_bl.1 hdecode
    have hdistance : target - current = branchOffset (w.extractLsb' 0 26) := by
      rw [← hlow, ← htarget]
      bv_omega
    refine ext_branch (by rw [branch_top, htop]) ?_
    rw [branch_low, ← extractLsb'_branchOffset (((target - current) / 4#64).setWidth 26), hoffset, hdistance,
      extractLsb'_branchOffset]

end Andromeda
