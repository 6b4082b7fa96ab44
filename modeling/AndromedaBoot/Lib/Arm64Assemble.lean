import AndromedaBoot.Lib.Arm64Run

/-!
# Assembling AArch64 instructions

The encodings of the instructions a program loads an address with and branches to it by, for every immediate,
and programs as the bytes an assembler leaves.
-/

namespace Arm64

open ByteMemory

theorem extract_low {v k i n : Nat} (x : BitVec v) (y : BitVec k) (h : i + n ≤ k) :
    (x ++ y).extractLsb' i n = y.extractLsb' i n := by
  ext j hj
  rw [BitVec.getElem_extractLsb', BitVec.getElem_extractLsb', BitVec.getLsbD_append, if_pos (by omega)]

theorem extract_high {v k i n : Nat} (x : BitVec v) (y : BitVec k) (h : k ≤ i) :
    (x ++ y).extractLsb' i n = x.extractLsb' (i - k) n := by
  ext j hj
  rw [BitVec.getElem_extractLsb', BitVec.getElem_extractLsb', BitVec.getLsbD_append, if_neg (by omega),
    Nat.sub_add_comm h]

theorem getLsbD_high {v k i : Nat} (x : BitVec v) (y : BitVec k) (h : k ≤ i) :
    (x ++ y).getLsbD i = x.getLsbD (i - k) := by
  rw [BitVec.getLsbD_append, if_neg (by omega)]

/-- `movz` and, with `keep`, `movk`, of the 64-bit form. -/
def moveWide (keep : Bool) (rd : BitVec 5) (imm : BitVec 16) (hw : BitVec 2) : BitVec 32 :=
  (bif keep then 0x1E5#9 else 0x1A5#9) ++ (hw ++ (imm ++ rd))

/-- `br`. -/
def branchRegister (rn : BitVec 5) : BitVec 32 := 0x3587C0#22 ++ (rn ++ 0#5)

theorem decode_moveWide (keep : Bool) (rd : BitVec 5) (imm : BitVec 16) (hw : BitVec 2) :
    decode (moveWide keep rd imm hw) =
      some ((bif keep then Instr.movk else Instr.movz) .x (Reg.ofBits rd) imm hw.toNat) := by
  have hrd : (moveWide keep rd imm hw).extractLsb' 0 5 = rd := by
    rw [moveWide, extract_low _ _ (by decide), extract_low _ _ (by decide), extract_low _ _ (by decide),
      BitVec.extractLsb'_eq_self]
  have himm : (moveWide keep rd imm hw).extractLsb' 5 16 = imm := by
    rw [moveWide, extract_low _ _ (by decide), extract_low _ _ (by decide), extract_high _ _ (by decide),
      BitVec.extractLsb'_eq_self]
  have hhw : (moveWide keep rd imm hw).extractLsb' 21 2 = hw := by
    rw [moveWide, extract_low _ _ (by decide), extract_high _ _ (by decide), BitVec.extractLsb'_eq_self]
  have htop (i n : Nat) (hi : 23 ≤ i) : (moveWide keep rd imm hw).extractLsb' i n =
      (bif keep then 0x1E5#9 else 0x1A5#9).extractLsb' (i - 23) n := by
    rw [moveWide, extract_high _ _ hi]
  have hsf : (moveWide keep rd imm hw)[31] = true := by
    rw [← BitVec.getLsbD_eq_getElem, moveWide, getLsbD_high _ _ (by decide)]
    cases keep <;> rfl
  cases keep with
  | false => simp [decode, decodeImmediate, htop, hrd, himm, hhw, hsf, Width.ofBit]
  | true => simp [decode, decodeImmediate, htop, hrd, himm, hhw, hsf, Width.ofBit]

theorem decode_branchRegister (rn : BitVec 5) : decode (branchRegister rn) = some (.br (Reg.ofBits rn)) := by
  revert rn
  decide +kernel

/-! ## Bytes -/

/-- The words of a program as the bytes of its binary. -/
def assemble : List (BitVec 32) → List (BitVec 8)
  | [] => []
  | w :: ws => w.extractLsb' 0 8 :: w.extractLsb' 8 8 :: w.extractLsb' 16 8 :: w.extractLsb' 24 8 :: assemble ws

@[simp] theorem length_assemble (ws : List (BitVec 32)) : (assemble ws).length = 4 * ws.length := by
  induction ws with
  | nil => rfl
  | cons w ws ih =>
    simp only [assemble, List.length_cons, ih]
    omega

theorem append_extract (w : BitVec 32) :
    w.extractLsb' 24 8 ++ w.extractLsb' 16 8 ++ w.extractLsb' 8 8 ++ w.extractLsb' 0 8 = w := by
  refine ext_bytes ?_
  intro i hi
  rw [append_byte _ _ _ _ hi]
  interval_cases i <;> rfl

theorem words_assemble (ws : List (BitVec 32)) : words (assemble ws) = ws := by
  induction ws with
  | nil => rfl
  | cons w ws ih => rw [assemble, words, ih, append_extract]

/-- The binary of a program, with anything behind it, is loaded as the program. -/
theorem Loaded.of_assemble {m : ByteMemory} {c : BitVec 64} {ws : List (BitVec 32)} {rest : List (BitVec 8)}
    {prog : List Instr} (h : Holds m c (assemble ws ++ rest)) (hprog : ws.mapM decode = some prog) :
    Loaded m c 0 prog := by
  refine .of_holds h.append.1 ?_
  rw [disassemble, words_assemble, hprog]

end Arm64
