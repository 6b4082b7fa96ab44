import AndromedaBoot.Errata.Branch
import AndromedaBoot.Errata.Reference
import AndromedaBoot.Errata.Trampoline

/-!
# Redirecting the write of an interrupt

The shellcodes `IRM` and `IRM_X8` look for the write to `ICC_SGI1R_EL1` and for a marker in the kernel,
replace the write by a branch and store the trampoline in front of the marker. They differ in the
register of the write.

| here | there |
| --- | --- |
| `Places` | `GICINSTR`, `REALESTATEFUNC`, `IRM_X8/Reference/ShellCode.c` :175-176 |
| `SgiSource.look`, `SgiSource.search` | the inner loop, :187-200 |
| `SgiSource.patchAt` | :202-218 |
| `SgiSource.program` | `GIC_V3_WITHOUT_IRM_FLAG_SUPPORT_PATCH` and its X8 variant, `ShellCode.h` :27-99 |

As in the other shellcodes, the shipped bytes end the outer loop after the first module.
-/

namespace Andromeda

open Arm64 ByteMemory InPlace

/-- The places that are looked for; 0 stands for not found. -/
structure Places where
  gicInstr : BitVec 64
  realEstateFunc : BitVec 64
deriving DecidableEq

namespace Places

/-- `GICINSTR != 0 && REALESTATEFUNC != 0`. -/
def Found (p : Places) : Prop := p.gicInstr ≠ 0 ∧ p.realEstateFunc ≠ 0

instance : DecidablePred Found := fun p => inferInstanceAs (Decidable (p.gicInstr ≠ 0 ∧ p.realEstateFunc ≠ 0))

/-- `CodeLocation`: 42 instructions in front of the marker. -/
def codeLocation (p : Places) : BitVec 64 := p.realEstateFunc - 168#64

end Places

namespace SgiSource

/-- `msr icc_sgi1r_el1, x10` and `msr icc_sgi1r_el1, x8`. -/
def msr : SgiSource → BitVec 32
  | x10 => 0xD518CBAA#32
  | x8 => 0xD518CBA8#32

/-- The two tests of a round. -/
def look (r : SgiSource) (m : ByteMemory) (current : BitVec 64) (p : Places) : Places where
  gicInstr := if m.read32 current = r.msr then current else p.gicInstr
  realEstateFunc := if m.read64 current = 0x0009001600090003#64 then current else p.realEstateFunc

/-- The inner loop with `n` words to go; it stops when both places are found. -/
def search (r : SgiSource) (m : ByteMemory) : Nat → BitVec 64 → Places → Places
  | 0, _, p => p
  | n + 1, current, p => if (r.look m current p).Found then r.look m current p else
      r.search m n (current + 4) (r.look m current p)

/-- What the inner loop finds in a module. -/
def places (r : SgiSource) (base : BitVec 64) (size : BitVec 32) (m : ByteMemory) : Places :=
  r.search m (moduleWords size) base ⟨0, 0⟩

/-- The branch in place of the write, and the trampoline it leads to. -/
def patchAt (r : SgiSource) (p : Places) (m : ByteMemory) : ByteMemory :=
  ((m.write32 p.gicInstr (branchLocationInstruction p.gicInstr p.codeLocation)).writeDwords p.codeLocation
    r.trampolineDwords).write32 (p.codeLocation + 88#64) 0xD65F03C0#32

/-- What is done to a module. -/
def patch (r : SgiSource) (base : BitVec 64) (size : BitVec 32) (m : ByteMemory) : ByteMemory :=
  if (r.places base size m).Found then r.patchAt (r.places base size m) m else m

/-! ## The programs -/

/-- The shipped bytes. -/
def shellCode : SgiSource → List (BitVec 8)
  | x10 => gicV3WithoutIrmFlagSupportPatch
  | x8 => gicV3WithoutIrmFlagSupportX8VariantPatch

/-- The search, and the branch. -/
def searchProgram (r : SgiSource) : List Instr := [
  .mov .x10 .x0, .ldr .x .x9 .x10 .pre 16#64, .cmp .x .x9 .x10, .bCond .eq 404#64, .movz .x .x3 0 0,
  .movz .x .x4 0 0, .movz .w .x8 (r.msr.extractLsb' 0 16) 0, .movk .w .x8 0xD518#16 1, .movz .x .x7 3 0,
  .movk .x .x7 9 1, .movk .x .x7 0x16 2, .movk .x .x7 9 3, .b 16#64, .ldr .x .x9 .x9 .offset 0#64, .cmp .x .x9 .x10,
  .b 76#64, .ldr .x .x2 .x9 .offset 48#64, .ldr .w .x6 .x9 .offset 64#64, .add .x .x6 .x6 .x2, .cmp .x .x2 .x6,
  .bCond .hs (-28#64), .ldr .w .x5 .x2 .offset 0#64, .cmp .w .x5 .x8, .csel .x .x4 .x4 .x2 .ne,
  .ldr .x .x5 .x2 .offset 0#64, .cmp .x .x5 .x7, .csel .x .x3 .x3 .x2 .ne, .cmpImm .x .x4 0#64,
  .ccmpImm .x .x3 0#64 ⟨false, true, false, false⟩ .ne, .bCond .ne (-64#64), .addImm .x .x2 .x2 4#64, .cmp .x .x2 .x6,
  .bCond .lo (-44#64), .b (-80#64), .cmpImm .x .x4 0#64, .ccmpImm .x .x3 0#64 ⟨false, true, false, false⟩ .ne,
  .bCond .eq 272#64, .subImm .x .x2 .x3 168#64, .sub .x .x2 .x2 .x4, .ubfm .w .x2 .x2 2 27, .movz .w .x5 0x9400 1,
  .logicReg .w .orr .x2 .x2 .x5 .lsl 0, .str .w .x2 .x4 .offset 0#64]

/-- The store of the `i`-th double word of the trampoline. -/
def storeDword (i : Nat) (d : BitVec 64) : List Instr := [
  .movz .x .x2 (d.extractLsb' 0 16) 0, .movk .x .x2 (d.extractLsb' 16 16) 1, .movk .x .x2 (d.extractLsb' 32 16) 2,
  .movk .x .x2 (d.extractLsb' 48 16) 3, .str .x .x2 .x3 .offset (BitVec.ofNat 64 (8 * i) - 168#64)]

def program (r : SgiSource) : List Instr :=
  r.searchProgram ++ r.trampolineDwords.zipIdx.flatMap (fun (d, i) => storeDword i d) ++
    [.movz .w .x2 0x03C0 0, .movk .w .x2 0xD65F 1, .str .w .x2 .x3 .offset (-80#64), .nop, .nop, .nop]

theorem disassemble_shellCode (r : SgiSource) : disassemble r.shellCode = some r.program := by
  cases r <;> decide +kernel

theorem length_shellCode (r : SgiSource) : r.shellCode.length = 416 := by
  cases r <;> decide +kernel

theorem length_program (r : SgiSource) : r.program.length = 104 := by
  cases r <;> rfl

/-! ## The search -/

/-- The program is at its `i`-th instruction and looks at `current`. -/
structure Searching (r : SgiSource) (s₀ : Cpu) (stop : BitVec 64) (i : Nat) (current : BitVec 64) (p : Places) (s : Cpu) :
    Prop where
  pc : s.pc = s₀.pc + BitVec.ofNat 64 (4 * i)
  mem : s.mem = s₀.mem
  current : s.x .x2 = current
  stop : s.x .x6 = stop
  gicInstr : s.x .x4 = p.gicInstr
  realEstateFunc : s.x .x3 = p.realEstateFunc
  msr : s.x .x8 = r.msr.setWidth 64
  marker : s.x .x7 = 0x0009001600090003#64
  kept : KeptRegs s₀.x s.x

variable {r : SgiSource} {s₀ s : Cpu} {stop current : BitVec 64} {p : Places} {n : Nat}

/-- The flags of `cmp x4, 0` and `ccmp x3, 0, 4, ne`. -/
theorem found_flag (p : Places) :
    (if p.gicInstr = 0#64 then ⟨false, true, false, false⟩ else subFlags p.realEstateFunc 0#64 : Flags).z = false ↔
      p.Found := by
  unfold Places.Found
  split_ifs with h
  · simp [h]
  · simp [h]

theorem look_run (hload : Loaded s₀.mem s₀.pc 0 r.program) (h : r.Searching s₀ stop 21 current p s) :
    Reaches (fun s' => if (r.look s₀.mem current p).Found then
      r.Searching s₀ stop 13 current (r.look s₀.mem current p) s' else
      r.Searching s₀ stop 30 current (r.look s₀.mem current p) s') s := by
  rw [← h.mem] at hload
  have hgic : (if s₀.mem.read32 current = r.msr then current else p.gicInstr) = (r.look s₀.mem current p).gicInstr := rfl
  have hfunc : (if s₀.mem.read64 current = s.x .x7 then current else p.realEstateFunc) =
      (r.look s₀.mem current p).realEstateFunc := by
    rw [h.marker]
    rfl
  refine .block 21 [.ldr .w .x5 .x2 .offset 0#64, .cmp .w .x5 .x8, .csel .x .x4 .x4 .x2 .ne,
    .ldr .x .x5 .x2 .offset 0#64, .cmp .x .x5 .x7, .csel .x .x3 .x3 .x2 .ne, .cmpImm .x .x4 0#64,
    .ccmpImm .x .x3 0#64 ⟨false, true, false, false⟩ .ne, .bCond .ne (-64#64)] hload (by decide) h.pc rfl rfl (.here ?_)
  simp [h.pc, h.mem, h.current, h.gicInstr, h.realEstateFunc, h.msr, BitVec.add_assoc]
  by_cases hfound : (r.look s₀.mem current p).Found
  · simp only [hgic, hfunc, found_flag, hfound, if_true]
    exact ⟨rfl, rfl, by simp [h.current], by simp [h.stop], by simp, by simp, by simp [h.msr], by simp [h.marker],
      by simp (disch := decide) [KeptRegs.update, h.kept]⟩
  · simp only [hgic, hfunc, found_flag, hfound, if_false]
    exact ⟨rfl, rfl, by simp [h.current], by simp [h.stop], by simp, by simp, by simp [h.msr], by simp [h.marker],
      by simp (disch := decide) [KeptRegs.update, h.kept]⟩

theorem nextWord_run (hload : Loaded s₀.mem s₀.pc 0 r.program) (h : r.Searching s₀ stop 30 current p s) :
    Reaches (fun s' => if stop ≤ current + 4#64 then r.Searching s₀ stop 13 (current + 4#64) p s' else
      r.Searching s₀ stop 21 (current + 4#64) p s') s := by
  rw [← h.mem] at hload
  refine .block 30 [.addImm .x .x2 .x2 4#64, .cmp .x .x2 .x6, .bCond .lo (-44#64)] hload (by decide) h.pc rfl rfl ?_
  by_cases hend : stop ≤ current + 4#64
  · simp [h.pc, h.mem, h.current, h.stop, hend, BitVec.add_assoc]
    rw [h.mem] at hload
    refine .block 33 [.b (-80#64)] hload (by decide) rfl rfl rfl (.here ?_)
    simp [BitVec.add_assoc]
    exact ⟨rfl, rfl, by simp, by simp [h.stop], by simp [h.gicInstr], by simp [h.realEstateFunc], by simp [h.msr],
      by simp [h.marker], by simp (disch := decide) [KeptRegs.update, h.kept]⟩
  · simp [h.pc, h.mem, h.current, h.stop, hend, BitVec.add_assoc]
    exact .here ⟨rfl, rfl, by simp, by simp [h.stop], by simp [h.gicInstr], by simp [h.realEstateFunc], by simp [h.msr],
      by simp [h.marker], by simp (disch := decide) [KeptRegs.update, h.kept]⟩

/-- The loop finds what `search` finds. -/
theorem search_run (hload : Loaded s₀.mem s₀.pc 0 r.program) (hfit : stop.toNat + 4 < 2 ^ 64)
    (hlt : current.toNat + 4 * n < stop.toNat) (hstop : stop.toNat ≤ current.toNat + 4 * (n + 1))
    (h : r.Searching s₀ stop 21 current p s) :
    Reaches (fun s' => ∃ last, r.Searching s₀ stop 13 last (r.search s₀.mem (n + 1) current p) s') s := by
  induction n generalizing current p s with
  | zero =>
    refine (look_run hload h).trans ?_
    intro s₁ h₁
    simp only [search, ite_self]
    split_ifs at h₁ with hfound
    · exact .here ⟨_, h₁⟩
    · have hend : stop ≤ current + 4#64 := by bv_omega
      refine (nextWord_run hload h₁).mono ?_
      intro s₂ h₂
      rw [if_pos hend] at h₂
      exact ⟨_, h₂⟩
  | succ n ih =>
    refine (look_run hload h).trans ?_
    intro s₁ h₁
    rw [search]
    split_ifs at h₁ ⊢ with hfound
    · exact .here ⟨_, h₁⟩
    · have hmore : ¬ stop ≤ current + 4#64 := by bv_omega
      refine (nextWord_run hload h₁).trans ?_
      intro s₂ h₂
      rw [if_neg hmore] at h₂
      exact ih (by bv_omega) (by bv_omega) h₂

/-! ## The patch -/

/-- The program is at its end. -/
structure Done (s₀ : Cpu) (m : ByteMemory) (s : Cpu) : Prop where
  pc : s.pc = s₀.pc + 416#64
  mem : s.mem = m
  kept : KeptRegs s₀.x s.x

/-- The program is about to store the `i`-th double word of the trampoline. -/
structure Storing (r : SgiSource) (s₀ : Cpu) (p : Places) (i : Nat) (m : ByteMemory) (s : Cpu) : Prop where
  pc : s.pc = s₀.pc + BitVec.ofNat 64 (4 * (43 + 5 * i))
  mem : s.mem = m
  loaded : Loaded m s₀.pc 43 r.program
  realEstateFunc : s.x .x3 = p.realEstateFunc
  kept : KeptRegs s₀.x s.x

variable {m : ByteMemory} {i : Nat}

theorem Storing.loaded_mem (h : r.Storing s₀ p i m s) : Loaded s.mem s₀.pc 43 r.program := by
  rw [h.mem]
  exact h.loaded

theorem storeDword_program (r : SgiSource) (hi : i < r.trampolineDwords.length) :
    (r.program.drop (43 + 5 * i)).take 5 = storeDword i r.trampolineDwords[i] := by
  cases r
  · simp only [trampolineDwords, List.length_cons, List.length_nil] at hi
    interval_cases i <;> rfl
  · simp only [trampolineDwords, List.length_cons, List.length_nil] at hi
    interval_cases i <;> rfl

/-- A double word put together from its four parts. -/
theorem movk_dword (d : BitVec 64) :
    (((d.extractLsb' 0 16).setWidth 64 &&& 0xFFFFFFFF0000FFFF#64 ||| (d.extractLsb' 16 16).setWidth 64 <<< 16) &&&
      0xFFFF0000FFFFFFFF#64 ||| (d.extractLsb' 32 16).setWidth 64 <<< 32) &&& 0x0000FFFFFFFFFFFF#64 |||
        (d.extractLsb' 48 16).setWidth 64 <<< 48 = d := by
  ext i hi
  simp only [BitVec.getElem_or, BitVec.getElem_and, BitVec.getElem_shiftLeft, BitVec.getElem_setWidth,
    BitVec.getLsbD_extractLsb']
  interval_cases i <;> simp

theorem store_run (hi : i < r.trampolineDwords.length) (h : r.Storing s₀ p i m s)
    (hload : Loaded (m.write64 (p.codeLocation + BitVec.ofNat 64 (8 * i)) r.trampolineDwords[i]) s₀.pc 43 r.program) :
    Reaches (r.Storing s₀ p (i + 1) (m.write64 (p.codeLocation + BitVec.ofNat 64 (8 * i)) r.trampolineDwords[i])) s := by
  refine .block (43 + 5 * i) (storeDword i r.trampolineDwords[i]) h.loaded_mem (by omega) h.pc (storeDword_program r hi)
    rfl (.here ?_)
  have haddr : p.realEstateFunc + (BitVec.ofNat 64 (8 * i) - 168#64) = p.codeLocation + BitVec.ofNat 64 (8 * i) := by
    unfold Places.codeLocation
    bv_omega
  simp [storeDword, h.pc, h.mem, h.realEstateFunc, movk_dword, haddr]
  exact ⟨by bv_omega, rfl, hload, by simp [h.realEstateFunc], by simp (disch := decide) [KeptRegs.update, h.kept]⟩

theorem length_trampolineDwords (r : SgiSource) : r.trampolineDwords.length = 11 := by
  cases r <;> rfl

/-- The stores of the first `j` double words. -/
theorem stores_run {j : Nat} (hapart : Apart p.codeLocation 92 s₀.pc 416) (hj : j ≤ 11) (h : r.Storing s₀ p 0 m s) :
    Reaches (r.Storing s₀ p j (m.writeDwords p.codeLocation (r.trampolineDwords.take j))) s := by
  have hlen := r.length_trampolineDwords
  induction j with
  | zero => exact .here h
  | succ j ih =>
    have hj' : j < r.trampolineDwords.length := by omega
    rw [List.take_add_one, List.getElem?_eq_getElem hj', Option.toList_some, writeDwords_concat, List.length_take,
      Nat.min_eq_left (by omega)]
    refine (ih (by omega)).trans fun s₁ h₁ => store_run hj' h₁ ?_
    refine h₁.loaded.write64 ?_ _
    rw [length_program]
    exact hapart.sub (8 * j) (by omega)

/-- The last store, and the padding. -/
theorem finish_run (hapart : Apart p.codeLocation 92 s₀.pc 416) (h : r.Storing s₀ p 11 m s) :
    Reaches (Done s₀ (m.write32 (p.codeLocation + 88#64) 0xD65F03C0#32)) s := by
  have hload' : Loaded (m.write32 (p.codeLocation + 88#64) 0xD65F03C0#32) s₀.pc 43 r.program :=
    h.loaded.congr fun i hi _ => write32_of_apart _ (hapart.sub 88 (by decide)) (by rwa [length_program] at hi)
  have haddr : p.realEstateFunc + 18446744073709551536#64 = p.codeLocation + 88#64 := by
    unfold Places.codeLocation
    bv_omega
  refine .block 98 [.movz .w .x2 0x03C0 0, .movk .w .x2 0xD65F 1, .str .w .x2 .x3 .offset (-80#64)] h.loaded_mem
    (by decide) h.pc (by cases r <;> rfl) rfl ?_
  simp [h.pc, h.mem, h.realEstateFunc, haddr, BitVec.add_assoc]
  refine .block 101 [.nop, .nop, .nop] hload' (by decide) rfl (by cases r <;> rfl) rfl (.here ?_)
  simp [BitVec.add_assoc]
  exact ⟨rfl, rfl, by simp (disch := decide) [KeptRegs.update, h.kept]⟩

/-- The branch as the program puts it together: bit 26, which is left out here, is set anyway. -/
theorem branch_word (v : BitVec 64) :
    (((v.setWidth 32).setWidth 64).extractLsb' 2 26).setWidth 32 ||| 0x94000000#32 =
      0x94000000#32 ||| ((v / 4#64).setWidth 32 &&& 0x7FFFFFF#32) := by
  rw [div_four]
  ext i hi
  simp only [BitVec.getElem_or, BitVec.getElem_and, BitVec.getElem_setWidth, BitVec.getLsbD_extractLsb',
    BitVec.getLsbD_setWidth, BitVec.getLsbD_ushiftRight]
  interval_cases i <;> simp

theorem branch_run (hload : Loaded s₀.mem s₀.pc 0 r.program) (hapart : Apart p.gicInstr 4 s₀.pc 416)
    (h : r.Searching s₀ stop 37 current p s) :
    Reaches (r.Storing s₀ p 0 (s₀.mem.write32 p.gicInstr (branchLocationInstruction p.gicInstr p.codeLocation))) s := by
  rw [← h.mem] at hload
  refine .block 37 [.subImm .x .x2 .x3 168#64, .sub .x .x2 .x2 .x4, .ubfm .w .x2 .x2 2 27, .movz .w .x5 0x9400 1,
    .logicReg .w .orr .x2 .x2 .x5 .lsl 0, .str .w .x2 .x4 .offset 0#64] hload (by decide) h.pc rfl rfl (.here ?_)
  simp [bitField, h.pc, h.mem, h.gicInstr, h.realEstateFunc, branch_word, BitVec.add_assoc]
  rw [h.mem] at hload
  refine ⟨rfl, rfl, ?_, by simp [h.realEstateFunc], by simp (disch := decide) [KeptRegs.update, h.kept]⟩
  refine (hload.mono (by decide)).congr fun i hi _ => write32_of_apart _ hapart ?_
  rwa [length_program] at hi

theorem leaveSearch_run (hload : Loaded s₀.mem s₀.pc 0 r.program) (h : r.Searching s₀ stop 13 current p s) :
    Reaches (fun s' => if p.Found then r.Searching s₀ stop 37 current p s' else Done s₀ s₀.mem s') s := by
  rw [← h.mem] at hload
  refine .block 13 [.ldr .x .x9 .x9 .offset 0#64, .cmp .x .x9 .x10, .b 76#64] hload (by decide) h.pc rfl rfl ?_
  simp [h.pc, h.mem, BitVec.add_assoc]
  rw [h.mem] at hload
  refine .block 34 [.cmpImm .x .x4 0#64, .ccmpImm .x .x3 0#64 ⟨false, true, false, false⟩ .ne, .bCond .eq 272#64] hload
    (by decide) rfl rfl rfl (.here ?_)
  simp [h.gicInstr, h.realEstateFunc, BitVec.add_assoc]
  have hflag := found_flag p
  by_cases hfound : p.Found
  · simp only [hflag.2 hfound, hfound, if_true, Bool.false_eq_true, if_false]
    exact ⟨rfl, rfl, by simp [h.current], by simp [h.stop], by simp [h.gicInstr], by simp [h.realEstateFunc],
      by simp [h.msr], by simp [h.marker], by simp (disch := decide) [KeptRegs.update, h.kept]⟩
  · have hz := Bool.eq_true_of_not_eq_false (mt hflag.1 hfound)
    simp only [hz, hfound, if_true, if_false]
    exact ⟨rfl, rfl, by simp (disch := decide) [KeptRegs.update, h.kept]⟩

theorem movk_msr (r : SgiSource) :
    (r.msr.extractLsb' 0 16).setWidth 64 &&& 0xFFFFFFFF0000FFFF#64 ||| 0xD5180000#64 = r.msr.setWidth 64 := by
  cases r <;> decide

theorem start_run (hload : Loaded s.mem s.pc 0 r.program) {base : BitVec 64} {size : BitVec 32}
    (hmod : firstModule s.mem (s.x .x0) = some (base, size)) :
    Reaches (fun s' => if moduleEnd base size ≤ base then r.Searching s (moduleEnd base size) 13 base ⟨0, 0⟩ s'
      else r.Searching s (moduleEnd base size) 21 base ⟨0, 0⟩ s') s := by
  obtain ⟨hentry, hbase, hsize⟩ := firstModule_eq_some hmod
  have hend : size.setWidth 64 + base = moduleEnd base size := BitVec.add_comm _ _
  refine .block 0 [.mov .x10 .x0, .ldr .x .x9 .x10 .pre 16#64, .cmp .x .x9 .x10, .bCond .eq 404#64] hload (by decide)
    (by simp) rfl rfl ?_
  simp [hentry, BitVec.add_assoc]
  refine .block 4 [.movz .x .x3 0 0, .movz .x .x4 0 0, .movz .w .x8 (r.msr.extractLsb' 0 16) 0, .movk .w .x8 0xD518#16 1,
    .movz .x .x7 3 0, .movk .x .x7 9 1, .movk .x .x7 0x16 2, .movk .x .x7 9 3, .b 16#64] hload (by decide) rfl rfl rfl
    ?_
  simp [BitVec.add_assoc]
  refine .block 16 [.ldr .x .x2 .x9 .offset 48#64, .ldr .w .x6 .x9 .offset 64#64, .add .x .x6 .x6 .x2, .cmp .x .x2 .x6,
    .bCond .hs (-28#64)] hload (by decide) rfl rfl rfl (.here ?_)
  simp [hbase, hsize, hend, movk_msr, BitVec.add_assoc]
  split_ifs with hle
  · exact ⟨rfl, rfl, by simp, by simp, by simp, by simp, by simp, by simp,
      by simp (disch := decide) [KeptRegs.update, KeptRegs.refl]⟩
  · exact ⟨rfl, rfl, by simp, by simp, by simp, by simp, by simp, by simp,
      by simp (disch := decide) [KeptRegs.update, KeptRegs.refl]⟩

/-! ## What is found -/

/-- What the rounds keep holds of what is found. -/
theorem search_induct {P : Places → Prop} (hp : P p)
    (hlook : ∀ k < n, ∀ q, P q → P (r.look m (cursor current k) q)) : P (r.search m n current p) := by
  induction n generalizing current p with
  | zero => exact hp
  | succ n ih =>
    have hfirst : P (r.look m current p) := by simpa using hlook 0 (by omega) p hp
    rw [search]
    split_ifs
    · exact hfirst
    · refine ih hfirst ?_
      intro k hk q hq
      have hnext := hlook (k + 1) (by omega) q hq
      rwa [show cursor current (k + 1) = cursor (current + 4) k by unfold cursor; bv_omega] at hnext

/-- What is found depends on what a round sees only. -/
theorem search_congr {m' : ByteMemory}
    (h : ∀ k < n, ∀ q, r.look m (cursor current k) q = r.look m' (cursor current k) q) :
    r.search m n current p = r.search m' n current p := by
  induction n generalizing current p with
  | zero => rfl
  | succ n ih =>
    have hfirst : r.look m current p = r.look m' current p := by simpa using h 0 (by omega) p
    have hrest (q : Places) : r.search m n (current + 4) q = r.search m' n (current + 4) q := by
      refine ih ?_
      intro k hk q
      rw [show cursor (current + 4) k = cursor current (k + 1) by unfold cursor; bv_omega]
      exact h (k + 1) (by omega) q
    rw [search, search, hfirst, hrest]

/-- What is found is on the grid of the module, and is what it was taken for. -/
structure FoundIn (r : SgiSource) (m : ByteMemory) (base : BitVec 64) (size : BitVec 32) (p : Places) : Prop where
  gicInstr : p.gicInstr ≠ 0 → (∃ k < moduleWords size, p.gicInstr = cursor base k) ∧ m.read32 p.gicInstr = r.msr
  realEstateFunc : p.realEstateFunc ≠ 0 →
    (∃ k < moduleWords size, p.realEstateFunc = cursor base k) ∧ m.read64 p.realEstateFunc = 0x0009001600090003#64

theorem foundIn_places (r : SgiSource) (m : ByteMemory) (base : BitVec 64) (size : BitVec 32) :
    r.FoundIn m base size (r.places base size m) := by
  refine search_induct ⟨fun h => absurd rfl h, fun h => absurd rfl h⟩ fun k hk q hq => ⟨?_, ?_⟩
  · simp only [look]
    split_ifs with hword
    · exact fun _ => ⟨⟨k, hk, rfl⟩, hword⟩
    · exact hq.gicInstr
  · simp only [look]
    split_ifs with hword
    · exact fun _ => ⟨⟨k, hk, rfl⟩, hword⟩
    · exact hq.realEstateFunc

variable {base : BitVec 64} {size : BitVec 32}

/-- The patch is written to the module and at most 168 bytes in front of it. -/
theorem FoundIn.apart (h : r.FoundIn m base size p) (hfound : p.Found) {c : BitVec 64} {l : Nat}
    (hapart : Apart (base - 168#64) (171 + size.toNat) c l) : Apart p.gicInstr 4 c l ∧ Apart p.codeLocation 92 c l := by
  obtain ⟨⟨k, hk, hsite⟩, -⟩ := h.gicInstr hfound.1
  obtain ⟨⟨j, hj, hfunc⟩, -⟩ := h.realEstateFunc hfound.2
  unfold moduleWords at hk hj
  constructor
  · rw [hsite, show cursor base k = base - 168#64 + BitVec.ofNat 64 (168 + 4 * k) by unfold cursor; bv_omega]
    exact hapart.sub (168 + 4 * k) (by omega)
  · rw [Places.codeLocation, hfunc,
      show cursor base j - 168#64 = base - 168#64 + BitVec.ofNat 64 (4 * j) by unfold cursor; bv_omega]
    exact hapart.sub (4 * j) (by omega)

/-- The shellcode does to the first module what `patch` does. -/
theorem shellCode_run (hload : Loaded s.mem s.pc 0 r.program)
    (hmod : firstModule s.mem (s.x .x0) = some (base, size)) (hfit : base.toNat + size.toNat + 4 < 2 ^ 64)
    (hapart : Apart (base - 168#64) (171 + size.toNat) s.pc 416) :
    Reaches (Done s (r.patch base size s.mem)) s := by
  have hend := toNat_moduleEnd hfit
  have hsearch : Reaches (fun s' => ∃ last, r.Searching s (moduleEnd base size) 13 last (r.places base size s.mem) s') s := by
    refine (start_run hload hmod).trans ?_
    intro s₁ h₁
    unfold places
    split_ifs at h₁ with hle
    · have hwords : moduleWords size = 0 := by
        unfold moduleWords
        bv_omega
      rw [hwords]
      exact .here ⟨_, h₁⟩
    · obtain ⟨n, hn⟩ : ∃ n, moduleWords size = n + 1 := ⟨moduleWords size - 1, by unfold moduleWords; bv_omega⟩
      rw [hn]
      unfold moduleWords at hn
      exact search_run hload (by omega) (by omega) (by omega) h₁
  refine hsearch.trans fun s₁ ⟨last, h₁⟩ => (leaveSearch_run hload h₁).trans fun s₂ h₂ => ?_
  unfold patch
  split_ifs at h₂ ⊢ with hfound
  · obtain ⟨hsite, hcode⟩ := (r.foundIn_places s.mem base size).apart hfound hapart
    refine (branch_run hload hsite h₂).trans fun s₃ h₃ => (stores_run hcode (Nat.le_refl 11) h₃).trans fun s₄ h₄ => ?_
    rw [List.take_of_length_le (by rw [length_trampolineDwords])] at h₄
    exact finish_run hcode h₄
  · exact .here h₂

/-! ## The stored trampoline -/

theorem patchAt_eq (r : SgiSource) (p : Places) (m : ByteMemory) :
    r.patchAt p m = (m.write32 p.gicInstr (branchLocationInstruction p.gicInstr p.codeLocation)).writeWords p.codeLocation
      r.trampoline := by
  rw [patchAt, writeDwords_eq, trampoline, writeWords_concat]
  cases r <;> rfl

theorem length_trampoline (r : SgiSource) : r.trampoline.length = 23 := by
  cases r <;> rfl

theorem holdsWords_patchAt (r : SgiSource) (p : Places) (m : ByteMemory) :
    HoldsWords (r.patchAt p m) p.codeLocation r.trampoline := by
  rw [patchAt_eq]
  exact holdsWords_writeWords _ _ (by rw [length_trampoline]; decide)

end SgiSource

/-- The module a shellcode works on, as its callers provide it: below the end of the address space, and with the 168
bytes in front of it apart from the code. -/
def RedirectFits (m : ByteMemory) (x0 c : BitVec 64) (len : Nat) : Prop :=
  ∀ base size, firstModule m x0 = some (base, size) →
    base.toNat + size.toNat + 4 < 2 ^ 64 ∧ Apart (base - 168#64) (171 + size.toNat) c len

/-- The shipped bytes, run on a kernel with both places, store the words of the trampoline. -/
theorem storedTrampoline_run (r : SgiSource) (s : Cpu) (hcode : Holds s.mem s.pc r.shellCode) {base : BitVec 64}
    {size : BitVec 32} (hmod : firstModule s.mem (s.x .x0) = some (base, size))
    (hfits : RedirectFits s.mem (s.x .x0) s.pc 416) (hfound : (r.places base size s.mem).Found) :
    Reaches (fun s' => s'.pc = s.pc + 416#64 ∧ ∀ t : Cpu, t.pc = (r.places base size s.mem).codeLocation →
      (∀ i < 92, t.mem (t.pc + BitVec.ofNat 64 i) = s'.mem (t.pc + BitVec.ofNat 64 i)) →
      HoldsWords t.mem t.pc r.trampoline) s := by
  have hload := Loaded.of_holds hcode r.disassemble_shellCode
  obtain ⟨hfit, hapart⟩ := hfits base size hmod
  refine (SgiSource.shellCode_run hload hmod hfit hapart).mono fun s' hdone => ⟨hdone.pc, fun t hpc hmem i hi => ?_⟩
  have hwords : HoldsWords s'.mem t.pc r.trampoline := by
    rw [hdone.mem, SgiSource.patch, if_pos hfound, hpc]
    exact r.holdsWords_patchAt _ _
  rw [← hwords i hi]
  refine read32_congr ?_
  intro j hj
  rw [r.length_trampoline] at hi
  rw [BitVec.add_assoc, ← BitVec.ofNat_add]
  exact hmem _ (by omega)

/-- **The shipped bytes, run on a kernel with both places, leave a trampoline in memory.** Called with any value in
its register on any core, the trampoline sends what `Send` sends, and returns with `x29`, `x30` and `sp` as they were.
-/
theorem shippedTrampoline_sends (r : SgiSource) (s : Cpu) (hcode : Holds s.mem s.pc r.shellCode) {base : BitVec 64}
    {size : BitVec 32} (hmod : firstModule s.mem (s.x .x0) = some (base, size))
    (hfits : RedirectFits s.mem (s.x .x0) s.pc 416) (hfound : (r.places base size s.mem).Found) :
    Reaches (fun s' => s'.pc = s.pc + 416#64 ∧ ∀ t : Cpu, t.pc = (r.places base size s.mem).codeLocation →
      (∀ i < 92, t.mem (t.pc + BitVec.ofNat 64 i) = s'.mem (t.pc + BitVec.ofNat 64 i)) →
      Apart (t.x .sp - 16) 16 t.pc 92 →
      Reaches (fun u => u.pc = t.x .x30 ∧ u.x .x29 = t.x .x29 ∧ u.x .x30 = t.x .x30 ∧ u.x .sp = t.x .sp ∧
        u.sgi = t.sgi ++ send (t.x r.reg) t.mpidr) t) s := by
  refine (storedTrampoline_run r s hcode hmod hfits hfound).mono fun s' ⟨hpc, hstored⟩ => ⟨hpc, fun t ht hmem hstack => ?_⟩
  exact SgiSource.trampoline_run (hstored t ht hmem) hstack

/-- **The same call returns with the registers of its caller as they were** if and only if the value is without the
flag, or the registers of the loop happen to hold what the loop ends with. -/
theorem shippedTrampoline_keeps_iff (r : SgiSource) (s : Cpu) (hcode : Holds s.mem s.pc r.shellCode) {base : BitVec 64}
    {size : BitVec 32} (hmod : firstModule s.mem (s.x .x0) = some (base, size))
    (hfits : RedirectFits s.mem (s.x .x0) s.pc 416) (hfound : (r.places base size s.mem).Found) :
    Reaches (fun s' => s'.pc = s.pc + 416#64 ∧ ∀ t : Cpu, t.pc = (r.places base size s.mem).codeLocation →
      (∀ i < 92, t.mem (t.pc + BitVec.ofNat 64 i) = s'.mem (t.pc + BitVec.ofNat 64 i)) →
      Apart (t.x .sp - 16) 16 t.pc 92 →
      Reaches (fun u => u.pc = t.x .x30 ∧
        ((∀ q ∈ SgiSource.calleeSaved, u.x q = t.x q) ↔ r.LeavesWorking t)) t) s := by
  refine (storedTrampoline_run r s hcode hmod hfits hfound).mono fun s' ⟨hpc, hstored⟩ => ⟨hpc, fun t ht hmem hstack => ?_⟩
  exact SgiSource.trampoline_keeps_iff (hstored t ht hmem) hstack

/-- A module of 64 words with the write to `ICC_SGI1R_EL1` from `r` behind the marker. -/
def sampleModule (r : SgiSource) : ByteMemory :=
  (ByteMemory.write32 (fun _ => 0) 0x200F0#64 r.msr).write64 0x200B0#64 0x0009001600090003#64

/-- The code and the loader block are in front of the module. -/
theorem sampleCpu_mem {x : BitVec 64} (image : ByteMemory) (size : BitVec 32) {code : List (BitVec 8)}
    (hcode : code.length ≤ 0x7000) (hx : 0x20000#64 ≤ x) : (sampleCpu image size code).mem x = image x := by
  have hout : (x - 0x1000#64).toNat ≥ code.length := by bv_omega
  simp only [sampleCpu]
  rw [writeBytes, List.getD_eq_getElem?_getD, List.getElem?_eq_none hout, Option.getD_none,
    write32_of_le _ (by bv_omega), write64_of_le _ (by bv_omega),
    write64_of_le _ (by bv_omega)]

theorem sampleCpu_places (r : SgiSource) (image : ByteMemory) (size : BitVec 32) {code : List (BitVec 8)}
    (hcode : code.length ≤ 0x7000) : r.places 0x20000#64 size (sampleCpu image size code).mem =
      r.places 0x20000#64 size image := by
  have hwords := moduleWords_le size
  have hread {x : BitVec 64} (hx : 0x20000#64 ≤ x) (hx' : x.toNat < 2 ^ 33) :
      (sampleCpu image size code).mem.read32 x = image.read32 x :=
    read32_congr fun i hi => sampleCpu_mem image size hcode (by bv_omega)
  refine SgiSource.search_congr ?_
  intro k hk q
  have hcursor : 0x20000#64 ≤ cursor 0x20000#64 k ∧ (cursor 0x20000#64 k).toNat < 2 ^ 33 - 4 := by
    unfold cursor
    bv_omega
  unfold SgiSource.look
  rw [read64, read64, hread hcursor.1 (by omega), hread (by bv_omega) (by bv_omega)]

/-- A call from the kernel with `v` in `x10`. -/
def sampleRegs (v : BitVec 64) (r : Reg) : BitVec 64 :=
  if r = .x10 then v else if r = .sp then 0x50000#64 else if r = .x30 then 0x200F4#64 else 0

/-- The processor in front of the shipped code, with that module. -/
def sampleRedirect : Cpu := sampleCpu (sampleModule .x10) 0x100#32 gicV3WithoutIrmFlagSupportPatch

theorem sampleRedirect_module : firstModule sampleRedirect.mem (sampleRedirect.x .x0) = some (0x20000#64, 0x100#32) := by
  decide +kernel

theorem sampleRedirect_places :
    SgiSource.x10.places 0x20000#64 0x100#32 sampleRedirect.mem = ⟨0x200F0#64, 0x200B0#64⟩ := by
  rw [sampleRedirect, sampleCpu_places _ _ _ (by decide +kernel)]
  decide +kernel

theorem sampleRedirect_found : (SgiSource.x10.places 0x20000#64 0x100#32 sampleRedirect.mem).Found := by
  rw [sampleRedirect_places]
  decide

theorem sampleRedirect_fits : RedirectFits sampleRedirect.mem (sampleRedirect.x .x0) sampleRedirect.pc 416 := by
  intro base size h
  obtain ⟨rfl, rfl⟩ : 0x20000#64 = base ∧ 0x100#32 = size := by simpa using sampleRedirect_module.symm.trans h
  exact ⟨by decide, apart_of_le (by decide +kernel) (by decide)⟩

theorem apart_sampleRegs (v : BitVec 64) : Apart (sampleRegs v .sp - 16) 16 0x20008#64 92 :=
  apart_of_le (show (0x20008#64).toNat + 92 ≤ (0x50000#64 - 16).toNat by decide)
    (show (0x50000#64 - 16).toNat + 16 ≤ 2 ^ 64 by decide)

theorem shippedTrampoline_sends_broadcast :
    Reaches (fun s' => Reaches (fun u => u.pc = 0x200F4#64 ∧ u.sgi = [] ++ send 0x1000F000000#64 0x81000200#64)
        ⟨sampleRegs 0x1000F000000#64, 0x20008#64, s'.flags, s'.mem, 0x81000200#64, []⟩)
      (sampleCpu (sampleModule .x10) 0x100#32 gicV3WithoutIrmFlagSupportPatch) := by
  refine (shippedTrampoline_sends .x10 sampleRedirect (holds_writeBytes _ _ (by decide +kernel)) sampleRedirect_module
    sampleRedirect_fits sampleRedirect_found).mono ?_
  rintro s' ⟨_, hcall⟩
  rw [sampleRedirect_places] at hcall
  have hsend := hcall ⟨sampleRegs 0x1000F000000#64, 0x20008#64, s'.flags, s'.mem, 0x81000200#64, []⟩ rfl (fun _ _ => rfl)
    (apart_sampleRegs 0x1000F000000#64)
  exact hsend.mono fun u ⟨hpc, _, _, _, hsgi⟩ => ⟨hpc, hsgi⟩

theorem shippedTrampoline_keeps_iff_single :
    Reaches (fun s' => Reaches (fun u => u.pc = 0x200F4#64 ∧
        ∀ q ∈ SgiSource.calleeSaved, u.x q = sampleRegs 0xF000000#64 q)
        ⟨sampleRegs 0xF000000#64, 0x20008#64, s'.flags, s'.mem, 0x81000200#64, []⟩) sampleRedirect := by
  refine (shippedTrampoline_keeps_iff .x10 sampleRedirect (holds_writeBytes _ _ (by decide +kernel)) sampleRedirect_module
    sampleRedirect_fits sampleRedirect_found).mono ?_
  rintro s' ⟨_, hcall⟩
  rw [sampleRedirect_places] at hcall
  have hclear : (sampleRegs 0xF000000#64 SgiSource.x10.reg).getLsbD 40 = false := by decide
  have hkept := hcall ⟨sampleRegs 0xF000000#64, 0x20008#64, s'.flags, s'.mem, 0x81000200#64, []⟩ rfl (fun _ _ => rfl)
    (apart_sampleRegs 0xF000000#64)
  exact hkept.mono fun u ⟨hpc, hiff⟩ => ⟨hpc, hiff.2 (.inl hclear)⟩

/-- With the flag, the call returns with another value in `x20`. -/
theorem shippedTrampoline_clobbers :
    Reaches (fun s' => Reaches (fun u => u.pc = 0x200F4#64 ∧ u.x .x20 = 8#64 ∧ sampleRegs 0x1000F000000#64 .x20 = 0#64)
        ⟨sampleRegs 0x1000F000000#64, 0x20008#64, s'.flags, s'.mem, 0x81000200#64, []⟩) sampleRedirect := by
  refine (storedTrampoline_run .x10 sampleRedirect (holds_writeBytes _ _ (by decide +kernel)) sampleRedirect_module
    sampleRedirect_fits sampleRedirect_found).mono ?_
  rintro s' ⟨_, hstored⟩
  rw [sampleRedirect_places] at hstored
  have hwords := hstored ⟨sampleRegs 0x1000F000000#64, 0x20008#64, s'.flags, s'.mem, 0x81000200#64, []⟩ rfl (fun _ _ => rfl)
  refine (SgiSource.trampoline_returns hwords (apart_sampleRegs 0x1000F000000#64)).mono ?_
  intro u hu
  rw [if_pos (show ((sampleRegs 0x1000F000000#64) SgiSource.x10.reg).getLsbD 40 = true by decide)] at hu
  exact ⟨hu.pc, hu.working.x20, by decide⟩

end Andromeda
