import AndromedaBoot.Errata.Reference
import AndromedaBoot.Errata.ShellCode

/-!
# The shellcode does what its reference does

The three programs that patch in place have one shape: find the first module, set up the constants, then go
round a loop over the words of the module. `Scanning` is what holds at any place of that loop. One round
does what the body of the reference does (`round_run`), so the program does what its inner loop does.
-/

namespace Andromeda

open Arm64 ByteMemory InPlace

namespace KernelPass

/-- The bytes that are shipped for a pass. -/
def shellCode : KernelPass → List (BitVec 8)
  | actlrEl1 => actlrEl1UnimplementedPatch
  | amcntenset0El0 => amcntenset0El0UnimplementedPatch
  | psciMemprotect => psciMemprotectFailingPatch

def program : KernelPass → List Instr
  | actlrEl1 => actlrEl1Program
  | amcntenset0El0 => amcntenset0El0Program
  | psciMemprotect => psciMemprotectProgram

theorem disassemble_shellCode (p : KernelPass) : disassemble p.shellCode = some p.program := by
  cases p
  · exact disassemble_actlrEl1
  · exact disassemble_amcntenset0El0
  · exact disassemble_psciMemprotect

/-! Where the parts of a program begin: the round, the step to the next word, the step to the
next module, and the end. -/

def roundAt : KernelPass → Nat
  | actlrEl1 => 17
  | amcntenset0El0 => 12
  | psciMemprotect => 29

def nextWordAt : KernelPass → Nat
  | actlrEl1 => 14
  | amcntenset0El0 => 9
  | psciMemprotect => 26

def nextModuleAt : KernelPass → Nat
  | actlrEl1 => 25
  | amcntenset0El0 => 17
  | psciMemprotect => 42

def endAt : KernelPass → Nat
  | actlrEl1 => 36
  | amcntenset0El0 => 28
  | psciMemprotect => 52

theorem length_shellCode (p : KernelPass) : p.shellCode.length = 4 * p.endAt := by
  cases p <;> decide +kernel

theorem length_program (p : KernelPass) : p.program.length = p.endAt := by
  cases p <;> rfl

/-- The register with the end of the module. -/
def stopReg : KernelPass → Reg
  | psciMemprotect => .x5
  | _ => .x4

/-- The registers with the constants of the loop. -/
def constants : KernelPass → List (Reg × BitVec 64)
  | actlrEl1 => [(.x6, 0xD5381028#64), (.x7, 0x2AE7EFD8#64), (.x9, 0xD2800008#64), (.x10, 0xD503201F#64)]
  | amcntenset0El0 => [(.x5, 0xD53BD2A8#64), (.x7, 0xD2800008#64)]
  | psciMemprotect => [(.x6, 0xD2800003180002D5#64), (.x7, 0xD2800002D2800003#64), (.x9, 0xD2800001D2800002#64),
      (.x10, 0x18000240D2800001#64), (.x11, 0xD65F03C0#64)]

/-- The program is at its `i`-th instruction, in the round for `current`. -/
structure Scanning (p : KernelPass) (s₀ : Cpu) (stop : BitVec 64) (i : Nat) (current : BitVec 64) (m : ByteMemory)
    (s : Cpu) : Prop where
  pc : s.pc = s₀.pc + BitVec.ofNat 64 (4 * i)
  mem : s.mem = m
  loaded : Loaded m s₀.pc 1 p.program
  current : s.x .x2 = current
  stop : s.x p.stopReg = stop
  constants : ∀ rv ∈ p.constants, s.x rv.1 = rv.2
  kept : KeptRegs s₀.x s.x

/-- The program is at its end. -/
structure Done (p : KernelPass) (s₀ : Cpu) (m : ByteMemory) (s : Cpu) : Prop where
  pc : s.pc = s₀.pc + BitVec.ofNat 64 (4 * p.endAt)
  mem : s.mem = m
  kept : KeptRegs s₀.x s.x

variable {p : KernelPass} {s₀ s : Cpu} {stop current : BitVec 64} {m : ByteMemory}

theorem Scanning.loaded_mem {i : Nat} (h : p.Scanning s₀ stop i current m s) : Loaded s.mem s₀.pc 1 p.program := by
  rw [h.mem]
  exact h.loaded

/-! ## The parts of a program -/

theorem nextModule_run (h : p.Scanning s₀ stop p.nextModuleAt current m s) : Reaches (p.Done s₀ m) s := by
  obtain ⟨hpc, rfl, hload, -, -, -, hkept⟩ := h
  cases p with
  | actlrEl1 =>
    refine .block 25 [.ldr .x .x8 .x8 .offset 0#64, .cmp .x .x8 .x11, .b 36#64] hload (by decide) hpc rfl rfl (.here ?_)
    exact ⟨by simp [hpc, nextModuleAt, endAt, BitVec.add_assoc], by simp, by simp (disch := decide) [KeptRegs.update, hkept]⟩
  | amcntenset0El0 =>
    refine .block 17 [.ldr .x .x6 .x6 .offset 0#64, .cmp .x .x6 .x8, .b 36#64] hload (by decide) hpc rfl rfl (.here ?_)
    exact ⟨by simp [hpc, nextModuleAt, endAt, BitVec.add_assoc], by simp, by simp (disch := decide) [KeptRegs.update, hkept]⟩
  | psciMemprotect =>
    refine .block 42 [.ldr .x .x8 .x8 .offset 0#64, .cmp .x .x8 .x12, .b 32#64] hload (by decide) hpc rfl rfl (.here ?_)
    exact ⟨by simp [hpc, nextModuleAt, endAt, BitVec.add_assoc], by simp, by simp (disch := decide) [KeptRegs.update, hkept]⟩

/-- From one place of the loop to another: all that changes is in `x2`, `x3`, the flags and memory. -/
theorem Scanning.move {i j : Nat} {current' : BitVec 64} {m' : ByteMemory} {s' : Cpu}
    (h : p.Scanning s₀ stop i current m s) (hpc : s'.pc = s₀.pc + BitVec.ofNat 64 (4 * j)) (hmem : s'.mem = m')
    (hload : Loaded m' s₀.pc 1 p.program) (hcurrent : s'.x .x2 = current')
    (hx : ∀ r, r ≠ .x2 → r ≠ .x3 → s'.x r = s.x r) : p.Scanning s₀ stop j current' m' s' where
  pc := hpc
  mem := hmem
  loaded := hload
  current := hcurrent
  stop := by
    rw [← h.stop]
    cases p <;> exact hx _ (by decide) (by decide)
  constants rv hrv := by
    rw [← h.constants rv hrv]
    refine hx rv.1 ?_ ?_
    · cases p <;> revert rv <;> decide +kernel
    · cases p <;> revert rv <;> decide +kernel
  kept r hr := by
    rw [← h.kept r hr]
    refine hx r ?_ ?_
    · rintro rfl
      simp [keptReg] at hr
    · rintro rfl
      simp [keptReg] at hr

theorem nextWord_run (h : p.Scanning s₀ stop p.nextWordAt current m s) :
    Reaches (fun s' => if stop ≤ current + 4#64 then p.Scanning s₀ stop p.nextModuleAt (current + 4#64) m s'
      else p.Scanning s₀ stop p.roundAt (current + 4#64) m s') s := by
  have hload := h.loaded_mem
  have hstop := h.stop
  cases p with
  | actlrEl1 =>
    simp only [stopReg] at hstop
    refine .block 14 [.addImm .x .x2 .x2 4#64, .cmp .x .x2 .x4, .bCond .hs 36#64] hload (by decide) h.pc rfl rfl
      (.here ?_)
    simp [h.pc, h.current, hstop, nextWordAt, BitVec.add_assoc]
    split_ifs with hle
    · exact h.move rfl h.mem h.loaded (by simp) fun r h2 h3 => by simp [h2]
    · exact h.move rfl h.mem h.loaded (by simp) fun r h2 h3 => by simp [h2]
  | amcntenset0El0 =>
    simp only [stopReg] at hstop
    refine .block 9 [.addImm .x .x2 .x2 4#64, .cmp .x .x2 .x4, .bCond .hs 24#64] hload (by decide) h.pc rfl rfl
      (.here ?_)
    simp [h.pc, h.current, hstop, nextWordAt, BitVec.add_assoc]
    split_ifs with hle
    · exact h.move rfl h.mem h.loaded (by simp) fun r h2 h3 => by simp [h2]
    · exact h.move rfl h.mem h.loaded (by simp) fun r h2 h3 => by simp [h2]
  | psciMemprotect =>
    simp only [stopReg] at hstop
    refine .block 26 [.addImm .x .x2 .x2 4#64, .cmp .x .x2 .x5, .bCond .hs 56#64] hload (by decide) h.pc rfl rfl
      (.here ?_)
    simp [h.pc, h.current, hstop, nextWordAt, BitVec.add_assoc]
    split_ifs with hle
    · exact h.move rfl h.mem h.loaded (by simp) fun r h2 h3 => by simp [h2]
    · exact h.move rfl h.mem h.loaded (by simp) fun r h2 h3 => by simp [h2]

/-! ## A round -/

theorem actlr_compare {w : BitVec 32} (h : ¬ (1#32 ≤ w + 0x2AE7EFD8#32 ∧ ¬ w + 0x2AE7EFD8#32 = 1#32)) :
    w = 0xD5181028#32 ∨ w = 0xD5181029#32 := by
  bv_omega

theorem actlr_round_run (h : actlrEl1.Scanning s₀ stop 17 current m s)
    (hload' : Loaded (actlrEl1.body m current) s₀.pc 1 actlrEl1Program) :
    Reaches (actlrEl1.Scanning s₀ stop 14 current (actlrEl1.body m current)) s := by
  have hload := h.loaded_mem
  have hconst := h.constants
  simp only [constants, List.forall_mem_cons] at hconst
  obtain ⟨h6, h7, h9, h10, -⟩ := hconst
  refine .block 17 [.ldr .w .x3 .x2 .offset 0#64, .cmp .w .x3 .x6, .bCond .eq (-24#64)] hload (by decide) h.pc rfl rfl
    ?_
  simp [h.pc, h.current, h.mem, BitVec.add_assoc]
  split_ifs with hword
  · have hmrs : m.read32 current = 0xD5381028#32 := by rw [hword, h6]; rfl
    have hbody : m.write32 current ((s.x .x9).setWidth 32) = actlrEl1.body m current := by
      rw [h9]
      exact (if_pos hmrs).symm
    refine .block 13 [.str .w .x9 .x2 .offset 0#64] h.loaded (by decide) rfl rfl rfl (.here ?_)
    simp [h.current, BitVec.add_assoc]
    exact h.move rfl hbody hload' (by simp [h.current]) fun r h2 h3 => by simp [h3]
  · have hmrs : m.read32 current ≠ 0xD5381028#32 := by rwa [h6] at hword
    refine .block 20 [.add .w .x3 .x3 .x7, .cmpImm .w .x3 1#64, .bCond .hi (-32#64)] h.loaded (by decide) rfl rfl rfl ?_
    simp [BitVec.add_assoc]
    split_ifs with hhi
    · have hmsr : ¬ (m.read32 current = 0xD5181028#32 ∨ m.read32 current = 0xD5181029#32) := by
        rintro (hw | hw)
        · rw [hw, h7] at hhi
          exact absurd hhi.1 (by decide)
        · rw [hw, h7] at hhi
          exact absurd rfl hhi.2
      have hbody : m = actlrEl1.body m current := by rw [body, if_neg hmrs, if_neg hmsr]
      exact .here (h.move rfl hbody hload' (by simp [h.current]) fun r h2 h3 => by simp [h3])
    · rw [h7] at hhi
      have hmsr := actlr_compare hhi
      have hbody : m.write32 current ((s.x .x10).setWidth 32) = actlrEl1.body m current := by
        rw [body, if_neg hmrs, if_pos hmsr, h10]
        rfl
      refine .block 23 [.str .w .x10 .x2 .offset 0#64] h.loaded (by decide) rfl rfl rfl ?_
      simp [h.current, hbody, BitVec.add_assoc]
      refine .block 24 [.b (-40#64)] hload' (by decide) rfl rfl rfl (.here ?_)
      simp [BitVec.add_assoc]
      exact h.move rfl rfl hload' (by simp [h.current]) fun r h2 h3 => by simp [h3]

theorem amcnt_round_run (h : amcntenset0El0.Scanning s₀ stop 12 current m s)
    (hload' : Loaded (amcntenset0El0.body m current) s₀.pc 1 amcntenset0El0Program) :
    Reaches (amcntenset0El0.Scanning s₀ stop 9 current (amcntenset0El0.body m current)) s := by
  have hload := h.loaded_mem
  have hconst := h.constants
  simp only [constants, List.forall_mem_cons] at hconst
  obtain ⟨h5, h7, -⟩ := hconst
  refine .block 12 [.ldr .w .x3 .x2 .offset 0#64, .cmp .w .x3 .x5, .bCond .ne (-20#64)] hload (by decide) h.pc rfl rfl
    ?_
  simp [h.pc, h.current, h.mem, BitVec.add_assoc]
  split_ifs with hword
  · have hmrs : m.read32 current = 0xD53BD2A8#32 := by rw [hword, h5]; rfl
    have hbody : m.write32 current ((s.x .x7).setWidth 32) = amcntenset0El0.body m current := by
      rw [h7]
      exact (if_pos hmrs).symm
    refine .block 15 [.str .w .x7 .x2 .offset 0#64] h.loaded (by decide) rfl rfl rfl ?_
    simp [h.current, hbody, BitVec.add_assoc]
    refine .block 16 [.b (-28#64)] hload' (by decide) rfl rfl rfl (.here ?_)
    simp [BitVec.add_assoc]
    exact h.move rfl rfl hload' (by simp [h.current]) fun r h2 h3 => by simp [h3]
  · have hmrs : m.read32 current ≠ 0xD53BD2A8#32 := by rwa [h5] at hword
    have hbody : m = amcntenset0El0.body m current := (if_neg hmrs).symm
    exact .here (h.move rfl hbody hload' (by simp [h.current]) fun r h2 h3 => by simp [h3])

/-- The mask leaves out the one bit in which the two loads differ. -/
theorem psci_compare (v : BitVec 64) :
    v &&& 0xFFFFFF7FFFFFFFFF#64 = 0x18000240D2800001#64 ↔ v = 0x18000240D2800001#64 ∨ v = 0x180002C0D2800001#64 := by
  constructor
  · intro h
    have hsplit : v = v &&& 0xFFFFFF7FFFFFFFFF#64 ||| v &&& BitVec.twoPow 64 39 := by
      rw [← BitVec.and_or_distrib_left]
      exact (BitVec.and_allOnes).symm
    rw [h, BitVec.and_twoPow] at hsplit
    split_ifs at hsplit
    · exact .inr hsplit
    · exact .inl hsplit
  · rintro (rfl | rfl) <;> rfl

theorem psci_round_run (h : psciMemprotect.Scanning s₀ stop 29 current m s)
    (hload' : Loaded (psciMemprotect.body m current) s₀.pc 1 psciMemprotectProgram) :
    Reaches (psciMemprotect.Scanning s₀ stop 26 current (psciMemprotect.body m current)) s := by
  have hload := h.loaded_mem
  have hconst := h.constants
  simp only [constants, List.forall_mem_cons] at hconst
  obtain ⟨h6, h7, h9, h10, h11, -⟩ := hconst
  refine .block 29 [.ldr .x .x3 .x2 .offset 0#64, .cmp .x .x3 .x6, .bCond .eq (-32#64)] hload (by decide) h.pc rfl rfl
    ?_
  simp [h.pc, h.current, h.mem, BitVec.add_assoc]
  split_ifs with hfirst
  · rw [h6] at hfirst
    refine .block 23 [.ldr .x .x3 .x2 .offset 8#64, .cmp .x .x3 .x9, .bCond .eq 60#64] h.loaded (by decide) rfl rfl rfl
      ?_
    simp [h.current, BitVec.add_assoc]
    split_ifs with hsecond
    · rw [h9] at hsecond
      have hbody : m.write32 (current + 18446744073709551584#64) ((s.x .x11).setWidth 32) =
          psciMemprotect.body m current := by
        have haddr : current + 18446744073709551584#64 = current - 32 := by bv_omega
        rw [haddr, h11]
        exact (if_pos ⟨hfirst, hsecond⟩).symm
      refine .block 40 [.str .w .x11 .x2 .offset (-32#64)] h.loaded (by decide) rfl rfl rfl ?_
      simp [h.current, hbody, BitVec.add_assoc]
      refine .block 41 [.b (-60#64)] hload' (by decide) rfl rfl rfl (.here ?_)
      simp [BitVec.add_assoc]
      exact h.move rfl rfl hload' (by simp [h.current]) fun r h2 h3 => by simp [h3]
    · rw [h9] at hsecond
      have hbody : m = psciMemprotect.body m current := by
        rw [body, if_neg (fun hm => hsecond hm.2), if_neg]
        rw [hfirst]
        exact fun hm => absurd hm.1 (by decide)
      exact .here (h.move rfl hbody hload' (by simp [h.current]) fun r h2 h3 => by simp [h3])
  · rw [h6] at hfirst
    refine .block 32 [.cmp .x .x3 .x7, .bCond .ne (-28#64)] h.loaded (by decide) rfl rfl rfl ?_
    simp [BitVec.add_assoc]
    split_ifs with hthird
    · rw [h7] at hthird
      refine .block 34 [.ldr .x .x3 .x2 .offset 8#64, .logicImm .and .x3 .x3 (-549755813889#64), .cmp .x .x3 .x10,
        .bCond .ne (-44#64)] h.loaded (by decide) rfl rfl rfl ?_
      simp [h.current, BitVec.add_assoc]
      split_ifs with hfourth
      · rw [h10, psci_compare] at hfourth
        have hbody : m.write32 (current + 18446744073709551588#64) ((s.x .x11).setWidth 32) =
            psciMemprotect.body m current := by
          have haddr : current + 18446744073709551588#64 = current - 28 := by bv_omega
          rw [haddr, h11]
          exact ((if_neg fun hm => hfirst hm.1).trans (if_pos ⟨hthird, hfourth⟩)).symm
        refine .block 38 [.str .w .x11 .x2 .offset (-28#64)] h.loaded (by decide) rfl rfl rfl ?_
        simp [h.current, hbody, BitVec.add_assoc]
        refine .block 39 [.b (-52#64)] hload' (by decide) rfl rfl rfl (.here ?_)
        simp [BitVec.add_assoc]
        exact h.move rfl rfl hload' (by simp [h.current]) fun r h2 h3 => by simp [h3]
      · rw [h10, psci_compare] at hfourth
        have hbody : m = psciMemprotect.body m current := by
          rw [body, if_neg (fun hm => hfirst hm.1), if_neg (fun hm => hfourth hm.2)]
        exact .here (h.move rfl hbody hload' (by simp [h.current]) fun r h2 h3 => by simp [h3])
    · rw [h7] at hthird
      have hbody : m = psciMemprotect.body m current := by
        rw [body, if_neg (fun hm => hfirst hm.1), if_neg (fun hm => hthird hm.1)]
      exact .here (h.move rfl hbody hload' (by simp [h.current]) fun r h2 h3 => by simp [h3])

theorem round_run (h : p.Scanning s₀ stop p.roundAt current m s)
    (hload : Loaded (p.body m current) s₀.pc 1 p.program) :
    Reaches (p.Scanning s₀ stop p.nextWordAt current (p.body m current)) s := by
  cases p with
  | actlrEl1 => exact actlr_round_run h hload
  | amcntenset0El0 => exact amcnt_round_run h hload
  | psciMemprotect => exact psci_round_run h hload

/-! ## The beginning -/

theorem start_empty (hload : Loaded s.mem s.pc 0 p.program) (hmod : firstModule s.mem (s.x .x0) = none) :
    Reaches (p.Done s s.mem) s := by
  have hempty := firstModule_eq_none hmod
  cases p with
  | actlrEl1 =>
    refine .block 0 [.mov .x11 .x0, .ldr .x .x8 .x11 .pre 16#64, .cmp .x .x8 .x11, .bCond .eq 132#64] hload (by decide)
      (by simp) rfl rfl (.here ?_)
    simp [hempty, BitVec.add_assoc]
    exact ⟨rfl, rfl, by simp (disch := decide) [KeptRegs.update, KeptRegs.refl]⟩
  | amcntenset0El0 =>
    refine .block 0 [.mov .x8 .x0, .ldr .x .x6 .x8 .pre 16#64, .cmp .x .x6 .x8, .bCond .eq 100#64] hload (by decide)
      (by simp) rfl rfl (.here ?_)
    simp [hempty, BitVec.add_assoc]
    exact ⟨rfl, rfl, by simp (disch := decide) [KeptRegs.update, KeptRegs.refl]⟩
  | psciMemprotect =>
    refine .block 0 [.mov .x12 .x0, .ldr .x .x8 .x12 .pre 16#64, .cmp .x .x8 .x12, .bCond .eq 196#64] hload (by decide)
      (by simp) rfl rfl (.here ?_)
    simp [hempty, BitVec.add_assoc]
    exact ⟨rfl, rfl, by simp (disch := decide) [KeptRegs.update, KeptRegs.refl]⟩

theorem actlr_start_run (hload : Loaded s.mem s.pc 0 actlrEl1Program) {base : BitVec 64} {size : BitVec 32}
    (hmod : firstModule s.mem (s.x .x0) = some (base, size)) :
    Reaches (fun s' => if moduleEnd base size ≤ base then actlrEl1.Scanning s (moduleEnd base size) 25 base s.mem s'
      else actlrEl1.Scanning s (moduleEnd base size) 17 base s.mem s') s := by
  obtain ⟨hentry, hbase, hsize⟩ := firstModule_eq_some hmod
  have hend : size.setWidth 64 + base = moduleEnd base size := BitVec.add_comm _ _
  refine .block 0 [.mov .x11 .x0, .ldr .x .x8 .x11 .pre 16#64, .cmp .x .x8 .x11, .bCond .eq 132#64] hload (by decide)
    (by simp) rfl rfl ?_
  simp [hentry, BitVec.add_assoc]
  refine .block 4 [.movz .w .x6 0x1028#16 0, .movk .w .x6 0xD538#16 1, .movz .w .x7 0xEFD8#16 0,
    .movk .w .x7 0x2AE7#16 1, .movz .w .x10 0x201F#16 0, .movk .w .x10 0xD503#16 1, .movz .w .x9 0x0008#16 0,
    .movk .w .x9 0xD280#16 1, .b 64#64] hload (by decide) rfl rfl rfl ?_
  simp [BitVec.add_assoc]
  refine .block 28 [.ldr .x .x2 .x8 .offset 48#64, .ldr .w .x4 .x8 .offset 64#64, .add .x .x4 .x4 .x2,
    .cmp .x .x2 .x4, .bCond .lo (-60#64)] hload (by decide) rfl rfl rfl ?_
  by_cases hle : moduleEnd base size ≤ base
  · simp [hbase, hsize, hend, hle, BitVec.add_assoc]
    refine .block 33 [.b (-32#64)] hload (by decide) rfl rfl rfl (.here ?_)
    simp [BitVec.add_assoc]
    exact ⟨rfl, rfl, hload.mono (by decide), by simp, by simp [stopReg], by simp [constants],
      by simp (disch := decide) [KeptRegs.update, KeptRegs.refl]⟩
  · simp [hbase, hsize, hend, hle, BitVec.add_assoc]
    exact .here ⟨rfl, rfl, hload.mono (by decide), by simp, by simp [stopReg], by simp [constants],
      by simp (disch := decide) [KeptRegs.update, KeptRegs.refl]⟩

theorem amcnt_start_run (hload : Loaded s.mem s.pc 0 amcntenset0El0Program) {base : BitVec 64} {size : BitVec 32}
    (hmod : firstModule s.mem (s.x .x0) = some (base, size)) :
    Reaches (fun s' => if moduleEnd base size ≤ base then amcntenset0El0.Scanning s (moduleEnd base size) 17 base s.mem s'
      else amcntenset0El0.Scanning s (moduleEnd base size) 12 base s.mem s') s := by
  obtain ⟨hentry, hbase, hsize⟩ := firstModule_eq_some hmod
  have hend : size.setWidth 64 + base = moduleEnd base size := BitVec.add_comm _ _
  refine .block 0 [.mov .x8 .x0, .ldr .x .x6 .x8 .pre 16#64, .cmp .x .x6 .x8, .bCond .eq 100#64] hload (by decide)
    (by simp) rfl rfl ?_
  simp [hentry, BitVec.add_assoc]
  refine .block 4 [.movz .w .x5 0xD2A8#16 0, .movk .w .x5 0xD53B#16 1, .movz .w .x7 0x0008#16 0,
    .movk .w .x7 0xD280#16 1, .b 48#64] hload (by decide) rfl rfl rfl ?_
  simp [BitVec.add_assoc]
  refine .block 20 [.ldr .x .x2 .x6 .offset 48#64, .ldr .w .x4 .x6 .offset 64#64, .add .x .x4 .x4 .x2,
    .cmp .x .x2 .x4, .bCond .lo (-48#64)] hload (by decide) rfl rfl rfl ?_
  by_cases hle : moduleEnd base size ≤ base
  · simp [hbase, hsize, hend, hle, BitVec.add_assoc]
    refine .block 25 [.b (-32#64)] hload (by decide) rfl rfl rfl (.here ?_)
    simp [BitVec.add_assoc]
    exact ⟨rfl, rfl, hload.mono (by decide), by simp, by simp [stopReg], by simp [constants],
      by simp (disch := decide) [KeptRegs.update, KeptRegs.refl]⟩
  · simp [hbase, hsize, hend, hle, BitVec.add_assoc]
    exact .here ⟨rfl, rfl, hload.mono (by decide), by simp, by simp [stopReg], by simp [constants],
      by simp (disch := decide) [KeptRegs.update, KeptRegs.refl]⟩

theorem psci_start_run (hload : Loaded s.mem s.pc 0 psciMemprotectProgram) {base : BitVec 64} {size : BitVec 32}
    (hmod : firstModule s.mem (s.x .x0) = some (base, size)) :
    Reaches (fun s' => if moduleEnd base size ≤ base then psciMemprotect.Scanning s (moduleEnd base size) 42 base s.mem s'
      else psciMemprotect.Scanning s (moduleEnd base size) 29 base s.mem s') s := by
  obtain ⟨hentry, hbase, hsize⟩ := firstModule_eq_some hmod
  have hend : size.setWidth 64 + base = moduleEnd base size := BitVec.add_comm _ _
  refine .block 0 [.mov .x12 .x0, .ldr .x .x8 .x12 .pre 16#64, .cmp .x .x8 .x12, .bCond .eq 196#64] hload (by decide)
    (by simp) rfl rfl ?_
  simp [hentry, BitVec.add_assoc]
  refine .block 4 [.movz .x .x6 0x02D5#16 0, .movk .x .x6 0x1800#16 1, .movk .x .x6 0x0003#16 2,
    .movk .x .x6 0xD280#16 3, .movz .x .x7 0x0003#16 0, .movk .x .x7 0xD280#16 1, .movk .x .x7 0x0002#16 2,
    .movk .x .x7 0xD280#16 3, .movz .x .x10 0x0001#16 0, .movk .x .x10 0xD280#16 1, .movk .x .x10 0x0240#16 2,
    .movk .x .x10 0x1800#16 3, .movz .w .x11 0x03C0#16 0, .movk .w .x11 0xD65F#16 1, .movz .x .x9 0x0002#16 0,
    .movk .x .x9 0xD280#16 1, .movk .x .x9 0x0001#16 2, .movk .x .x9 0xD280#16 3, .b 92#64] hload (by decide) rfl rfl
    rfl ?_
  simp [BitVec.add_assoc]
  refine .block 45 [.ldr .x .x2 .x8 .offset 48#64, .ldr .w .x5 .x8 .offset 64#64, .add .x .x5 .x5 .x2,
    .cmp .x .x2 .x5, .bCond .lo (-80#64)] hload (by decide) rfl rfl rfl ?_
  by_cases hle : moduleEnd base size ≤ base
  · simp [hbase, hsize, hend, hle, BitVec.add_assoc]
    refine .block 50 [.b (-32#64)] hload (by decide) rfl rfl rfl (.here ?_)
    simp [BitVec.add_assoc]
    exact ⟨rfl, rfl, hload.mono (by decide), by simp, by simp [stopReg], by simp [constants],
      by simp (disch := decide) [KeptRegs.update, KeptRegs.refl]⟩
  · simp [hbase, hsize, hend, hle, BitVec.add_assoc]
    exact .here ⟨rfl, rfl, hload.mono (by decide), by simp, by simp [stopReg], by simp [constants],
      by simp (disch := decide) [KeptRegs.update, KeptRegs.refl]⟩

theorem start_run (hload : Loaded s.mem s.pc 0 p.program) {base : BitVec 64} {size : BitVec 32}
    (hmod : firstModule s.mem (s.x .x0) = some (base, size)) :
    Reaches (fun s' => if moduleEnd base size ≤ base then p.Scanning s (moduleEnd base size) p.nextModuleAt base s.mem s'
      else p.Scanning s (moduleEnd base size) p.roundAt base s.mem s') s := by
  cases p with
  | actlrEl1 => exact actlr_start_run hload hmod
  | amcntenset0El0 => exact amcnt_start_run hload hmod
  | psciMemprotect => exact psci_start_run hload hmod

/-! ## The loop -/

/-- A round writes no instruction but perhaps the first: a word that begins in the module can end up to
three bytes behind it. -/
theorem loaded_body {base : BitVec 64} {size : BitVec 32} {c : BitVec 64}
    (hfit : base.toNat + size.toNat + 4 < 2 ^ 64)
    (hapart : Apart (base - 32) (32 + size.toNat) c p.shellCode.length) (hle : base ≤ current)
    (hlt : current < moduleEnd base size) (hload : Loaded m c 1 p.program) :
    Loaded (p.body m current) c 1 p.program := by
  rw [body_eq]
  cases hhit : p.hit m current with
  | none => exact hload
  | some aw =>
    obtain ⟨a, w⟩ := aw
    refine hload.congr fun i hi h4 => write32_of_le w ?_
    rw [length_program, ← length_shellCode] at hi
    rw [BitVec.le_def] at hle
    rw [BitVec.lt_def, toNat_moduleEnd hfit] at hlt
    -- the byte that is written is in the module or at most three behind its last
    by_contra hin
    have hoff : (c + BitVec.ofNat 64 i - (base - 32)).toNat < 35 + size.toNat := by
      rcases hit_addr hhit with rfl | rfl | rfl
      · bv_omega
      · bv_omega
      · bv_omega
    obtain ⟨o, ho, hbyte⟩ : ∃ o < 35 + size.toNat, c + BitVec.ofNat 64 i = base - 32 + BitVec.ofNat 64 o :=
      ⟨_, hoff, by bv_omega⟩
    by_cases hmodule : o < 32 + size.toNat
    · exact hapart o hmodule i hi hbyte.symm
    · obtain ⟨e, rfl⟩ : ∃ e, o = 31 + size.toNat + e := ⟨o - (31 + size.toNat), by omega⟩
      obtain ⟨j, rfl⟩ : ∃ j, i = j + e := ⟨i - e, by omega⟩
      rw [BitVec.ofNat_add, BitVec.ofNat_add, ← BitVec.add_assoc, ← BitVec.add_assoc, BitVec.add_left_inj] at hbyte
      exact hapart (31 + size.toNat) (by omega) j (by omega) hbyte.symm

theorem scan_run {base : BitVec 64} {size : BitVec 32} (hfit : base.toNat + size.toNat + 4 < 2 ^ 64)
    (hapart : Apart (base - 32) (32 + size.toNat) s₀.pc p.shellCode.length) {fuel : Nat} {m' : ByteMemory}
    (hloop : scanModule (p.body · ·) (moduleEnd base size) fuel current m = some m') (hle : base ≤ current)
    (hlt : current < moduleEnd base size) (h : p.Scanning s₀ (moduleEnd base size) p.roundAt current m s) :
    Reaches (p.Done s₀ m') s := by
  induction fuel generalizing current m s with
  | zero => simp [scanModule] at hloop
  | succ fuel ih =>
    rw [scanModule, if_pos hlt] at hloop
    refine (round_run h (loaded_body hfit hapart hle hlt h.loaded)).trans ?_
    intro s₁ h₁
    refine (nextWord_run h₁).trans ?_
    intro s₂ h₂
    split_ifs at h₂ with hend
    · obtain ⟨fuel, rfl⟩ : ∃ f, fuel = f + 1 := by
        refine ⟨fuel - 1, ?_⟩
        by_contra hzero
        obtain rfl : fuel = 0 := by omega
        simp [scanModule] at hloop
      have hstop : ¬ current + 4 < moduleEnd base size := BitVec.not_lt.2 hend
      rw [scanModule, if_neg hstop, Option.some.injEq] at hloop
      exact hloop ▸ nextModule_run h₂
    · refine ih hloop ?_ (BitVec.not_le.1 hend) h₂
      rw [BitVec.lt_def, toNat_moduleEnd hfit] at hlt
      bv_omega

end KernelPass

/-- The module a shellcode works on, as its callers provide it: below the end of the address space, and with the 32
bytes in front of it apart from the code. -/
def ModuleFits (m : ByteMemory) (x0 c : BitVec 64) (len : Nat) : Prop :=
  ∀ base size, firstModule m x0 = some (base, size) →
    base.toNat + size.toNat + 4 < 2 ^ 64 ∧ Apart (base - 32) (32 + size.toNat) c len

/-- **The shipped bytes of a pass**, run from the first, get to the address behind the last with the memory as the
inner loop of the reference leaves it for the first module, and as it was if there is no module. -/
theorem shellCode_refines_reference (p : KernelPass) (s : Cpu) (hcode : Holds s.mem s.pc p.shellCode)
    (hfits : ModuleFits s.mem (s.x .x0) s.pc p.shellCode.length) :
    Reaches (fun s' => s'.pc = s.pc + BitVec.ofNat 64 p.shellCode.length ∧ KeptRegs s.x s'.x ∧
      match firstModule s.mem (s.x .x0) with
      | none => s'.mem = s.mem
      | some (base, size) => p.innerLoop base size s.mem = some s'.mem) s := by
  have hload := Loaded.of_holds hcode p.disassemble_shellCode
  cases hmod : firstModule s.mem (s.x .x0) with
  | none =>
    refine (KernelPass.start_empty hload hmod).mono fun s' hdone => ⟨?_, hdone.kept, hdone.mem⟩
    rw [hdone.pc, p.length_shellCode]
  | some bs =>
    obtain ⟨base, size⟩ := bs
    obtain ⟨hfit, hapart⟩ := hfits base size hmod
    have hloop := p.innerLoop_eq hfit s.mem
    suffices hdone : Reaches (p.Done s (p.rule.run base (moduleWords size) s.mem)) s by
      refine hdone.mono fun s' hdone => ⟨?_, hdone.kept, ?_⟩
      · rw [hdone.pc, p.length_shellCode]
      · change p.innerLoop base size s.mem = some s'.mem
        rw [hloop, hdone.mem]
    refine (KernelPass.start_run hload hmod).trans ?_
    intro s₁ h₁
    split_ifs at h₁ with hend
    · have hwords : moduleWords size = 0 := by
        rw [BitVec.le_def, toNat_moduleEnd hfit] at hend
        unfold moduleWords
        omega
      rw [hwords]
      exact KernelPass.nextModule_run h₁
    · exact KernelPass.scan_run hfit hapart hloop (by simp) (BitVec.not_le.1 hend) h₁

/-- An image of one word, which reads `ACTLR_EL1`. -/
theorem shellCode_refines_reference_mrs :
    Reaches (fun s' => s'.pc = 0x1090#64 ∧
      KernelPass.actlrEl1.innerLoop 0x20000#64 4#32
        (sampleCpu (ByteMemory.write32 (fun _ => 0) 0x20000#64 0xD5381028#32) 4#32
          KernelPass.actlrEl1.shellCode).mem = some s'.mem)
      (sampleCpu (ByteMemory.write32 (fun _ => 0) 0x20000#64 0xD5381028#32) 4#32 KernelPass.actlrEl1.shellCode) := by
  have hmod : firstModule (sampleCpu (ByteMemory.write32 (fun _ => 0) 0x20000#64 0xD5381028#32) 4#32
      KernelPass.actlrEl1.shellCode).mem 0x8000#64 = some (0x20000#64, 4#32) := by decide +kernel
  have hrun := shellCode_refines_reference .actlrEl1 (sampleCpu (ByteMemory.write32 (fun _ => 0) 0x20000#64 0xD5381028#32)
    4#32 KernelPass.actlrEl1.shellCode) (holds_writeBytes _ _ (by decide +kernel)) ?_
  · refine hrun.mono fun s' ⟨hpc, _, hmem⟩ => ⟨by rw [hpc, KernelPass.length_shellCode]; rfl, ?_⟩
    simp only [sampleCpu, if_true] at hmod hmem ⊢
    rw [hmod] at hmem
    exact hmem
  · intro base size h
    obtain ⟨rfl, rfl⟩ : 0x20000#64 = base ∧ 4#32 = size := by simpa using hmod.symm.trans h
    exact ⟨by decide, apart_of_le (by decide +kernel) (by decide)⟩

end Andromeda
