import AndromedaBoot.Errata.ShellCode
import Mathlib.Tactic.IntervalCases

/-!
# Sending interrupts without the IRM flag

A write to `ICC_SGI1R_EL1` with bit 40 set asks for an interrupt on all other cores, which the platform does
not implement. The kernel's write is replaced by a call of a trampoline, which sends to one core after the
other instead.

| here | there |
| --- | --- |
| `send` | `Send`, `IRM/PoC2/test/test.cpp` :30-47 |
| `SgiSource.trampoline` | the words `IRM` and `IRM_X8` store, `IRM_X8/Reference/ShellCode.c` :206-217 |
-/

namespace Andromeda

open Arm64 ByteMemory

/-- The `do … while` loop of `Send`, with `v3` rounds to go. -/
def sendEach (sgi v1 : BitVec 64) : Nat → BitVec 64 → List (BitVec 64)
  | 0, _ => []
  | v3 + 1, v2 =>
    (if v2 ≠ v1 >>> 8 then [(sgi &&& 0xFFFFFEFFFFFFFFFE#64 ||| 1#64) ||| (v2 <<< 16)] else []) ++
      sendEach sgi v1 v3 (v2 + 1#64)

/-- `Send`: the values that are written for one write of `sgi`. -/
def send (sgi currentMpidr : BitVec 64) : List (BitVec 64) :=
  if sgi &&& 0x10000000000#64 ≠ 0 then sendEach sgi (currentMpidr &&& 0xF00#64) 8 0#64 else [sgi]

/-- The register the kernel writes to `ICC_SGI1R_EL1`. -/
inductive SgiSource
  | x10
  | x8
deriving DecidableEq

namespace SgiSource

/-- The register itself, and the one the trampoline uses beside it. -/
def reg : SgiSource → Reg
  | x10 => .x10
  | x8 => .x8

def scratch : SgiSource → Reg
  | x10 => .x8
  | x8 => .x10

/-- The double words of the trampoline, before its last word. -/
def trampolineDwords : SgiSource → List (BitVec 64)
  | x10 => [0x910003FDA9BF7BFD, 0x9257F94AB640024A, 0xAA0A03F6B240014A, 0x92780D29D53800A9, 0x52800115D2800014,
      0x540000A0EB49229F, 0xAA0802CAD370BE88, 0xD5033F9FD518CBAA, 0x510006B591000694, 0x1400000235FFFF15,
      0xA8C17BFDD518CBAA]
  | x8 => [0x910003FDA9BF7BFD, 0x9257F908B6400248, 0xAA0803F6B2400108, 0x92780D29D53800A9, 0x52800115D2800014,
      0x540000A0EB49229F, 0xAA0A02C8D370BE8A, 0xD5033F9FD518CBA8, 0x510006B591000694, 0x1400000235FFFF15,
      0xA8C17BFDD518CBA8]

/-- The trampoline. -/
def trampoline (r : SgiSource) : List (BitVec 32) :=
  r.trampolineDwords.flatMap (fun d => [d.extractLsb' 0 32, d.extractLsb' 32 32]) ++ [0xD65F03C0]

def trampolineProgram (r : SgiSource) : List Instr := [
  .stp .x29 .x30 .sp .pre (-16#64), .addImm .x .x29 .sp 0#64, .tbz r.reg 40 72#64,
  .logicImm .and r.reg r.reg 0xFFFFFEFFFFFFFFFF#64, .logicImm .orr r.reg r.reg 1#64, .mov .x22 r.reg,
  .mrsMpidrEl1 .x9, .logicImm .and .x9 .x9 0xF00#64, .movz .x .x20 0 0, .movz .w .x21 8 0,
  .arithReg .x .subs .sp .x20 .x9 .lsr 8, .bCond .eq 20#64,
  .ubfm .x r.scratch .x20 48 47, .logicReg .x .orr r.reg .x22 r.scratch .lsl 0, .msrIccSgi1rEl1 r.reg, .dsb,
  .addImm .x .x20 .x20 1#64, .subImm .w .x21 .x21 1#64, .cbnz .w .x21 (-32#64), .b 8#64,
  .msrIccSgi1rEl1 r.reg, .ldp .x29 .x30 .sp .post 16#64, .ret .x30]

theorem decode_trampoline (r : SgiSource) : r.trampoline.mapM decode = some r.trampolineProgram := by
  cases r <;> decide +kernel

/-! ## The loop -/

variable {r : SgiSource} {t s : Cpu} {sgi v1 v2 : BitVec 64} {n : Nat} {m : ByteMemory}

/-- A register that no instruction of the trampolines writes. -/
structure Untouched (q : Reg) : Prop where
  x8 : q ≠ .x8
  x9 : q ≠ .x9
  x10 : q ≠ .x10
  x20 : q ≠ .x20
  x21 : q ≠ .x21
  x22 : q ≠ .x22
  x29 : q ≠ .x29
  x30 : q ≠ .x30
  sp : q ≠ .sp

/-- The registers the loop works with: the core, the number of cores to go and the value. -/
structure Working (core count value : BitVec 64) (s : Cpu) : Prop where
  x20 : s.x .x20 = core
  x21 : s.x .x21 = count
  x22 : s.x .x22 = value

/-- The trampoline called in `t` is at its `i`-th instruction. -/
structure Inside (r : SgiSource) (t : Cpu) (i : Nat) (m : ByteMemory) (s : Cpu) : Prop where
  pc : s.pc = t.pc + BitVec.ofNat 64 (4 * i)
  mem : s.mem = m
  loaded : Loaded m t.pc 1 r.trampolineProgram
  sp : s.x .sp = t.x .sp - 16
  kept : ∀ q, Untouched q → s.x q = t.x q

theorem Inside.loaded_mem {i : Nat} (h : r.Inside t i m s) : Loaded s.mem t.pc 1 r.trampolineProgram := by
  rw [h.mem]
  exact h.loaded

/-- The value that is sent to each core, before the core is put in. -/
def sentValue (sgi : BitVec 64) : BitVec 64 := sgi &&& 0xFFFFFEFFFFFFFFFE#64 ||| 1#64

/-- The loop is to send to the cores from `v2` on. -/
structure Sending (r : SgiSource) (t : Cpu) (sgi v1 : BitVec 64) (n : Nat) (v2 : BitVec 64) (m : ByteMemory) (s : Cpu) :
    Prop extends r.Inside t 10 m s where
  own : s.x .x9 = v1
  working : Working v2 (BitVec.ofNat 64 n) (sentValue sgi) s

theorem count_down (hn : n < 8) : (BitVec.ofNat 32 (n + 1) - 1#32).setWidth 64 = BitVec.ofNat 64 n := by
  interval_cases n <;> rfl

theorem shift_core (v : BitVec 64) : (v.extractLsb' 0 48).setWidth 64 <<< 16 = v <<< 16 := by
  ext i hi
  simp only [BitVec.getElem_shiftLeft]
  by_cases h : i < 16
  · simp [h]
  · simp [h, show i - 16 < 48 by omega, show i - 16 < 64 by omega]

/-- The end of a round: go to the next core if there is one. -/
theorem nextCore_run {l : List (BitVec 64)} (hn : n < 8) (h : r.Inside t 16 m s) (hown : s.x .x9 = v1)
    (hworking : Working v2 (BitVec.ofNat 64 (n + 1)) (sentValue sgi) s) (hsgi : s.sgi = l) :
    Reaches (fun s' => s'.sgi = l ∧
      (if n = 0 then r.Inside t 19 m s' ∧ Working (v2 + 1#64) 0#64 (sentValue sgi) s'
        else r.Sending t sgi v1 n (v2 + 1#64) m s')) s := by
  have hload := h.loaded_mem
  have hdown := count_down hn
  refine .block 16 [.addImm .x .x20 .x20 1#64, .subImm .w .x21 .x21 1#64, .cbnz .w .x21 (-32#64)] hload (by decide) h.pc
    rfl rfl (.here ?_)
  by_cases hzero : n = 0
  · subst hzero
    simp [hworking.x20, hworking.x21, h.pc, hsgi, BitVec.add_assoc]
    exact ⟨⟨rfl, h.mem, h.loaded, by simp [h.sp], fun q hq => by simp [hq.x20, hq.x21, h.kept q hq]⟩,
      ⟨by simp, by simp, by simp [hworking.x22]⟩⟩
  · have hne : (BitVec.ofNat 32 n).setWidth 64 ≠ 0#64 := by bv_omega
    simp [hworking.x20, hworking.x21, hdown, hne, hzero, hsgi, h.pc, BitVec.add_assoc]
    exact ⟨⟨rfl, h.mem, h.loaded, by simp [h.sp], fun q hq => by simp [hq.x20, hq.x21, h.kept q hq]⟩, by simp [hown],
      ⟨by simp, by simp, by simp [hworking.x22]⟩⟩

theorem round_run (hn : n < 8) (h : r.Sending t sgi v1 (n + 1) v2 m s) :
    Reaches (fun s' => s'.sgi = s.sgi ++
        (if v2 ≠ v1 >>> 8 then [(sgi &&& 0xFFFFFEFFFFFFFFFE#64 ||| 1#64) ||| (v2 <<< 16)] else []) ∧
      (if n = 0 then r.Inside t 19 m s' ∧ Working (v2 + 1#64) 0#64 (sentValue sgi) s'
        else r.Sending t sgi v1 n (v2 + 1#64) m s')) s := by
  have hload := h.loaded_mem
  have hcore := h.working.x20
  have hvalue := h.working.x22
  unfold sentValue at hvalue
  refine .block 10 [.arithReg .x .subs .sp .x20 .x9 .lsr 8, .bCond .eq 20#64] hload (by decide) h.pc rfl rfl ?_
  simp only [List.foldl]
  by_cases heq : v2 = v1 >>> 8
  · simp [h.pc, h.own, hcore, heq, BitVec.add_assoc]
    exact nextCore_run hn ⟨rfl, h.mem, h.loaded, h.sp, h.kept⟩ h.own
      ⟨hcore.trans heq, h.working.x21, h.working.x22⟩ rfl
  · simp [h.pc, h.own, hcore, heq, BitVec.add_assoc]
    refine .block 12 [.ubfm .x r.scratch .x20 48 47, .logicReg .x .orr r.reg .x22 r.scratch .lsl 0,
      .msrIccSgi1rEl1 r.reg, .dsb] hload (by decide) rfl rfl rfl ?_
    cases r with
    | x10 =>
      simp [reg, scratch, bitField, hcore, hvalue, shift_core, BitVec.add_assoc]
      exact nextCore_run hn ⟨rfl, h.mem, h.loaded, by simp [h.sp], fun q hq => by simp [hq.x8, hq.x10, h.kept q hq]⟩
        (by simp [h.own]) ⟨by simp [hcore], by simp [h.working.x21], by simp [h.working.x22]⟩ rfl
    | x8 =>
      simp [reg, scratch, bitField, hcore, hvalue, shift_core, BitVec.add_assoc]
      exact nextCore_run hn ⟨rfl, h.mem, h.loaded, by simp [h.sp], fun q hq => by simp [hq.x8, hq.x10, h.kept q hq]⟩
        (by simp [h.own]) ⟨by simp [hcore], by simp [h.working.x21], by simp [h.working.x22]⟩ rfl

/-- The loop sends to each core but the own one. -/
theorem loop_run (hn : n < 8) (h : r.Sending t sgi v1 (n + 1) v2 m s) :
    Reaches (fun s' => s'.sgi = s.sgi ++ sendEach sgi v1 (n + 1) v2 ∧ r.Inside t 19 m s' ∧
      Working (v2 + BitVec.ofNat 64 (n + 1)) 0#64 (sentValue sgi) s') s := by
  induction n generalizing v2 s with
  | zero =>
    refine (round_run hn h).mono fun s' ⟨hsgi, hend⟩ => ⟨?_, hend⟩
    rw [hsgi, sendEach, sendEach, List.append_nil]
  | succ n ih =>
    refine (round_run hn h).trans ?_
    rintro s₁ ⟨hsgi, h₁⟩
    rw [if_neg (Nat.succ_ne_zero n)] at h₁
    refine (ih (by omega) h₁).mono fun s' ⟨hsgi', hend, hworking⟩ => ⟨?_, hend, ?_⟩
    · rw [hsgi', hsgi, List.append_assoc]
      rfl
    · rwa [show v2 + 1#64 + BitVec.ofNat 64 (n + 1) = v2 + BitVec.ofNat 64 (n + 1 + 1) by bv_omega] at hworking

/-! ## The trampoline -/

theorem irm_iff (v : BitVec 64) : v &&& 0x10000000000#64 ≠ 0 ↔ v.getLsbD 40 = true := by
  rw [show 0x10000000000#64 = BitVec.twoPow 64 40 from rfl, BitVec.and_twoPow]
  split_ifs with h
  · exact ⟨fun _ => h, fun _ => by decide⟩
  · exact ⟨fun hne => absurd rfl hne, fun hbit => absurd hbit h⟩

theorem clear_irm (v : BitVec 64) :
    v &&& 0xFFFFFEFFFFFFFFFF#64 ||| 1#64 = v &&& 0xFFFFFEFFFFFFFFFE#64 ||| 1#64 := by
  rw [show 0xFFFFFEFFFFFFFFFF#64 = 0xFFFFFEFFFFFFFFFE#64 ||| 1#64 from rfl, BitVec.and_or_distrib_left, BitVec.or_assoc]
  congr 1
  ext i hi
  by_cases h : i = 0
  · simp [h]
  · simp [h]

/-- The memory of the trampoline: the two registers it saves on the stack. -/
def savedMem (t : Cpu) : ByteMemory := (t.mem.write64 (t.x .sp - 16) (t.x .x29)).write64 (t.x .sp - 16 + 8) (t.x .x30)

theorem loaded_savedMem (hload : Loaded t.mem t.pc 0 r.trampolineProgram) (hstack : Apart (t.x .sp - 16) 16 t.pc 92) :
    Loaded (savedMem t) t.pc 0 r.trampolineProgram := by
  have hfirst : Apart (t.x .sp - 16 + BitVec.ofNat 64 0) 8 t.pc 92 := hstack.sub 0 (by decide)
  rw [BitVec.add_zero] at hfirst
  exact (hload.write64 hfirst _).write64 (hstack.sub 8 (by decide)) _

theorem read64_savedMem (t : Cpu) : (savedMem t).read64 (t.x .sp - 16#64) = t.x .x29 ∧
    (savedMem t).read64 (t.x .sp - 16#64 + 8#64) = t.x .x30 := by
  constructor
  · exact (read64_write64_of_le _ (by bv_omega) (by bv_omega)).trans (read64_write64 _ _ _)
  · exact read64_write64 _ _ _

/-- The trampoline called in `t` has sent `l` and returned. -/
structure Returned (t : Cpu) (l : List (BitVec 64)) (core count value : BitVec 64) (u : Cpu) : Prop where
  pc : u.pc = t.x .x30
  x29 : u.x .x29 = t.x .x29
  x30 : u.x .x30 = t.x .x30
  sp : u.x .sp = t.x .sp
  sgi : u.sgi = l
  kept : ∀ q, Untouched q → u.x q = t.x q
  working : Working core count value u

variable {core count value : BitVec 64} {l : List (BitVec 64)}

/-- Restore the saved registers and return. -/
theorem return_run (h : r.Inside t 21 (savedMem t) s) (hworking : Working core count value s) (hsgi : s.sgi = l) :
    Reaches (Returned t l core count value) s := by
  have hload := h.loaded_mem
  obtain ⟨h29, h30⟩ := read64_savedMem t
  have hsp : t.x .sp - 16#64 + 16#64 = t.x .sp := by bv_omega
  have hsp' : s.x .sp = t.x .sp - 16#64 := h.sp
  refine .block 21 [.ldp .x29 .x30 .sp .post 16#64, .ret .x30] hload (by decide) h.pc rfl rfl (.here ?_)
  simp [hsp', h.mem, h29, h30, hsp, hsgi]
  exact ⟨rfl, by simp, by simp, by simp, rfl, fun q hq => by simp [hq.x29, hq.x30, hq.sp, h.kept q hq],
    ⟨by simp [hworking.x20], by simp [hworking.x21], by simp [hworking.x22]⟩⟩

/-- At the `i`-th instruction, with nothing sent yet. -/
structure Called (r : SgiSource) (t : Cpu) (i : Nat) (s : Cpu) : Prop extends r.Inside t i (savedMem t) s where
  value : s.x r.reg = t.x r.reg
  mpidr : s.mpidr = t.mpidr
  sgi : s.sgi = t.sgi
  working : Working (t.x .x20) (t.x .x21) (t.x .x22) s

theorem save_run (hload : Loaded t.mem t.pc 0 r.trampolineProgram) (hstack : Apart (t.x .sp - 16) 16 t.pc 92) :
    Reaches (r.Called t 1) t := by
  have hsp : t.x .sp + 18446744073709551600#64 = t.x .sp - 16 := by bv_omega
  refine .block 0 [.stp .x29 .x30 .sp .pre (-16#64)] hload (by decide) (by simp) rfl rfl (.here ?_)
  simp [hsp]
  refine ⟨⟨rfl, rfl, (loaded_savedMem hload hstack).mono (by decide), by simp, fun q hq => by simp [hq.sp]⟩, ?_, rfl, rfl,
    ⟨by simp, by simp, by simp⟩⟩
  cases r <;> simp [reg]

theorem test_run (h : r.Called t 1 s) :
    Reaches (r.Called t (if (t.x r.reg).getLsbD 40 then 3 else 20)) s := by
  have hload := h.loaded_mem
  have hvalue := h.value
  refine .block 1 [.addImm .x .x29 .sp 0#64, .tbz r.reg 40 72#64] hload (by decide) h.pc rfl rfl (.here ?_)
  -- the frame pointer is all that is written
  have hcalled {i : Nat} {pc : BitVec 64} {flags : Flags} (hpc : pc = t.pc + BitVec.ofNat 64 (4 * i)) :
      r.Called t i ⟨Function.update s.x .x29 (s.x .sp), pc, flags, s.mem, s.mpidr, s.sgi⟩ := by
    refine ⟨⟨hpc, h.mem, h.loaded, by simp [h.sp], fun q hq => by simp [hq.x29, h.kept q hq]⟩, ?_, h.mpidr, h.sgi,
      ⟨by simp [h.working.x20], by simp [h.working.x21], by simp [h.working.x22]⟩⟩
    cases r <;> simpa [reg] using hvalue
  cases hirm : (t.x r.reg).getLsbD 40 with
  | true =>
    cases r <;> simp [reg] at hvalue hirm <;> simp [reg, hvalue, hirm, h.pc, BitVec.add_assoc]
    · exact hcalled rfl
    · exact hcalled rfl
  | false =>
    cases r <;> simp [reg] at hvalue hirm <;> simp [reg, hvalue, hirm, h.pc, BitVec.add_assoc]
    · exact hcalled rfl
    · exact hcalled rfl

theorem prepare_run (h : r.Called t 3 s) :
    Reaches (fun s' => s'.sgi = t.sgi ∧
      r.Sending t (t.x r.reg) (t.mpidr &&& 0xF00#64) 8 0#64 (savedMem t) s') s := by
  have hload := h.loaded_mem
  have hvalue := h.value
  refine .block 3 [.logicImm .and r.reg r.reg 0xFFFFFEFFFFFFFFFF#64, .logicImm .orr r.reg r.reg 1#64, .mov .x22 r.reg,
    .mrsMpidrEl1 .x9, .logicImm .and .x9 .x9 0xF00#64, .movz .x .x20 0 0, .movz .w .x21 8 0] hload (by decide) h.pc rfl
    rfl (.here ?_)
  cases r with
  | x10 =>
    simp only [reg] at hvalue
    simp [reg, hvalue, h.pc, h.mpidr, h.sgi, BitVec.add_assoc, clear_irm]
    exact ⟨⟨rfl, h.mem, h.loaded, by simp [h.sp],
      fun q hq => by simp [hq.x9, hq.x10, hq.x20, hq.x21, hq.x22, h.kept q hq]⟩, by simp,
      ⟨by simp, by simp, by simp [sentValue]⟩⟩
  | x8 =>
    simp only [reg] at hvalue
    simp [reg, hvalue, h.pc, h.mpidr, h.sgi, BitVec.add_assoc, clear_irm]
    exact ⟨⟨rfl, h.mem, h.loaded, by simp [h.sp],
      fun q hq => by simp [hq.x9, hq.x8, hq.x20, hq.x21, hq.x22, h.kept q hq]⟩, by simp,
      ⟨by simp, by simp, by simp [sentValue]⟩⟩

/-- A value without the flag is sent as it is. -/
theorem single_run (h : r.Called t 20 s) :
    Reaches (fun s' => s'.sgi = t.sgi ++ [t.x r.reg] ∧ r.Inside t 21 (savedMem t) s' ∧
      Working (t.x .x20) (t.x .x21) (t.x .x22) s') s := by
  have hload := h.loaded_mem
  have hvalue := h.value
  refine .block 20 [.msrIccSgi1rEl1 r.reg] hload (by decide) h.pc rfl rfl (.here ?_)
  cases r with
  | x10 =>
    simp only [reg] at hvalue
    simp [reg, hvalue, h.pc, h.sgi, BitVec.add_assoc]
    exact ⟨⟨rfl, h.mem, h.loaded, h.sp, h.kept⟩, ⟨h.working.x20, h.working.x21, h.working.x22⟩⟩
  | x8 =>
    simp only [reg] at hvalue
    simp [reg, hvalue, h.pc, h.sgi, BitVec.add_assoc]
    exact ⟨⟨rfl, h.mem, h.loaded, h.sp, h.kept⟩, ⟨h.working.x20, h.working.x21, h.working.x22⟩⟩

theorem leaveLoop_run (h : r.Inside t 19 m s) (hworking : Working core count value s) (hsgi : s.sgi = l) :
    Reaches (fun s' => s'.sgi = l ∧ r.Inside t 21 m s' ∧ Working core count value s') s := by
  have hload := h.loaded_mem
  refine .block 19 [.b 8#64] hload (by decide) h.pc rfl rfl (.here ?_)
  simp [h.pc, hsgi, BitVec.add_assoc]
  exact ⟨⟨rfl, h.mem, h.loaded, h.sp, h.kept⟩, ⟨hworking.x20, hworking.x21, hworking.x22⟩⟩

/-- **A call of the trampoline sends what `Send` sends**, and returns. For a value with the flag, the registers of its loop
are left as they are then. -/
theorem trampoline_returns (hwords : HoldsWords t.mem t.pc r.trampoline) (hstack : Apart (t.x .sp - 16) 16 t.pc 92) :
    Reaches (fun u =>
      if (t.x r.reg).getLsbD 40 then
        Returned t (t.sgi ++ send (t.x r.reg) t.mpidr) 8#64 0#64 (sentValue (t.x r.reg)) u
      else Returned t (t.sgi ++ send (t.x r.reg) t.mpidr) (t.x .x20) (t.x .x21) (t.x .x22) u) t := by
  have hload := Loaded.of_words hwords r.decode_trampoline
  refine (save_run hload hstack).trans fun s₁ h₁ => (test_run h₁).trans fun s₂ h₂ => ?_
  by_cases hirm : (t.x r.reg).getLsbD 40 = true
  · rw [if_pos hirm] at h₂
    simp only [if_pos hirm]
    rw [send, if_pos ((irm_iff _).2 hirm)]
    refine (prepare_run h₂).trans fun s₃ ⟨hsgi₃, h₃⟩ =>
      (loop_run (by decide) h₃).trans fun s₄ ⟨hsgi₄, h₄, hworking⟩ => ?_
    rw [hsgi₃] at hsgi₄
    exact (leaveLoop_run h₄ hworking hsgi₄).trans fun s₅ ⟨hsgi₅, h₅, hworking'⟩ => return_run h₅ hworking' hsgi₅
  · rw [if_neg hirm] at h₂
    simp only [if_neg hirm]
    rw [send, if_neg (fun h => hirm ((irm_iff _).1 h))]
    exact (single_run h₂).trans fun s₃ ⟨hsgi₃, h₃, hworking⟩ => return_run h₃ hworking hsgi₃

theorem trampoline_run (hwords : HoldsWords t.mem t.pc r.trampoline) (hstack : Apart (t.x .sp - 16) 16 t.pc 92) :
    Reaches (fun u => u.pc = t.x .x30 ∧ u.x .x29 = t.x .x29 ∧ u.x .x30 = t.x .x30 ∧ u.x .sp = t.x .sp ∧
      u.sgi = t.sgi ++ send (t.x r.reg) t.mpidr) t := by
  refine (trampoline_returns hwords hstack).mono ?_
  intro u hu
  split_ifs at hu
  · exact ⟨hu.pc, hu.x29, hu.x30, hu.sp, hu.sgi⟩
  · exact ⟨hu.pc, hu.x29, hu.x30, hu.sp, hu.sgi⟩

/-! ## The registers of the caller -/

/-- The registers a called function leaves as they are. -/
def calleeSaved : List Reg := [.x19, .x20, .x21, .x22, .x23, .x24, .x25, .x26, .x27, .x28, .x29, .sp]

/-- The value is sent without the loop, or the loop happens to leave its registers as they were. -/
def LeavesWorking (r : SgiSource) (t : Cpu) : Prop :=
  (t.x r.reg).getLsbD 40 = false ∨ t.x .x20 = 8#64 ∧ t.x .x21 = 0#64 ∧ t.x .x22 = sentValue (t.x r.reg)

theorem Returned.keeps_iff {u : Cpu} (h : Returned t l core count value u) : (∀ q ∈ calleeSaved, u.x q = t.x q) ↔
    t.x .x20 = core ∧ t.x .x21 = count ∧ t.x .x22 = value := by
  constructor
  · intro hkept
    exact ⟨(hkept .x20 (by decide)).symm.trans h.working.x20, (hkept .x21 (by decide)).symm.trans h.working.x21,
      (hkept .x22 (by decide)).symm.trans h.working.x22⟩
  · rintro ⟨h20, h21, h22⟩ q hq
    by_cases huntouched : Untouched q
    · exact h.kept q huntouched
    · -- the registers that are written and have to be kept
      have hcases : q = .x20 ∨ q = .x21 ∨ q = .x22 ∨ q = .x29 ∨ q = .sp := by
        by_contra hnot
        push Not at hnot
        obtain ⟨hx20, hx21, hx22, hx29, hsp⟩ := hnot
        refine huntouched ⟨?_, ?_, ?_, hx20, hx21, hx22, hx29, ?_, hsp⟩ <;> rintro rfl <;> revert hq <;> decide
      rcases hcases with rfl | rfl | rfl | rfl | rfl
      · exact h.working.x20.trans h20.symm
      · exact h.working.x21.trans h21.symm
      · exact h.working.x22.trans h22.symm
      · exact h.x29
      · exact h.sp

/-- A call of the trampoline returns with the registers of its caller as they were if and only if it sends without the
loop, or they happen to hold what the loop ends with. -/
theorem trampoline_keeps_iff (hwords : HoldsWords t.mem t.pc r.trampoline) (hstack : Apart (t.x .sp - 16) 16 t.pc 92) :
    Reaches (fun u => u.pc = t.x .x30 ∧ ((∀ q ∈ calleeSaved, u.x q = t.x q) ↔ r.LeavesWorking t)) t := by
  refine (trampoline_returns hwords hstack).mono ?_
  intro u hu
  unfold LeavesWorking
  cases hirm : (t.x r.reg).getLsbD 40 with
  | true =>
    rw [if_pos hirm] at hu
    refine ⟨hu.pc, hu.keeps_iff.trans ⟨fun h => .inr h, ?_⟩⟩
    rintro (hfalse | h)
    · cases hfalse
    · exact h
  | false =>
    rw [hirm, if_neg (by decide)] at hu
    exact ⟨hu.pc, fun _ => .inl rfl, fun _ => hu.keeps_iff.2 ⟨rfl, rfl, rfl⟩⟩

end SgiSource

end Andromeda
