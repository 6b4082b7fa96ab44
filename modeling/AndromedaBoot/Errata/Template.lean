import AndromedaBoot.Errata.Trampoline

/-!
# The trampoline of the template (IRM/Reference/ShellCodeTemplate.c :202-220)

`build.sh` makes the bytes of `GIC_V3_WITHOUT_IRM_FLAG_SUPPORT_PATCH` from a template with a trampoline of
its own. It counts the cores in two registers and moves the index up by 8 bits, where the affinity field of
`ICC_SGI1R_EL1` begins at bit 16.
-/

namespace Andromeda

open Arm64 ByteMemory

namespace IrmTemplate

/-- The double words of the trampoline, before its last word. -/
def trampolineDwords : List (BitVec 64) :=
  [0xA9015BF5A9BD53F3, 0xB640024AF90013FE, 0x528000139257F956, 0xD3482C35D53800A1, 0xEB15029FD2800014,
    0xD3785E68540000C0, 0xB240010AAA160108, 0xD5033F9FD518CBAA, 0x7100227F11000673, 0x54FFFEC391000694,
    0xD518CBAA14000003, 0xF94013FED5033F9F, 0xA8C353F3A9415BF5]

def trampoline : List (BitVec 32) :=
  trampolineDwords.flatMap (fun d => [d.extractLsb' 0 32, d.extractLsb' 32 32]) ++ [0xD65F03C0]

def trampolineProgram : List Instr := [
  .stp .x19 .x20 .sp .pre (-48#64), .stp .x21 .x22 .sp .offset 16#64, .str .x .x30 .sp .offset 32#64,
  .tbz .x10 40 72#64, .logicImm .and .x22 .x10 0xFFFFFEFFFFFFFFFF#64, .movz .w .x19 0 0, .mrsMpidrEl1 .x1,
  .ubfm .x .x21 .x1 8 11, .movz .x .x20 0 0, .cmp .x .x20 .x21, .bCond .eq 24#64, .ubfm .x .x8 .x19 56 23,
  .logicReg .x .orr .x8 .x8 .x22 .lsl 0, .logicImm .orr .x10 .x8 1#64, .msrIccSgi1rEl1 .x10, .dsb,
  .addImm .w .x19 .x19 1#64, .cmpImm .w .x19 8#64, .addImm .x .x20 .x20 1#64, .bCond .lo (-40#64), .b 12#64,
  .msrIccSgi1rEl1 .x10, .dsb, .ldr .x .x30 .sp .offset 32#64, .ldp .x21 .x22 .sp .offset 16#64,
  .ldp .x19 .x20 .sp .post 48#64, .ret .x30]

theorem decode_trampoline : trampoline.mapM decode = some trampolineProgram := by decide +kernel

/-- The values the loop of the template writes, with `n` rounds to go. -/
def templateEach (sgi v1 : BitVec 64) : Nat → BitVec 64 → List (BitVec 64)
  | 0, _ => []
  | n + 1, v2 =>
    (if v2 ≠ v1 >>> 8 then [(sgi &&& 0xFFFFFEFFFFFFFFFE#64 ||| 1#64) ||| (v2 <<< 8)] else []) ++
      templateEach sgi v1 n (v2 + 1#64)

/-- The values one call of the template's trampoline writes. -/
def templateSend (sgi currentMpidr : BitVec 64) : List (BitVec 64) :=
  if sgi &&& 0x10000000000#64 ≠ 0 then templateEach sgi (currentMpidr &&& 0xF00#64) 8 0#64 else [sgi]

variable {t s : Cpu} {sgi v1 : BitVec 64} {k n : Nat} {m : ByteMemory} {l : List (BitVec 64)}

/-! ## The run -/

/-- The trampoline called in `t` is at its `i`-th instruction. -/
structure Inside (t : Cpu) (i : Nat) (m : ByteMemory) (s : Cpu) : Prop where
  pc : s.pc = t.pc + BitVec.ofNat 64 (4 * i)
  mem : s.mem = m
  loaded : Loaded m t.pc 0 trampolineProgram
  sp : s.x .sp = t.x .sp - 48#64

theorem Inside.loaded_mem {i : Nat} (h : Inside t i m s) : Loaded s.mem t.pc 0 trampolineProgram := by
  rw [h.mem]
  exact h.loaded

/-- The loop is at core `k`. -/
structure Sending (t : Cpu) (sgi v1 : BitVec 64) (k : Nat) (m : ByteMemory) (s : Cpu) : Prop extends Inside t 9 m s where
  own : s.x .x21 = v1 >>> 8
  index : s.x .x19 = BitVec.ofNat 64 k
  core : s.x .x20 = BitVec.ofNat 64 k
  value : s.x .x22 = sgi &&& 0xFFFFFEFFFFFFFFFF#64

/-- The memory of the trampoline: the registers it saves on the stack. -/
def savedMem (t : Cpu) : ByteMemory :=
  ((((t.mem.write64 (t.x .sp - 48#64) (t.x .x19)).write64 (t.x .sp - 48#64 + 8#64) (t.x .x20)).write64
    (t.x .sp - 48#64 + 16#64) (t.x .x21)).write64 (t.x .sp - 48#64 + 24#64) (t.x .x22)).write64
    (t.x .sp - 48#64 + 32#64) (t.x .x30)

theorem save_run (hload : Loaded t.mem t.pc 0 trampolineProgram) (hstack : Apart (t.x .sp - 48#64) 48 t.pc 108) :
    Reaches (fun s => Inside t 3 (savedMem t) s ∧ s.x .x10 = t.x .x10 ∧ s.mpidr = t.mpidr ∧ s.sgi = t.sgi) t := by
  have hsp : t.x .sp + 18446744073709551568#64 = t.x .sp - 48#64 := by bv_omega
  have hslot0 : Apart (t.x .sp - 48#64 + BitVec.ofNat 64 0) 8 t.pc 108 := hstack.sub 0 (by decide)
  rw [BitVec.add_zero] at hslot0
  have hload₁ := (hload.write64 hslot0 (t.x .x19)).write64 (hstack.sub 8 (by decide)) (t.x .x20)
  have hload₂ := (hload₁.write64 (hstack.sub 16 (by decide)) (t.x .x21)).write64 (hstack.sub 24 (by decide)) (t.x .x22)
  have hload₃ := hload₂.write64 (hstack.sub 32 (by decide)) (t.x .x30)
  refine .block 0 [.stp .x19 .x20 .sp .pre (-48#64)] hload (by decide) (by simp) rfl rfl ?_
  simp [hsp]
  refine .block 1 [.stp .x21 .x22 .sp .offset 16#64] hload₁ (by decide) rfl rfl rfl ?_
  simp [BitVec.add_assoc]
  refine .block 2 [.str .x .x30 .sp .offset 32#64] hload₂ (by decide) rfl rfl rfl (.here ?_)
  simp [BitVec.add_assoc]
  exact ⟨rfl, rfl, hload₃, by simp⟩

theorem count_up (hk : k < 8) : (BitVec.ofNat 32 k + 1#32).setWidth 64 = BitVec.ofNat 64 (k + 1) ∧
    BitVec.ofNat 64 k + 1#64 = BitVec.ofNat 64 (k + 1) := by
  interval_cases k <;> decide

/-- The end of a round: go to the next core if there is one. -/
theorem nextCore_run (hk : k < 8) (h : Inside t 16 m s) (hown : s.x .x21 = v1 >>> 8)
    (hindex : s.x .x19 = BitVec.ofNat 64 k) (hcore : s.x .x20 = BitVec.ofNat 64 k)
    (hvalue : s.x .x22 = sgi &&& 0xFFFFFEFFFFFFFFFF#64) (hsgi : s.sgi = l) :
    Reaches (fun s' => s'.sgi = l ∧ (if k = 7 then Inside t 20 m s' else Sending t sgi v1 (k + 1) m s')) s := by
  have hload := h.loaded_mem
  obtain ⟨hup, hup'⟩ := count_up hk
  refine .block 16 [.addImm .w .x19 .x19 1#64, .cmpImm .w .x19 8#64, .addImm .x .x20 .x20 1#64, .bCond .lo (-40#64)]
    hload (by decide) h.pc rfl rfl (.here ?_)
  by_cases hlast : k = 7
  · subst hlast
    simp [hindex, hcore, h.pc, hsgi, BitVec.add_assoc]
    exact ⟨rfl, h.mem, h.loaded, by simp [h.sp]⟩
  · have hmore : (k + 1) % 4294967296 < 8 := by omega
    simp [hindex, hcore, hup, hup', hmore, hlast, h.pc, hsgi, BitVec.add_assoc]
    exact ⟨⟨rfl, h.mem, h.loaded, by simp [h.sp]⟩, by simp [hown], by simp, by simp, by simp [hvalue]⟩

/-- The value a round writes: the index is moved up by 8. -/
theorem round_value (hk : k < 8) (v : BitVec 64) :
    ((BitVec.ofNat 64 k).extractLsb' 0 24).setWidth 64 <<< 8 ||| (v &&& 0xFFFFFEFFFFFFFFFF#64) ||| 1#64 =
      (v &&& 0xFFFFFEFFFFFFFFFE#64 ||| 1#64) ||| (BitVec.ofNat 64 k <<< 8) := by
  have hshift : ((BitVec.ofNat 64 k).extractLsb' 0 24).setWidth 64 <<< 8 = BitVec.ofNat 64 k <<< 8 := by
    interval_cases k <;> rfl
  rw [hshift, BitVec.or_assoc, SgiSource.clear_irm, BitVec.or_comm]

theorem round_run (hk : k < 8) (h : Sending t sgi v1 k m s) :
    Reaches (fun s' => s'.sgi = s.sgi ++
        (if BitVec.ofNat 64 k ≠ v1 >>> 8 then
          [(sgi &&& 0xFFFFFEFFFFFFFFFE#64 ||| 1#64) ||| (BitVec.ofNat 64 k <<< 8)] else []) ∧
      (if k = 7 then Inside t 20 m s' else Sending t sgi v1 (k + 1) m s')) s := by
  have hload := h.loaded_mem
  refine .block 9 [.cmp .x .x20 .x21, .bCond .eq 24#64] hload (by decide) h.pc rfl rfl ?_
  by_cases heq : BitVec.ofNat 64 k = v1 >>> 8
  · simp [h.pc, h.own, h.core, heq, BitVec.add_assoc]
    exact nextCore_run hk ⟨rfl, h.mem, h.loaded, h.sp⟩ h.own h.index h.core h.value rfl
  · simp [h.pc, h.own, h.core, heq, BitVec.add_assoc]
    refine .block 11 [.ubfm .x .x8 .x19 56 23, .logicReg .x .orr .x8 .x8 .x22 .lsl 0, .logicImm .orr .x10 .x8 1#64,
      .msrIccSgi1rEl1 .x10, .dsb] hload (by decide) rfl rfl rfl ?_
    simp [bitField, h.index, h.value, round_value hk, BitVec.add_assoc]
    exact nextCore_run hk ⟨rfl, h.mem, h.loaded, by simp [h.sp]⟩ (by simp [h.own]) (by simp [h.index])
      (by simp [h.core]) (by simp [h.value]) rfl

/-- The loop goes on to the last core. -/
theorem loop_run (hk : k + (n + 1) = 8) (h : Sending t sgi v1 k m s) (hsgi : s.sgi = l) :
    Reaches (fun s' => s'.sgi = l ++ templateEach sgi v1 (n + 1) (BitVec.ofNat 64 k) ∧ Inside t 20 m s') s := by
  induction n generalizing k s l with
  | zero =>
    refine (round_run (by omega) h).mono ?_
    rintro s' ⟨hsgi', hend⟩
    rw [if_pos (by omega)] at hend
    refine ⟨?_, hend⟩
    rw [hsgi', hsgi, templateEach, templateEach, List.append_nil]
  | succ n ih =>
    refine (round_run (by omega) h).trans ?_
    rintro s₁ ⟨hsgi₁, h₁⟩
    rw [if_neg (by omega)] at h₁
    refine (ih (by omega) h₁ hsgi₁).mono fun s' ⟨hsgi', hend⟩ => ⟨?_, hend⟩
    rw [hsgi', hsgi, List.append_assoc, ← (count_up (show k < 8 by omega)).2]
    rfl

/-- Restore the saved registers and return. -/
theorem return_run (h : Inside t 23 (savedMem t) s) (hsgi : s.sgi = l) :
    Reaches (fun u => u.pc = t.x .x30 ∧ u.sgi = l) s := by
  have hload := h.loaded_mem
  have h30 : (savedMem t).read64 (t.x .sp - 48#64 + 32#64) = t.x .x30 := read64_write64 _ _ _
  refine .block 23 [.ldr .x .x30 .sp .offset 32#64, .ldp .x21 .x22 .sp .offset 16#64, .ldp .x19 .x20 .sp .post 48#64,
    .ret .x30] hload (by decide) h.pc rfl rfl (.here ?_)
  simp [h.sp, h.mem, h30, hsgi]

theorem mpidr_field (v : BitVec 64) : (v.extractLsb' 8 4).setWidth 64 = (v &&& 0xF00#64) >>> 8 := by
  ext i hi
  simp only [BitVec.getElem_setWidth, BitVec.getLsbD_extractLsb', BitVec.getElem_ushiftRight, BitVec.getLsbD_and]
  interval_cases i <;> simp

/-- A value with the flag: the loop runs over all cores. -/
theorem broadcast_run (h : Inside t 4 (savedMem t) s) (hvalue : s.x .x10 = t.x .x10) (hmpidr : s.mpidr = t.mpidr)
    (hsgi : s.sgi = t.sgi) :
    Reaches (fun u => u.pc = t.x .x30 ∧
      u.sgi = t.sgi ++ templateEach (t.x .x10) (t.mpidr &&& 0xF00#64) 8 0#64) s := by
  have hload := h.loaded_mem
  refine .block 4 [.logicImm .and .x22 .x10 0xFFFFFEFFFFFFFFFF#64, .movz .w .x19 0 0, .mrsMpidrEl1 .x1,
    .ubfm .x .x21 .x1 8 11, .movz .x .x20 0 0] hload (by decide) h.pc rfl rfl ?_
  have hloop : ∀ {s' : Cpu}, Sending t (t.x .x10) (t.mpidr &&& 0xF00#64) 0 (savedMem t) s' → s'.sgi = t.sgi →
      Reaches (fun u => u.sgi = t.sgi ++ templateEach (t.x .x10) (t.mpidr &&& 0xF00#64) 8 0#64 ∧
        Inside t 20 (savedMem t) u) s' := fun h' hsgi' => loop_run (show 0 + (7 + 1) = 8 from rfl) h' hsgi'
  simp [bitField, hvalue, hmpidr, hsgi, h.pc, mpidr_field, BitVec.add_assoc]
  refine Reaches.trans (hloop ⟨⟨rfl, h.mem, h.loaded, by simp [h.sp]⟩, by simp, by simp, by simp, by simp⟩ rfl) ?_
  rintro s₁ ⟨hsgi₁, h₁⟩
  have hload₁ := h₁.loaded_mem
  refine .block 20 [.b 12#64] hload₁ (by decide) h₁.pc rfl rfl ?_
  simp [h₁.pc, BitVec.add_assoc]
  exact return_run ⟨rfl, h₁.mem, h₁.loaded, h₁.sp⟩ hsgi₁

/-- A call of the template's trampoline. -/
theorem trampoline_run (hwords : HoldsWords t.mem t.pc trampoline) (hstack : Apart (t.x .sp - 48#64) 48 t.pc 108) :
    Reaches (fun u => u.pc = t.x .x30 ∧ u.sgi = t.sgi ++ templateSend (t.x .x10) t.mpidr) t := by
  have hload := Loaded.of_words hwords decode_trampoline
  refine (save_run hload hstack).trans ?_
  rintro s ⟨h, hvalue, hmpidr, hsgi⟩
  have hload₁ := h.loaded_mem
  refine .block 3 [.tbz .x10 40 72#64] hload₁ (by decide) h.pc rfl rfl ?_
  cases hirm : (t.x .x10).getLsbD 40 with
  | true =>
    rw [templateSend, if_pos ((SgiSource.irm_iff _).2 hirm)]
    simp at hirm
    simp [hvalue, hirm, h.pc, BitVec.add_assoc]
    exact broadcast_run ⟨rfl, h.mem, h.loaded, h.sp⟩ hvalue hmpidr hsgi
  | false =>
    rw [templateSend, if_neg (fun hne => Bool.false_ne_true (hirm.symm.trans ((SgiSource.irm_iff _).1 hne)))]
    simp at hirm
    simp [hvalue, hirm, h.pc, BitVec.add_assoc]
    refine .block 21 [.msrIccSgi1rEl1 .x10, .dsb] hload₁ (by decide) rfl rfl rfl ?_
    simp [hvalue, hsgi, BitVec.add_assoc]
    exact return_run ⟨rfl, h.mem, h.loaded, h.sp⟩ rfl

/-! ## Compared with `Send` -/

/-- What core `j` gets from the loop is the same in both. -/
def SameValue (sgi : BitVec 64) (j : Nat) : Prop :=
  (sgi &&& 0xFFFFFEFFFFFFFFFE#64 ||| 1#64) ||| (BitVec.ofNat 64 j <<< 8) =
    (sgi &&& 0xFFFFFEFFFFFFFFFE#64 ||| 1#64) ||| (BitVec.ofNat 64 j <<< 16)

theorem round_eq_iff {c : Prop} [Decidable c] {a b : BitVec 64} {xs ys : List (BitVec 64)} :
    (if c then [a] else []) ++ xs = (if c then [b] else []) ++ ys ↔ (c → a = b) ∧ xs = ys := by
  by_cases hc : c
  · simp [hc]
  · simp [hc]

/-- The two loops write the same if each core gets the same. -/
theorem each_eq_iff (hk : k + n = 8) :
    templateEach sgi v1 n (BitVec.ofNat 64 k) = sendEach sgi v1 n (BitVec.ofNat 64 k) ↔
      ∀ j, k ≤ j → j < 8 → BitVec.ofNat 64 j ≠ v1 >>> 8 → SameValue sgi j := by
  induction n generalizing k with
  | zero => exact ⟨fun _ j hkj hj => by omega, fun _ => rfl⟩
  | succ n ih =>
    have ih' := ih (show k + 1 + n = 8 by omega)
    rw [← (count_up (show k < 8 by omega)).2] at ih'
    rw [templateEach, sendEach, round_eq_iff, ih']
    constructor
    · rintro ⟨hk', hrest⟩ j hkj hj hown
      rcases Nat.eq_or_lt_of_le hkj with rfl | hlt
      · exact hk' hown
      · exact hrest j hlt hj hown
    · exact fun hsame => ⟨hsame k (Nat.le_refl k) (by omega), fun j hkj hj hown => hsame j (by omega) hj hown⟩

theorem or_eq_or_iff {w a b : BitVec 64} (hab : a &&& b = 0#64) : w ||| a = w ||| b ↔ w &&& (a ||| b) = a ||| b := by
  have hbit (i : Nat) : ¬(a.getLsbD i = true ∧ b.getLsbD i = true) := by
    have hi := congrArg (BitVec.getLsbD · i) hab
    simpa using hi
  constructor
  · intro heq
    refine BitVec.eq_of_getLsbD_eq ?_
    intro i _
    have hi := congrArg (BitVec.getLsbD · i) heq
    have hno := hbit i
    simp only [BitVec.getLsbD_or, BitVec.getLsbD_and] at hi ⊢
    grind
  · intro heq
    refine BitVec.eq_of_getLsbD_eq ?_
    intro i _
    have hi := congrArg (BitVec.getLsbD · i) heq
    simp only [BitVec.getLsbD_or, BitVec.getLsbD_and] at hi ⊢
    grind

/-- The bits core `j` needs: its index at both places. -/
def coreMask (j : Nat) : BitVec 64 := BitVec.ofNat 64 j <<< 8 ||| BitVec.ofNat 64 j <<< 16

theorem coreMask_facts (hk : k < 8) : BitVec.ofNat 64 k <<< 8 &&& BitVec.ofNat 64 k <<< 16 = 0#64 ∧
    0xFFFFFEFFFFFFFFFE#64 &&& coreMask k = coreMask k ∧ 1#64 &&& coreMask k = 0#64 ∧
    0x70700#64 &&& coreMask k = coreMask k := by
  interval_cases k <;> decide

theorem sameValue_iff (hk : k < 8) : SameValue sgi k ↔ sgi &&& coreMask k = coreMask k := by
  obtain ⟨hapart, hkeep, hone, -⟩ := coreMask_facts hk
  have hvalue : (sgi &&& 0xFFFFFEFFFFFFFFFE#64 ||| 1#64) &&& coreMask k = sgi &&& coreMask k := by
    rw [BitVec.and_or_distrib_right, BitVec.and_assoc, hkeep, hone, BitVec.or_zero]
  rw [SameValue, or_eq_or_iff hapart, ← coreMask, hvalue]

/-- All other cores get the same if the value has their bits already. -/
theorem all_sameValue_iff (own : BitVec 64) :
    (∀ j, 0 ≤ j → j < 8 → BitVec.ofNat 64 j ≠ own → SameValue sgi j) ↔ sgi &&& 0x70700#64 = 0x70700#64 := by
  constructor
  · intro h
    by_cases hown : BitVec.ofNat 64 7 = own
    · have h3 := (sameValue_iff (by decide)).1 (h 3 (by decide) (by decide) (by rw [← hown]; decide))
      have h4 := (sameValue_iff (by decide)).1 (h 4 (by decide) (by decide) (by rw [← hown]; decide))
      rw [show 0x70700#64 = coreMask 3 ||| coreMask 4 by decide, BitVec.and_or_distrib_left, h3, h4]
    · exact (sameValue_iff (by decide)).1 (h 7 (by decide) (by decide) hown)
  · intro h j _ hj _
    obtain ⟨-, -, -, hpart⟩ := coreMask_facts hj
    rw [sameValue_iff hj, ← hpart, ← BitVec.and_assoc, h]

theorem templateSend_eq_iff (v mpidr : BitVec 64) :
    templateSend v mpidr = send v mpidr ↔ v &&& 0x10000000000#64 = 0 ∨ v &&& 0x70700#64 = 0x70700#64 := by
  by_cases hirm : v &&& 0x10000000000#64 = 0
  · simp [templateSend, send, hirm]
  · rw [templateSend, send, if_pos hirm, if_pos hirm]
    exact (each_eq_iff (show 0 + 8 = 8 from rfl)).trans ((all_sameValue_iff _).trans (or_iff_right hirm).symm)

/-- **The template's trampoline sends what `Send` sends** for a value without the flag, or with bits 8-10 and 16-18
all set. -/
theorem templateTrampoline_sends_iff (t : Cpu) (hwords : HoldsWords t.mem t.pc trampoline)
    (hstack : Apart (t.x .sp - 48#64) 48 t.pc 108) :
    Reaches (fun u => u.pc = t.x .x30 ∧ (u.sgi = t.sgi ++ send (t.x .x10) t.mpidr ↔
      t.x .x10 &&& 0x10000000000#64 = 0 ∨ t.x .x10 &&& 0x70700#64 = 0x70700#64)) t := by
  refine (trampoline_run hwords hstack).mono fun u ⟨hpc, hsgi⟩ => ⟨hpc, ?_⟩
  rw [hsgi, List.append_cancel_left_eq]
  exact templateSend_eq_iff _ _

/-- The trampoline at `0x1000`, called with `v` on the core `mpidr`. -/
def sampleCall (v mpidr : BitVec 64) : Cpu where
  x r := if r = .x10 then v else if r = .sp then 0x8000#64 else if r = .x30 then 0x2000#64 else 0
  pc := 0x1000#64
  flags := ⟨false, false, false, false⟩
  mem := ByteMemory.writeBytes (fun _ => 0) 0x1000#64
    (trampoline.flatMap fun w => [w.extractLsb' 0 8, w.extractLsb' 8 8, w.extractLsb' 16 8, w.extractLsb' 24 8])
  mpidr := mpidr
  sgi := []

theorem holdsWords_sampleCall (v mpidr : BitVec 64) :
    HoldsWords (sampleCall v mpidr).mem (sampleCall v mpidr).pc trampoline := by
  simp only [HoldsWords, sampleCall]
  decide +kernel

theorem apart_sampleCall (v mpidr : BitVec 64) :
    Apart ((sampleCall v mpidr).x .sp - 48#64) 48 (sampleCall v mpidr).pc 108 :=
  apart_of_le (by simp [sampleCall]) (by simp [sampleCall])

theorem templateTrampoline_sends_iff_set :
    Reaches (fun u => u.sgi = send 0x10000070700#64 0x81000200#64) (sampleCall 0x10000070700#64 0x81000200#64) := by
  refine (templateTrampoline_sends_iff _ (holdsWords_sampleCall _ _) (apart_sampleCall _ _)).mono ?_
  rintro u ⟨_, hsgi⟩
  exact hsgi.2 (.inr (by decide))

/-- The index goes into the target list, so all the interrupts are for affinity 0. -/
theorem templateTrampoline_wrong_cores :
    Reaches (fun u => u.pc = 0x2000#64 ∧ u.sgi ≠ send 0x1000F000000#64 0x81000200#64)
      (sampleCall 0x1000F000000#64 0x81000200#64) := by
  refine (trampoline_run (holdsWords_sampleCall _ _) (apart_sampleCall _ _)).mono fun u ⟨hpc, hsgi⟩ => ⟨hpc, ?_⟩
  rw [hsgi]
  decide +kernel

end IrmTemplate

end Andromeda
