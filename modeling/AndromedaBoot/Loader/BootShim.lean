import AndromedaBoot.Lib.Arm64Run
import AndromedaBoot.Lib.BlockCopy

/-!
# The boot shim

The shim stands before the payload, pretends to be a Linux kernel, and copies the payload to `UEFI_BASE` before
it jumps there. It copies upwards, so a payload that starts below `UEFI_BASE` and reaches into it is written over
while it is still to be read (`start_relocates_iff`).

| here | there, `Loaders/Direct/BootShim.S` |
| --- | --- |
| `headCode`, `startCode` | `_Head` :1-6, `_Start` to `_Dead` :36-55 |
| `BootShim.stackBase`, `BootShim.stackSize` | `_StackBase` :10-12, `_StackSize` :14-16 |
| `copyLoop` | what `_CopyLoop` :43-47 does to the memory |
-/

namespace Andromeda

open Arm64 ByteMemory

/-- The shim as it is built and loaded. -/
structure BootShim where
  /-- `_Head`, where it is loaded. -/
  head : BitVec 64
  uefiBase : BitVec 64
  uefiSize : BitVec 64

def headCode : List Instr := [.adr .x1 112#64, .b 60#64]

def startCode : List Instr := [
  .mov .x4 .x1, .ldrLiteral .x5 (-60#64), .cmp .x .x4 .x5, .bCond .eq 28#64, .ldrLiteral .x6 (-64#64),
  .ldp .x2 .x3 .x4 .post 16#64, .stp .x2 .x3 .x5 .post 16#64, .arithImm .x .subs .x6 .x6 16#64, .bCond .ne (-12#64),
  .ldrLiteral .x5 (-92#64), .br .x5, .b 0#64]

namespace BootShim

variable (b : BootShim)

/-! The labels; the magic and six double words stand between `_Head` and `_Start`. -/

def stackBase : BitVec 64 := b.head + 8#64
def stackSize : BitVec 64 := b.head + 16#64
def start : BitVec 64 := b.head + 64#64
def entry : BitVec 64 := b.start + BitVec.ofNat 64 (4 * 10)
def payload : BitVec 64 := b.head + 112#64

/-- The shim stands in memory. -/
structure LoadedIn (m : ByteMemory) : Prop where
  headCode : Loaded m b.head 0 headCode
  stackBase : m.read64 b.stackBase = b.uefiBase
  stackSize : m.read64 b.stackSize = b.uefiSize
  startCode : Loaded m b.start 0 startCode

/-- The sizes and addresses the shim is made for, with the payload at `p`. -/
structure Fits (p : BitVec 64) : Prop where
  pos : 0 < b.uefiSize.toNat
  pairs : 16 ∣ b.uefiSize.toNat
  source : p.toNat + b.uefiSize.toNat ≤ 2 ^ 64
  target : b.uefiBase.toNat + b.uefiSize.toNat ≤ 2 ^ 64
  /-- The copy is not written over the instructions. -/
  apart : Apart b.uefiBase b.uefiSize.toNat b.start (4 * startCode.length)

/-- What the loop reads only after it has written over it is what it has written. -/
def CopiesIntact (m : ByteMemory) (p : BitVec 64) : Prop :=
  b.uefiBase.toNat ≤ p.toNat ∨ p.toNat + b.uefiSize.toNat ≤ b.uefiBase.toNat ∨
    ∀ j < b.uefiSize.toNat, b.uefiBase.toNat - p.toNat ≤ j → j % 16 < b.uefiBase.toNat - p.toNat →
      m (p + BitVec.ofNat 64 j) = m (p + BitVec.ofNat 64 (j - (b.uefiBase.toNat - p.toNat)))

/-- What the loop writes over the literal `_StackBase` is what stands there. -/
def KeepsStackBase (m : ByteMemory) (p : BitVec 64) : Prop :=
  ∀ j < b.uefiSize.toNat, ∀ i < 8, b.uefiBase + BitVec.ofNat 64 j = b.stackBase + BitVec.ofNat 64 i →
    m (p + BitVec.ofNat 64 j) = m (b.stackBase + BitVec.ofNat 64 i)

/-- `_Entry` branches to `UEFI_BASE`, where the payload stands as it stood at `x1` before. -/
def Relocates (s : Cpu) : Prop :=
  Arrives b.entry (fun t => t.x .x5 = b.uefiBase ∧
    ∀ j < b.uefiSize.toNat, t.mem (b.uefiBase + BitVec.ofNat 64 j) = s.mem (s.x .x1 + BitVec.ofNat 64 j)) s

end BootShim

/-- A pair of registers is loaded from `src` and stored to `dst`. -/
def copyPair (m : ByteMemory) (src dst : BitVec 64) : ByteMemory :=
  (m.write64 dst (m.read64 src)).write64 (dst + 8) (m.read64 (src + 8))

/-- The first `n` rounds of `_CopyLoop`. -/
def copyLoop (m : ByteMemory) (src dst : BitVec 64) : Nat → ByteMemory
  | 0 => m
  | n + 1 => copyPair (copyLoop m src dst n) (src + BitVec.ofNat 64 (16 * n)) (dst + BitVec.ofNat 64 (16 * n))

variable {m : ByteMemory} {src dst x : BitVec 64} {n : Nat} {b : BootShim} {s t : Cpu} {Q : Cpu → Prop}

theorem copyPair_eq : copyPair m src dst x = if (x - dst).toNat < 16 then m (src + (x - dst)) else m x := by
  unfold copyPair write64
  split_ifs with h8 h16 h16' h h
  · rw [read64_byte _ _ h8, BitVec.ofNat_toNat, BitVec.setWidth_eq]
    congr 1
    bv_omega
  · bv_omega
  · rw [read64_byte _ _ h16', BitVec.ofNat_toNat, BitVec.setWidth_eq]
  · bv_omega
  · bv_omega
  · rfl

theorem copyLoop_of_le (hn : 16 * n ≤ (x - dst).toNat) : copyLoop m src dst n x = m x := by
  induction n with
  | zero => rfl
  | succ n ih => rw [copyLoop, copyPair_eq, if_neg (by bv_omega), ih (by omega)]

/-- Without a wrap the rounds are a copy by blocks. -/
theorem copyLoop_eq_blocks {a : Nat} (hsrc : src.toNat + 16 * n ≤ 2 ^ 64) (hdst : dst.toNat + 16 * n ≤ 2 ^ 64)
    (ha : a < 2 ^ 64) : copyLoop m src dst n (BitVec.ofNat 64 a) =
      BlockCopy.blocks 16 src.toNat dst.toNat n (fun a => m (BitVec.ofNat 64 a)) a := by
  induction n generalizing a with
  | zero => rfl
  | succ n ih =>
    rw [copyLoop, copyPair_eq, BlockCopy.blocks, BlockCopy.block]
    by_cases hin : dst.toNat + 16 * n ≤ a ∧ a < dst.toNat + 16 * n + 16
    · rw [if_pos hin, if_pos (by bv_omega), ← ih (by omega) (by omega) (by omega)]
      congr 1
      bv_omega
    · rw [if_neg hin, if_neg (by bv_omega), ih (by omega) (by omega) ha]

theorem copyLoop_add {j : Nat} (hsrc : src.toNat + 16 * n ≤ 2 ^ 64) (hdst : dst.toNat + 16 * n ≤ 2 ^ 64) (hj : j < 16 * n) :
    copyLoop m src dst n (dst + BitVec.ofNat 64 j) =
      BlockCopy.blocks 16 src.toNat dst.toNat n (fun a => m (BitVec.ofNat 64 a)) (dst.toNat + j) := by
  rw [← copyLoop_eq_blocks hsrc hdst (by omega), BitVec.ofNat_add, BitVec.ofNat_toNat, BitVec.setWidth_eq]

theorem copyLoop_intact_iff (hsrc : src.toNat + 16 * n ≤ 2 ^ 64) (hdst : dst.toNat + 16 * n ≤ 2 ^ 64) :
    (∀ j < 16 * n, copyLoop m src dst n (dst + BitVec.ofNat 64 j) = m (src + BitVec.ofNat 64 j)) ↔
      dst.toNat ≤ src.toNat ∨ src.toNat + 16 * n ≤ dst.toNat ∨
        ∀ j < 16 * n, dst.toNat - src.toNat ≤ j → j % 16 < dst.toNat - src.toNat →
          m (src + BitVec.ofNat 64 j) = m (src + BitVec.ofNat 64 (j - (dst.toNat - src.toNat))) := by
  have hat (j : Nat) : BitVec.ofNat 64 (src.toNat + j) = src + BitVec.ofNat 64 j := by
    rw [BitVec.ofNat_add, BitVec.ofNat_toNat, BitVec.setWidth_eq]
  rcases Nat.lt_or_ge src.toNat dst.toNat with hlt | hle
  · have hiff := @BlockCopy.blocks_eq_iff _ 16 src.toNat dst.toNat n (fun a => m (BitVec.ofNat 64 a)) hlt
    simp only [hat] at hiff
    constructor
    · intro h
      refine .inr (.inr (hiff.1 ?_))
      intro j hj
      rw [← copyLoop_add hsrc hdst hj]
      exact h j hj
    · intro h j hj
      rw [copyLoop_add hsrc hdst hj]
      refine hiff.2 ?_ j hj
      intro i hi hd hmod
      rcases h with hle | hbehind | hrepeats
      · omega
      · omega
      · exact hrepeats i hi hd hmod
  · refine ⟨fun _ => .inl hle, ?_⟩
    intro _ j hj
    rw [copyLoop_add hsrc hdst hj, BlockCopy.blocks_of_le hle hj, hat]

theorem copyLoop_loaded (h : Apart b.uefiBase b.uefiSize.toNat b.start (4 * startCode.length))
    (hn : 16 * n ≤ b.uefiSize.toNat) (hload : Loaded m b.start 0 startCode) :
    Loaded (copyLoop m src b.uefiBase n) b.start 0 startCode := by
  refine hload.congr fun i hi _ => copyLoop_of_le ?_
  by_contra hlt
  exact h (b.start + BitVec.ofNat 64 i - b.uefiBase).toNat (by omega) i hi (by bv_omega)

/-! ## The run -/

namespace BootShim

/-- At the `i`-th instruction of `startCode`, with `n` pairs copied from where `x1` pointed in `s`. -/
structure At (b : BootShim) (s : Cpu) (i n : Nat) (t : Cpu) : Prop where
  pc : t.pc = b.start + BitVec.ofNat 64 (4 * i)
  mem : t.mem = copyLoop s.mem (s.x .x1) b.uefiBase n

/-- The registers of the loop, with `n` pairs copied and the size of `k` pairs taken off. -/
structure Copying (b : BootShim) (s : Cpu) (i n k : Nat) (t : Cpu) : Prop extends At b s i n t where
  x4 : t.x .x4 = s.x .x1 + BitVec.ofNat 64 (16 * n)
  x5 : t.x .x5 = b.uefiBase + BitVec.ofNat 64 (16 * n)
  x6 : t.x .x6 = b.uefiSize - BitVec.ofNat 64 (16 * k)

/-- Before or behind the loop, with the addresses compared. -/
structure Compared (b : BootShim) (s : Cpu) (i : Nat) (t : Cpu) : Prop extends At b s i 0 t where
  x4 : t.x .x4 = s.x .x1
  x5 : t.x .x5 = b.uefiBase

/-- What the shim leaves at `_Entry`. -/
structure AtEntry (b : BootShim) (s t : Cpu) : Prop where
  mem : t.mem = if s.x .x1 = b.uefiBase then s.mem else copyLoop s.mem (s.x .x1) b.uefiBase (b.uefiSize.toNat / 16)
  x5 : t.x .x5 = t.mem.read64 b.stackBase

theorem literal_stackBase : b.start + 18446744073709551560#64 = b.stackBase := by
  rw [start, stackBase]
  bv_omega

theorem literal_stackSize : b.start + 18446744073709551568#64 = b.stackSize := by
  rw [start, stackSize]
  bv_omega

section Run

variable (hload : b.LoadedIn s.mem)

include hload

/-- The payload is not copied where it already stands. -/
theorem compare_run (hpc : s.pc = b.start)
    (hsame : s.x .x1 = b.uefiBase → ∀ t, Compared b s 10 t → Arrives b.entry Q t)
    (hcopy : s.x .x1 ≠ b.uefiBase → ∀ t, Compared b s 4 t → Arrives b.entry Q t) : Arrives b.entry Q s := by
  have hpc0 : s.pc = b.start + BitVec.ofNat 64 (4 * 0) := by rw [hpc]; exact (BitVec.add_zero _).symm
  refine .block 0 [.mov .x4 .x1, .ldrLiteral .x5 (-60#64), .cmp .x .x4 .x5, .bCond .eq 28#64] hload.startCode
    (by decide) hpc0 rfl rfl (by decide) (by decide) ?_
  by_cases heq : s.x .x1 = b.uefiBase
  · refine hsame heq _ ⟨⟨?_, ?_⟩, ?_, ?_⟩
    all_goals simp [hpc, literal_stackBase, hload.stackBase, heq, copyLoop, BitVec.add_assoc]
  · refine hcopy heq _ ⟨⟨?_, ?_⟩, ?_, ?_⟩
    all_goals simp [hpc, literal_stackBase, hload.stackBase, heq, copyLoop, BitVec.add_assoc]

variable (hfits : b.Fits (s.x .x1))

include hfits

theorem At.loaded {i : Nat} (h : At b s i n t) (hn : 16 * n ≤ b.uefiSize.toNat) : Loaded t.mem b.start 0 startCode := by
  rw [h.mem]
  exact copyLoop_loaded hfits.apart hn hload.startCode

theorem pair_run (h : Copying b s 5 n n t) (hn : 16 * (n + 1) ≤ b.uefiSize.toNat)
    (hnext : ∀ t', Copying b s 7 (n + 1) n t' → Arrives b.entry Q t') : Arrives b.entry Q t := by
  have hloaded := h.loaded hload hfits (by omega)
  have hpair : BitVec.ofNat 64 (16 * n) + 16#64 = BitVec.ofNat 64 (16 * (n + 1)) := by bv_omega
  refine .block 5 [.ldp .x2 .x3 .x4 .post 16#64, .stp .x2 .x3 .x5 .post 16#64] hloaded (by decide) h.pc rfl rfl
    (by decide) (by decide) (hnext _ ⟨⟨?_, ?_⟩, ?_, ?_, ?_⟩)
  · simp [h.pc, BitVec.add_assoc]
  · simp [h.x4, h.x5, h.mem, copyLoop, copyPair]
  · simp [h.x4, BitVec.add_assoc, hpair]
  · simp [h.x5, BitVec.add_assoc, hpair]
  · simp [h.x6]

/-- A round of the loop, after which it is left if nothing is to be copied any more. -/
theorem round_run (h : Copying b s 5 n n t) (hn : 16 * (n + 1) ≤ b.uefiSize.toNat)
    (hlast : 16 * (n + 1) = b.uefiSize.toNat → ∀ t', At b s 9 (n + 1) t' → Arrives b.entry Q t')
    (hnext : 16 * (n + 1) < b.uefiSize.toNat → ∀ t', Copying b s 5 (n + 1) (n + 1) t' → Arrives b.entry Q t') :
    Arrives b.entry Q t := by
  refine pair_run hload hfits h hn ?_
  intro t' h'
  have hloaded := h'.loaded hload hfits hn
  have hsub : b.uefiSize - BitVec.ofNat 64 (16 * n) - 16#64 = b.uefiSize - BitVec.ofNat 64 (16 * (n + 1)) := by bv_omega
  refine .block 7 [.arithImm .x .subs .x6 .x6 16#64, .bCond .ne (-12#64)] hloaded (by decide) h'.pc rfl rfl (by decide)
    (by decide) ?_
  by_cases hzero : b.uefiSize - BitVec.ofNat 64 (16 * n) = 16#64
  · refine hlast (by bv_omega) _ ⟨?_, ?_⟩
    · simp [h'.pc, h'.x6, hzero, BitVec.add_assoc]
    · simp [h'.mem, h'.x6, hzero]
  · refine hnext (by bv_omega) _ ⟨⟨?_, ?_⟩, ?_, ?_, ?_⟩
    · simp [h'.pc, h'.x6, hzero, BitVec.add_assoc]
    · simp [h'.mem, h'.x6, hzero]
    · simp [h'.x4, h'.x6, hzero]
    · simp [h'.x5, h'.x6, hzero]
    · simp [h'.x6, hzero, hsub]

/-- The loop copies all pairs. -/
theorem loop_run {k : Nat} (h : Copying b s 5 n n t) (hk : 16 * (n + k + 1) = b.uefiSize.toNat)
    (hend : ∀ t', At b s 9 (n + k + 1) t' → Arrives b.entry Q t') : Arrives b.entry Q t := by
  induction k generalizing n t with
  | zero => exact round_run hload hfits h (by omega) (fun _ => hend) fun hlt => absurd hk (by omega)
  | succ k ih =>
    refine round_run hload hfits h (by omega) (fun heq => absurd hk (by omega)) ?_
    intro _ t' h'
    refine ih h' (by omega) fun u hu => hend u ?_
    rwa [show n + (k + 1) + 1 = n + 1 + k + 1 by omega]

theorem entry_run (h : At b s 9 (b.uefiSize.toNat / 16) t) (hne : s.x .x1 ≠ b.uefiBase) :
    Arrives b.entry (AtEntry b s) t := by
  have hloaded := h.loaded hload hfits (Nat.mul_div_le _ _)
  refine .block 9 [.ldrLiteral .x5 (-92#64)] hloaded (by decide) h.pc rfl rfl (by decide) (by decide)
    ⟨_, .refl, ?_, ?_, ?_⟩
  · simp [h.pc, BitVec.add_assoc]
  · simp [h.mem, hne]
  · simp [h.pc, literal_stackBase, BitVec.add_assoc]

theorem copy_run (h : Compared b s 4 t) (hne : s.x .x1 ≠ b.uefiBase) : Arrives b.entry (AtEntry b s) t := by
  have hloaded := h.loaded hload hfits (Nat.zero_le _)
  have hmem : t.mem = s.mem := h.mem
  have hpos := hfits.pos
  obtain ⟨pairs, hpairs⟩ := hfits.pairs
  have hcount : 0 + (pairs - 1) + 1 = b.uefiSize.toNat / 16 := by omega
  refine .block 4 [.ldrLiteral .x6 (-64#64)] hloaded (by decide) h.pc rfl rfl (by decide) (by decide) ?_
  refine loop_run (n := 0) (k := pairs - 1) hload hfits ⟨⟨?_, ?_⟩, ?_, ?_, ?_⟩ (by omega) ?_
  · simp [h.pc, BitVec.add_assoc]
  · simp [hmem, copyLoop]
  · simp [h.x4]
  · simp [h.x5]
  · simp [h.pc, hmem, literal_stackSize, hload.stackSize, BitVec.add_assoc]
  · intro u hu
    rw [hcount] at hu
    exact entry_run hload hfits hu hne

/-- `_Start` gets to `_Entry`. -/
theorem start_run (hpc : s.pc = b.start) : Arrives b.entry (AtEntry b s) s := by
  refine compare_run hload hpc ?_ fun hne t h => copy_run hload hfits h hne
  intro heq t h
  have hmem : t.mem = s.mem := h.mem
  refine ⟨t, .refl, h.pc, ?_, ?_⟩
  · rw [if_pos heq, hmem]
  · rw [h.x5, hmem, hload.stackBase]

end Run

/-- With the payload copied intact, the literal is what it was if no other bytes were copied over it. -/
theorem read64_stackBase_iff (hload : b.LoadedIn m)
    (hintact : ∀ j < b.uefiSize.toNat, copyLoop m src b.uefiBase n (b.uefiBase + BitVec.ofNat 64 j) =
      m (src + BitVec.ofNat 64 j)) (hn : 16 * n = b.uefiSize.toNat) :
    (copyLoop m src b.uefiBase n).read64 b.stackBase = b.uefiBase ↔ b.KeepsStackBase m src := by
  rw [← hload.stackBase, read64_eq_read64_iff, hload.stackBase]
  constructor
  · intro h j hj i hi heq
    rw [← h i hi, ← heq, hintact j hj]
  · intro h i hi
    by_cases hin : (b.stackBase + BitVec.ofNat 64 i - b.uefiBase).toNat < 16 * n
    · have heq : b.uefiBase + BitVec.ofNat 64 (b.stackBase + BitVec.ofNat 64 i - b.uefiBase).toNat =
          b.stackBase + BitVec.ofNat 64 i := by bv_omega
      rw [← h _ (hn ▸ hin) i hi heq, ← hintact _ (hn ▸ hin), heq]
    · exact copyLoop_of_le (by omega)

theorem AtEntry.relocated_iff (h : AtEntry b s t) (hload : b.LoadedIn s.mem) (hfits : b.Fits (s.x .x1)) :
    (t.x .x5 = b.uefiBase ∧
      ∀ j < b.uefiSize.toNat, t.mem (b.uefiBase + BitVec.ofNat 64 j) = s.mem (s.x .x1 + BitVec.ofNat 64 j)) ↔
    b.CopiesIntact s.mem (s.x .x1) ∧ b.KeepsStackBase s.mem (s.x .x1) := by
  by_cases heq : s.x .x1 = b.uefiBase
  · have hmem : t.mem = s.mem := by rw [h.mem, if_pos heq]
    have hkeeps : b.KeepsStackBase s.mem (s.x .x1) := by
      intro j _ i _ hji
      rw [heq, hji]
    refine iff_of_true ⟨?_, ?_⟩ ⟨.inl (by rw [heq]), hkeeps⟩
    · rw [h.x5, hmem, hload.stackBase]
    · intro j _
      rw [hmem, heq]
  · have hsize : 16 * (b.uefiSize.toNat / 16) = b.uefiSize.toNat := Nat.mul_div_cancel' hfits.pairs
    have hiff := copyLoop_intact_iff (m := s.mem) (hsize.symm ▸ hfits.source) (hsize.symm ▸ hfits.target)
    rw [hsize] at hiff
    rw [h.x5, h.mem, if_neg heq, and_comm, hiff]
    refine and_congr_right ?_
    intro hintact
    exact read64_stackBase_iff hload (hiff.2 hintact) hsize

/-- **The payload is relocated** exactly when the copy neither reads back what it has written nor changes the literal.
-/
theorem start_relocates_iff (hload : b.LoadedIn s.mem) (hpc : s.pc = b.start) (hfits : b.Fits (s.x .x1)) :
    b.Relocates s ↔ b.CopiesIntact s.mem (s.x .x1) ∧ b.KeepsStackBase s.mem (s.x .x1) :=
  (start_run hload hfits hpc).iff_of_forall fun _ h => h.relocated_iff hload hfits

/-! ## From `_Head` on -/

/-- `_Head` points `x1` to what is loaded behind the shim. -/
theorem head_run (hload : b.LoadedIn s.mem) (hpc : s.pc = b.head) :
    Reaches (fun t => t.pc = b.start ∧ t.x .x1 = b.payload ∧ t.mem = s.mem) s := by
  have hpc0 : s.pc = b.head + BitVec.ofNat 64 (4 * 0) := by rw [hpc]; exact (BitVec.add_zero _).symm
  refine .block 0 [.adr .x1 112#64, .b 60#64] hload.headCode (by decide) hpc0 rfl rfl (.here ⟨?_, ?_, ?_⟩)
  · simp [hpc, start, BitVec.add_assoc]
  · simp [hpc, payload]
  · simp

def headWords : List (BitVec 32) := [0x10000381, 0x1400000F]

def startWords : List (BitVec 32) := [
  0xAA0103E4, 0x58FFFE25, 0xEB05009F, 0x540000E0, 0x58FFFE06,
  0xA8C10C82, 0xA8810CA2, 0xF10040C6, 0x54FFFFA1,
  0x58FFFD25, 0xD61F00A0, 0x14000000]

/-- The shim as it is assembled, the magic number `ARM\x64` before `_Start`. -/
def words (b : BootShim) : List (BitVec 32) := headWords ++ [
  b.uefiBase.extractLsb' 0 32, b.uefiBase.extractLsb' 32 32, b.uefiSize.extractLsb' 0 32, b.uefiSize.extractLsb' 32 32,
  0, 0, 0, 0, 0, 0, 0, 0, 0x644D5241, 0] ++ startWords

@[simp] theorem length_words (b : BootShim) : b.words.length = 28 := rfl

theorem loadedIn_of_holdsWords (h : HoldsWords m b.head b.words) : b.LoadedIn m where
  headCode := by
    have hhead := h.part 0 (show _ = headWords from rfl)
    rw [Nat.mul_zero, BitVec.add_zero] at hhead
    exact .of_words hhead (by decide +kernel)
  stackBase := by
    have hnext : b.stackBase + 4 = b.head + BitVec.ofNat 64 (4 * 3) := BitVec.add_assoc b.head 8#64 4#64
    refine (read64_eq_iff _ _ _).2 ⟨h 2 (by simp), ?_⟩
    rw [hnext]
    exact h 3 (by simp)
  stackSize := by
    have hnext : b.stackSize + 4 = b.head + BitVec.ofNat 64 (4 * 5) := BitVec.add_assoc b.head 16#64 4#64
    refine (read64_eq_iff _ _ _).2 ⟨h 4 (by simp), ?_⟩
    rw [hnext]
    exact h 5 (by simp)
  startCode := .of_words (h.part 16 (show _ = startWords from rfl)) (by decide +kernel)

/-- The processor at `_Start`, with a payload that starts with 1 and goes on with zeros. -/
def cpu (b : BootShim) : Cpu where
  x r := if r = .x1 then b.payload else 0
  pc := b.start
  flags := ⟨false, false, false, false⟩
  mem := writeWords (fun _ => 0) b.head (b.words ++ [1])
  mpidr := 0
  sgi := []

theorem loadedIn_cpu (b : BootShim) : b.LoadedIn b.cpu.mem := by
  have h : HoldsWords b.cpu.mem b.head (b.words ++ [1]) := holdsWords_writeWords _ _ (by simp)
  have hpart := h.part 0 (show _ = b.words from rfl)
  rw [Nat.mul_zero, BitVec.add_zero] at hpart
  exact loadedIn_of_holdsWords hpart

/-- Loaded half a gigabyte below `UEFI_BASE`. -/
def below : BootShim := ⟨0x80080000#64, 0x9FC00000#64, 32#64⟩

/-- Loaded so that `UEFI_BASE` is 16 bytes into the payload. -/
def into : BootShim := ⟨0x80080000#64, 0x80080080#64, 32#64⟩

theorem fits_below : below.Fits (below.cpu.x .x1) where
  pos := by decide
  pairs := by decide
  source := by decide
  target := by decide
  apart := apart_of_le (by decide) (by decide)

theorem fits_into : into.Fits (into.cpu.x .x1) where
  pos := by decide
  pairs := by decide
  source := by decide
  target := by decide
  apart := apart_of_le (by decide) (by decide)

theorem relocates_below : below.Relocates below.cpu := by
  refine (start_relocates_iff below.loadedIn_cpu rfl fits_below).2 ⟨.inr (.inl (by decide)), ?_⟩
  intro j hj i hi heq
  have hapart : Apart below.uefiBase below.uefiSize.toNat below.stackBase 8 := apart_of_le (by decide) (by decide)
  exact absurd heq (hapart j hj i hi)

/-- The second pair of the payload is lost: the first is copied over it before it is read. -/
theorem not_relocates_into : into.LoadedIn into.cpu.mem ∧ into.cpu.pc = into.start ∧ into.Fits (into.cpu.x .x1) ∧
    ¬ into.Relocates into.cpu := by
  refine ⟨into.loadedIn_cpu, rfl, fits_into, ?_⟩
  rintro ⟨t, hwalk, hpc, ht⟩
  obtain ⟨t', hwalk', hpc', hentry⟩ := start_run into.loadedIn_cpu fits_into rfl
  obtain rfl := hwalk.unique hpc hwalk' hpc'
  obtain ⟨hintact, -⟩ := (hentry.relocated_iff into.loadedIn_cpu fits_into).1 ht
  rcases hintact with hle | hbehind | hrepeats
  · revert hle
    decide
  · revert hbehind
    decide
  · have hsecond := hrepeats 16 (by decide) (by decide) (by decide)
    revert hsecond
    decide +kernel

end BootShim

end Andromeda
