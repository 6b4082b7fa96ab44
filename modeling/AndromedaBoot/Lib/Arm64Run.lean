import AndromedaBoot.Lib.Arm64
import Mathlib.Logic.Relation

/-!
# Running AArch64 programs

`Loaded m c prog` says that memory holds the program `prog` from `c` on. A program is run block by block: as
long as the instructions of a block neither branch nor store, the block is executed as a whole (`Reaches.block`,
and `Arrives.block` where it matters that the run gets to an address for the first time).
-/

namespace Arm64

open ByteMemory

/-- Finitely many steps lead to a state with `Q`. -/
inductive Reaches (Q : Cpu → Prop) : Cpu → Prop
  | here {s : Cpu} : Q s → Reaches Q s
  | step {s s' : Cpu} : step s = some s' → Reaches Q s' → Reaches Q s

variable {P Q : Cpu → Prop} {s : Cpu} {m m' : ByteMemory} {c : BitVec 64} {k l : Nat} {prog : List Instr}

theorem Reaches.trans (h : Reaches P s) (hPQ : ∀ s', P s' → Reaches Q s') : Reaches Q s := by
  induction h with
  | here h => exact hPQ _ h
  | step hstep _ ih => exact .step hstep ih

theorem Reaches.mono (h : Reaches P s) (hPQ : ∀ s', P s' → Q s') : Reaches Q s :=
  h.trans fun s' hs' => .here (hPQ s' hs')

/-- A run on which the states before the last have `A`. -/
def Walk (A : Cpu → Prop) : Cpu → Cpu → Prop := Relation.ReflTransGen fun s s' => A s ∧ step s = some s'

theorem Walk.mono {A B : Cpu → Prop} {t : Cpu} (h : Walk A s t) (hAB : ∀ s', A s' → B s') : Walk B s t :=
  Relation.ReflTransGen.mono (fun s' _ hs' => ⟨hAB s' hs'.1, hs'.2⟩) s t h

theorem Walk.reaches {A : Cpu → Prop} {t : Cpu} (h : Walk A s t) (ht : Reaches Q t) : Reaches Q s := by
  induction h using Relation.ReflTransGen.head_induction_on with
  | refl => exact ht
  | head hstep _ ih => exact .step hstep.2 ih

/-- The run gets to the address `a`, and the first time it does `Q` holds. -/
def Arrives (a : BitVec 64) (Q : Cpu → Prop) (s : Cpu) : Prop :=
  ∃ t, Walk (fun s' => s'.pc ≠ a) s t ∧ t.pc = a ∧ Q t

/-- There is one first time. -/
theorem Walk.unique {a : BitVec 64} {t t' : Cpu} (h : Walk (fun s' => s'.pc ≠ a) s t) (ht : t.pc = a)
    (h' : Walk (fun s' => s'.pc ≠ a) s t') (ht' : t'.pc = a) : t = t' := by
  induction h using Relation.ReflTransGen.head_induction_on with
  | refl =>
    rcases Relation.ReflTransGen.cases_head h' with heq | ⟨_, hstep, _⟩
    · exact heq
    · exact absurd ht hstep.1
  | head hstep _ ih =>
    rcases Relation.ReflTransGen.cases_head h' with heq | ⟨u, hstep', hrest⟩
    · exact absurd (heq ▸ ht') hstep.1
    · obtain rfl := Option.some.inj (hstep.2.symm.trans hstep'.2)
      exact ih hrest

theorem Arrives.iff_of_forall {a : BitVec 64} {p : Prop} (h : Arrives a P s) (hPQ : ∀ t, P t → (Q t ↔ p)) :
    Arrives a Q s ↔ p := by
  obtain ⟨t, hwalk, hpc, hP⟩ := h
  constructor
  · rintro ⟨t', hwalk', hpc', hQ⟩
    obtain rfl := hwalk.unique hpc hwalk' hpc'
    exact (hPQ t hP).1 hQ
  · exact fun hp => ⟨t, hwalk, hpc, (hPQ t hP).2 hp⟩

/-! ## Programs in memory -/

/-- A program stands in memory from `c` on, at least from its `k`-th instruction. -/
def Loaded (m : ByteMemory) (c : BitVec 64) (k : Nat) (prog : List Instr) : Prop :=
  ∀ (i : Nat) (h : i < prog.length), k ≤ i → decode (m.read32 (c + BitVec.ofNat 64 (4 * i))) = some prog[i]

/-- The words of a list of bytes. -/
def words : List (BitVec 8) → List (BitVec 32)
  | b0 :: b1 :: b2 :: b3 :: bytes => (b3 ++ b2 ++ b1 ++ b0) :: words bytes
  | _ => []

/-- The program a list of bytes stands for. -/
def disassemble (bytes : List (BitVec 8)) : Option (List Instr) := (words bytes).mapM decode

theorem Loaded.congr (hload : Loaded m c k prog)
    (h : ∀ i < 4 * prog.length, 4 * k ≤ i → m' (c + BitVec.ofNat 64 i) = m (c + BitVec.ofNat 64 i)) :
    Loaded m' c k prog := by
  intro i hi hk
  rw [← hload i hi hk]
  congr 1
  refine read32_congr ?_
  intro j hj
  rw [BitVec.add_assoc, ← BitVec.ofNat_add]
  exact h _ (by omega) (by omega)

theorem Loaded.write64 {a : BitVec 64} (hload : Loaded m c k prog) (h : Apart a 8 c (4 * prog.length)) (v : BitVec 64) :
    Loaded (m.write64 a v) c k prog :=
  hload.congr fun _ hi _ => write64_of_apart v h hi

theorem Loaded.mono (hload : Loaded m c k prog) (h : k ≤ l) : Loaded m c l prog :=
  fun i hi hl => hload i hi (h.trans hl)

theorem Loaded.of_words {ws : List (BitVec 32)} (h : HoldsWords m c ws) (hprog : ws.mapM decode = some prog) :
    Loaded m c 0 prog := by
  induction ws generalizing c prog with
  | nil =>
    obtain rfl : [] = prog := by simpa using hprog
    intro i hi _
    simp at hi
  | cons w ws ih =>
    rw [List.mapM_cons] at hprog
    obtain ⟨ins, hins, hprog⟩ := Option.bind_eq_some_iff.1 hprog
    obtain ⟨tail, htail, hprog⟩ := Option.bind_eq_some_iff.1 hprog
    obtain rfl : ins :: tail = prog := by simpa using hprog
    intro i hi _
    cases i with
    | zero =>
      rw [h 0 (by simp)]
      exact hins
    | succ i =>
      rw [show c + BitVec.ofNat 64 (4 * (i + 1)) = c + 4 + BitVec.ofNat 64 (4 * i) by bv_omega]
      exact ih h.tail htail i (by simpa using hi) (Nat.zero_le i)

theorem Holds.words {bytes : List (BitVec 8)} (h : Holds m c bytes) : HoldsWords m c (words bytes) := by
  induction bytes using Arm64.words.induct generalizing c with
  | case1 b0 b1 b2 b3 bytes ih =>
    have hrest := ih (ByteMemory.Holds.tail (ByteMemory.Holds.tail (ByteMemory.Holds.tail (ByteMemory.Holds.tail h))))
    rw [show c + 1 + 1 + 1 + 1 = c + 4 by bv_omega] at hrest
    intro i hi
    cases i with
    | zero =>
      have h0 := h 0 (by simp)
      have h1 := h 1 (by simp)
      have h2 := h 2 (by simp)
      have h3 := h 3 (by simp)
      simp only [BitVec.add_zero, List.getElem_cons_zero, List.getElem_cons_succ] at h0 h1 h2 h3
      simp only [Nat.mul_zero, BitVec.ofNat_eq_ofNat, BitVec.add_zero, read32, h0, h1, h2, h3, Arm64.words,
        List.getElem_cons_zero]
    | succ i =>
      rw [show c + BitVec.ofNat 64 (4 * (i + 1)) = c + 4 + BitVec.ofNat 64 (4 * i) by bv_omega]
      exact hrest i (by simpa [Arm64.words] using hi)
  | case2 bytes hshort =>
    have hwords : Arm64.words bytes = [] := by
      unfold Arm64.words
      split
      · exact absurd rfl (hshort _ _ _ _ _)
      · rfl
    intro i hi
    simp [hwords] at hi

theorem Loaded.of_holds {bytes : List (BitVec 8)} (h : Holds m c bytes) (hprog : disassemble bytes = some prog) :
    Loaded m c 0 prog :=
  .of_words (Holds.words h) hprog

/-! ## Blocks -/

/-- The instruction neither branches nor stores. -/
def Instr.straight : Instr → Bool
  | .str .. | .stp .. | .b .. | .bl .. | .bCond .. | .cbz .. | .cbnz .. | .tbz .. | .tbnz .. | .ret .. | .br .. =>
    false
  | _ => true

theorem exec_straight {ins : Instr} (h : ins.straight = true) (s : Cpu) :
    (exec s ins).pc = s.pc + 4 ∧ (exec s ins).mem = s.mem := by
  cases ins with
  | arithImm sf op rd rn imm =>
    cases op <;> simp only [exec, Arith.setsFlags, Cpu.setReg] <;> split_ifs <;> exact ⟨rfl, rfl⟩
  | arithReg sf op rd rn rm shift amount =>
    cases op <;> simp only [exec, Arith.setsFlags, Cpu.setReg] <;> split_ifs <;> exact ⟨rfl, rfl⟩
  | ldr sf rt rn index offset =>
    cases index <;> simp only [exec, Cpu.writeBack, Cpu.setReg] <;> split_ifs <;> exact ⟨rfl, rfl⟩
  | ldp rt rt2 rn index offset =>
    cases index <;> simp only [exec, Cpu.writeBack, Cpu.setReg] <;> split_ifs <;> exact ⟨rfl, rfl⟩
  | str => simp [Instr.straight] at h
  | stp => simp [Instr.straight] at h
  | b => simp [Instr.straight] at h
  | bl => simp [Instr.straight] at h
  | bCond => simp [Instr.straight] at h
  | cbz => simp [Instr.straight] at h
  | cbnz => simp [Instr.straight] at h
  | tbz => simp [Instr.straight] at h
  | tbnz => simp [Instr.straight] at h
  | ret => simp [Instr.straight] at h
  | br => simp [Instr.straight] at h
  | logicImm | ccmpImm | msrIccSgi1rEl1 | nop | dsb => exact ⟨rfl, rfl⟩
  | _ =>
    simp only [exec, Cpu.setReg]
    split_ifs <;> exact ⟨rfl, rfl⟩

/-- The states before the end of a block are at its instructions. -/
theorem Walk.block (i : Nat) (blk : List Instr) (hload : Loaded s.mem c k prog) (hk : k ≤ i)
    (hpc : s.pc = c + BitVec.ofNat 64 (4 * i)) (hblk : (prog.drop i).take blk.length = blk)
    (hstraight : blk.dropLast.all Instr.straight = true) :
    Walk (fun t => ∃ j < blk.length, t.pc = c + BitVec.ofNat 64 (4 * (i + j))) s (blk.foldl exec s) := by
  induction blk generalizing s i with
  | nil => exact .refl
  | cons ins rest ih =>
    have hi : i < prog.length := by
      by_contra hle
      rw [List.drop_eq_nil_of_le (by omega)] at hblk
      simp at hblk
    rw [List.drop_eq_getElem_cons hi, List.length_cons, List.take_succ_cons, List.cons.injEq] at hblk
    have hfetch : Arm64.step s = some (exec s ins) := by
      rw [Arm64.step, hpc, hload i hi hk, hblk.1]
      rfl
    refine .head ⟨⟨0, by simp, hpc⟩, hfetch⟩ ?_
    cases rest with
    | nil => exact .refl
    | cons ins' rest =>
      rw [List.dropLast_cons_cons, List.all_cons, Bool.and_eq_true] at hstraight
      obtain ⟨hnext, hmem⟩ := exec_straight hstraight.1 s
      have hrest := ih (i + 1) (by rwa [hmem]) (by omega) (by rw [hnext, hpc]; bv_omega) hblk.2 hstraight.2
      refine hrest.mono fun t ⟨j, hj, ht⟩ => ⟨j + 1, Nat.succ_lt_succ hj, ?_⟩
      rw [ht, Nat.add_assoc, Nat.add_comm 1]

/-- Run a block of the program, of which only the last instruction may branch or store. -/
theorem Reaches.block (i : Nat) (blk : List Instr) (hload : Loaded s.mem c k prog) (hk : k ≤ i)
    (hpc : s.pc = c + BitVec.ofNat 64 (4 * i)) (hblk : (prog.drop i).take blk.length = blk)
    (hstraight : blk.dropLast.all Instr.straight = true) (h : Reaches Q (blk.foldl exec s)) : Reaches Q s :=
  (Walk.block i blk hload hk hpc hblk hstraight).reaches h

/-- Run a block on the way to another instruction of the program. -/
theorem Arrives.block {e : Nat} (i : Nat) (blk : List Instr) (hload : Loaded s.mem c k prog) (hk : k ≤ i)
    (hpc : s.pc = c + BitVec.ofNat 64 (4 * i)) (hblk : (prog.drop i).take blk.length = blk)
    (hstraight : blk.dropLast.all Instr.straight = true) (he : e < i ∨ i + blk.length ≤ e)
    (hlen : 4 * (i + blk.length) < 2 ^ 64 ∧ 4 * e < 2 ^ 64)
    (h : Arrives (c + BitVec.ofNat 64 (4 * e)) Q (blk.foldl exec s)) : Arrives (c + BitVec.ofNat 64 (4 * e)) Q s := by
  obtain ⟨s', hwalk, hs'⟩ := h
  refine ⟨s', .trans ((Walk.block i blk hload hk hpc hblk hstraight).mono ?_) hwalk, hs'⟩
  rintro t ⟨j, hj, ht⟩ heq
  rw [ht] at heq
  bv_omega

end Arm64
