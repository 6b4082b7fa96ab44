import AndromedaBoot.Lib.InPlace
import Mathlib.Data.List.Perm.Basic

/-!
# The reference passes over the kernel (KernelErrataPatcherLib/ShellCode/*/Reference/ShellCode.c)

Each reference walks the modules of the loader block and, in an inner loop, the words of one module, and
patches in place what the platform does not implement.

| here | there |
| --- | --- |
| `scanModule`, `KernelPass.innerLoop` | `for (current = base; current < base + size; current += 4)` |
| `KernelPass.actlrEl1` | `ACTLR_EL1/Reference/ShellCode.c` :279-289 |
| `KernelPass.amcntenset0El0` | `AMCNTENSET0_EL0/Reference/ShellCode.c` :279-285 |
| `KernelPass.psciMemprotect` | `PSCI_MEMPROTECT/Reference/ShellCode.c` :279-298 |

`KernelPass.hit` gives what a round of the loop writes; that no later round sees it makes each pass an
`InPlace.Rule`.
-/

namespace Andromeda

open InPlace

/-- The loop over the words of a module; `none` stands for a loop that has been over all words of the
address space and goes on for ever. -/
def scanModule (body : ByteMemory → BitVec 64 → ByteMemory) (stop : BitVec 64) :
    Nat → BitVec 64 → ByteMemory → Option ByteMemory
  | 0, _, _ => none
  | fuel + 1, current, m => if current < stop then scanModule body stop fuel (current + 4) (body m current) else some m

/-- `base + size`. -/
def moduleEnd (base : BitVec 64) (size : BitVec 32) : BitVec 64 := base + size.setWidth 64

/-- The number of words the loop looks at. -/
def moduleWords (size : BitVec 32) : Nat := (size.toNat + 3) / 4

/-- The three passes that patch instructions of the kernel in place. -/
inductive KernelPass
  | actlrEl1
  | amcntenset0El0
  | psciMemprotect
deriving DecidableEq

namespace KernelPass

/-- The body of the inner loop. -/
def body (m : ByteMemory) (current : BitVec 64) : KernelPass → ByteMemory
  | actlrEl1 =>
    if m.read32 current = 0xD5381028#32 then m.write32 current 0xD2800008#32
    else if m.read32 current = 0xD5181028#32 ∨ m.read32 current = 0xD5181029#32 then m.write32 current 0xD503201F#32
    else m
  | amcntenset0El0 => if m.read32 current = 0xD53BD2A8#32 then m.write32 current 0xD2800008#32 else m
  | psciMemprotect =>
    if m.read64 current = 0xD2800003180002D5#64 ∧ m.read64 (current + 8) = 0xD2800001D2800002#64 then
      m.write32 (current - 32) 0xD65F03C0#32
    else if m.read64 current = 0xD2800002D2800003#64 ∧
        (m.read64 (current + 8) = 0x18000240D2800001#64 ∨ m.read64 (current + 8) = 0x180002C0D2800001#64) then
      m.write32 (current - 28) 0xD65F03C0#32
    else m

/-- The inner loop on the module at `base`. -/
def innerLoop (p : KernelPass) (base : BitVec 64) (size : BitVec 32) (m : ByteMemory) : Option ByteMemory :=
  scanModule (p.body · ·) (moduleEnd base size) (2 ^ 62) base m

/-- The memory before the `n`-th round. -/
def rounds (p : KernelPass) (base : BitVec 64) (n : Nat) (m : ByteMemory) : ByteMemory :=
  (List.range n).foldl (fun m k => p.body m (cursor base k)) m

/-- What a round writes, and where. -/
def hit (m : ByteMemory) (current : BitVec 64) : KernelPass → Option (BitVec 64 × BitVec 32)
  | actlrEl1 =>
    if m.read32 current = 0xD5381028#32 then some (current, 0xD2800008#32)
    else if m.read32 current = 0xD5181028#32 ∨ m.read32 current = 0xD5181029#32 then some (current, 0xD503201F#32)
    else none
  | amcntenset0El0 => if m.read32 current = 0xD53BD2A8#32 then some (current, 0xD2800008#32) else none
  | psciMemprotect =>
    if m.read64 current = 0xD2800003180002D5#64 ∧ m.read64 (current + 8) = 0xD2800001D2800002#64 then
      some (current - 32, 0xD65F03C0#32)
    else if m.read64 current = 0xD2800002D2800003#64 ∧
        (m.read64 (current + 8) = 0x18000240D2800001#64 ∨ m.read64 (current + 8) = 0x180002C0D2800001#64) then
      some (current - 28, 0xD65F03C0#32)
    else none

theorem body_eq (p : KernelPass) (m : ByteMemory) (current : BitVec 64) : p.body m current = patch m (p.hit m current) := by
  cases p
  · simp only [body, hit]
    split_ifs <;> rfl
  · simp only [body, hit]
    split_ifs <;> rfl
  · simp only [body, hit]
    split_ifs <;> rfl

end KernelPass

/-! ## The loop -/

theorem scanModule_eq (body : ByteMemory → BitVec 64 → ByteMemory) {stop : BitVec 64} {n fuel : Nat} (hfuel : n < fuel)
    {base : BitVec 64} (hlt : ∀ k < n, cursor base k < stop) (hstop : ¬ cursor base n < stop) (m : ByteMemory) :
    scanModule body stop fuel base m = some ((List.range n).foldl (fun m k => body m (cursor base k)) m) := by
  induction n generalizing base fuel m with
  | zero =>
    obtain ⟨fuel, rfl⟩ : ∃ f, fuel = f + 1 := ⟨fuel - 1, by omega⟩
    have hbase : ¬ base < stop := by simpa using hstop
    rw [scanModule, if_neg hbase]
    rfl
  | succ n ih =>
    obtain ⟨fuel, rfl⟩ : ∃ f, fuel = f + 1 := ⟨fuel - 1, by omega⟩
    have hbase : base < stop := by simpa using hlt 0 (by omega)
    have hnext (k : Nat) : cursor (base + 4) k = cursor base (k + 1) := by
      rw [show base + 4 = cursor base 1 from rfl, cursor_add, Nat.add_comm]
    rw [scanModule, if_pos hbase, ih (by omega) (fun k hk => by rw [hnext]; exact hlt _ (by omega))
      (by rwa [hnext]), List.range_succ_eq_map]
    simp only [hnext, List.foldl_map, List.foldl_cons, cursor_zero, Nat.succ_eq_add_one]

theorem toNat_moduleEnd {base : BitVec 64} {size : BitVec 32} (h : base.toNat + size.toNat + 4 < 2 ^ 64) :
    (moduleEnd base size).toNat = base.toNat + size.toNat := by
  have hsize := size.isLt
  rw [moduleEnd, BitVec.toNat_add, BitVec.toNat_setWidth]
  omega

/-- A module that ends below the end of the address space is walked once from its first word to its last. -/
theorem scanModule_module (body : ByteMemory → BitVec 64 → ByteMemory) {base : BitVec 64} {size : BitVec 32}
    (h : base.toNat + size.toNat + 4 < 2 ^ 64) (m : ByteMemory) :
    scanModule body (moduleEnd base size) (2 ^ 62) base m =
      some ((List.range (moduleWords size)).foldl (fun m k => body m (cursor base k)) m) := by
  have hsize := size.isLt
  have hend := toNat_moduleEnd h
  have hcursor (k : Nat) (hk : k ≤ moduleWords size) : (cursor base k).toNat = base.toNat + 4 * k := by
    unfold moduleWords at hk
    rw [cursor, BitVec.toNat_add, BitVec.toNat_ofNat]
    omega
  refine scanModule_eq body (by unfold moduleWords; omega) ?_ ?_ m
  · intro k hk
    rw [BitVec.lt_def, hcursor k hk.le, hend]
    unfold moduleWords at hk
    omega
  · rw [BitVec.lt_def, hcursor _ le_rfl, hend, moduleWords]
    omega

/-! ## The passes as rules -/

namespace KernelPass

variable {m m' : ByteMemory} {c a base : BitVec 64} {w : BitVec 32} {p q : KernelPass} {d k n : Nat}

/-- The number of words a pass looks at from its cursor on. -/
def reads : KernelPass → Nat
  | psciMemprotect => 4
  | _ => 1

/-- The words a pass looks for. -/
def wanted : KernelPass → List (BitVec 32)
  | actlrEl1 => [0xD5381028#32, 0xD5181028#32, 0xD5181029#32]
  | amcntenset0El0 => [0xD53BD2A8#32]
  | psciMemprotect => [0x180002D5#32, 0xD2800003#32, 0xD2800002#32, 0xD2800001#32, 0x18000240#32, 0x180002C0#32]

/-- The words a pass writes. -/
def written : KernelPass → List (BitVec 32)
  | actlrEl1 => [0xD2800008#32, 0xD503201F#32]
  | amcntenset0El0 => [0xD2800008#32]
  | psciMemprotect => [0xD65F03C0#32]

theorem not_wanted_of_written (p q : KernelPass) : ∀ w ∈ p.written, w ∉ q.wanted := by
  cases p <;> cases q <;> simp [written, wanted]

/-- No pass looks for what another one looks for at its cursor. -/
theorem not_wanted_of_wanted (h : p ≠ q) : ∀ w ∈ p.wanted, w ∉ q.wanted := by
  cases p <;> cases q <;> simp [wanted] at h ⊢

theorem actlr_hit_iff : actlrEl1.hit m c = some (a, w) ↔ a = c ∧
    (m.read32 c = 0xD5381028#32 ∧ w = 0xD2800008#32 ∨
      (m.read32 c = 0xD5181028#32 ∨ m.read32 c = 0xD5181029#32) ∧ w = 0xD503201F#32) := by
  unfold hit
  simp only
  split_ifs with h1 h2
  · simp [h1, eq_comm]
  · simp [h1, h2, eq_comm]
  · simp [h1, h2]

theorem amcnt_hit_iff :
    amcntenset0El0.hit m c = some (a, w) ↔ a = c ∧ m.read32 c = 0xD53BD2A8#32 ∧ w = 0xD2800008#32 := by
  unfold hit
  simp only
  split_ifs with h1
  · simp [h1, eq_comm]
  · simp [h1]

theorem psci_hit_iff : psciMemprotect.hit m c = some (a, w) ↔ w = 0xD65F03C0#32 ∧
    (a = c - 32 ∧ m.read32 (cursor c 0) = 0x180002D5#32 ∧ m.read32 (cursor c 1) = 0xD2800003#32 ∧
        m.read32 (cursor c 2) = 0xD2800002#32 ∧ m.read32 (cursor c 3) = 0xD2800001#32 ∨
      a = c - 28 ∧ m.read32 (cursor c 0) = 0xD2800003#32 ∧ m.read32 (cursor c 1) = 0xD2800002#32 ∧
        m.read32 (cursor c 2) = 0xD2800001#32 ∧
        (m.read32 (cursor c 3) = 0x18000240#32 ∨ m.read32 (cursor c 3) = 0x180002C0#32)) := by
  have e1 : cursor c 1 = c + 4 := rfl
  have e2 : cursor c 2 = c + 8 := rfl
  have e3 : cursor c 3 = c + 8 + 4 := by
    rw [BitVec.add_assoc]
    rfl
  simp only [hit, ByteMemory.read64_eq_iff, BitVec.reduceExtractLsb', cursor_zero, e1, e2, e3]
  split_ifs with h1 h2
  · grind
  · grind
  · grind

/-- A match is kept by a memory that has the wanted words where they were. -/
theorem hit_mono (h : ∀ i < p.reads, ∀ v ∈ p.wanted, m.read32 (cursor c i) = v → m'.read32 (cursor c i) = v)
    (hhit : p.hit m c = some (a, w)) : p.hit m' c = some (a, w) := by
  cases p with
  | actlrEl1 =>
    have h0 := h 0 (by decide)
    simp only [wanted, List.mem_cons, List.not_mem_nil, or_false, forall_eq_or_imp, forall_eq, cursor_zero] at h0
    rw [actlr_hit_iff] at hhit ⊢
    grind
  | amcntenset0El0 =>
    have h0 := h 0 (by decide)
    simp only [wanted, List.mem_cons, List.not_mem_nil, or_false, forall_eq, cursor_zero] at h0
    rw [amcnt_hit_iff] at hhit ⊢
    grind
  | psciMemprotect =>
    have h0 := h 0 (by decide)
    have h1 := h 1 (by decide)
    have h2 := h 2 (by decide)
    have h3 := h 3 (by decide)
    simp only [wanted, List.mem_cons, List.not_mem_nil, or_false, forall_eq_or_imp, forall_eq] at h0 h1 h2 h3
    rw [psci_hit_iff] at hhit ⊢
    grind

theorem hit_congr (h : ∀ i < p.reads, m.read32 (cursor c i) = m'.read32 (cursor c i)) : p.hit m c = p.hit m' c := by
  refine Option.ext fun (a, w) => ⟨fun hhit => ?_, fun hhit => ?_⟩
  · exact hit_mono (fun i hi v _ hv => (h i hi).symm.trans hv) hhit
  · exact hit_mono (fun i hi v _ hv => (h i hi).trans hv) hhit

/-- The place a match writes to. -/
theorem hit_addr (h : p.hit m c = some (a, w)) : a = c ∨ a = c - 32 ∨ a = c - 28 := by
  cases p with
  | actlrEl1 => exact .inl (actlr_hit_iff.1 h).1
  | amcntenset0El0 => exact .inl (amcnt_hit_iff.1 h).1
  | psciMemprotect =>
    rcases (psci_hit_iff.1 h).2 with h | h
    · exact .inr (.inl h.1)
    · exact .inr (.inr h.1)

theorem hit_written (h : p.hit m c = some (a, w)) : w ∈ p.written := by
  cases p with
  | actlrEl1 => rcases (actlr_hit_iff.1 h).2 with ⟨-, rfl⟩ | ⟨-, rfl⟩ <;> decide
  | amcntenset0El0 => rw [(amcnt_hit_iff.1 h).2.2]; decide
  | psciMemprotect => rw [(psci_hit_iff.1 h).1]; decide

/-- The two passes that look at one word replace that word. -/
theorem hit_local (hp : p ≠ psciMemprotect) (h : p.hit m c = some (a, w)) : a = c ∧ m.read32 c ∈ p.wanted := by
  cases p with
  | actlrEl1 =>
    obtain ⟨ha, ⟨hc, -⟩ | ⟨hc | hc, -⟩⟩ := actlr_hit_iff.1 h
    · exact ⟨ha, by rw [hc]; decide⟩
    · exact ⟨ha, by rw [hc]; decide⟩
    · exact ⟨ha, by rw [hc]; decide⟩
  | amcntenset0El0 =>
    obtain ⟨ha, hc, -⟩ := amcnt_hit_iff.1 h
    exact ⟨ha, by rw [hc]; decide⟩
  | psciMemprotect => exact absurd rfl hp

theorem hit_aligned (h : p.hit m c = some (a, w)) : (a - c).toNat % 4 = 0 := by
  rcases hit_addr h with rfl | rfl | rfl
  · simp
  · bv_omega
  · bv_omega

/-- No pass looks back at the place a match writes to. -/
theorem hit_write32 (h : p.hit m c = some (a, w)) (hd : 0 < d) (hle : d ≤ 2 ^ 30) :
    p.hit (m'.write32 a w) (cursor c d) = p.hit m' (cursor c d) := by
  refine hit_congr ?_
  intro i hi
  have hi4 : i < 4 := lt_of_lt_of_le hi (by cases p <;> decide)
  rw [cursor_add]
  rcases hit_addr h with rfl | rfl | rfl
  · exact ByteMemory.read32_write32_of_le w (by simp only [cursor]; bv_omega) (by simp only [cursor]; bv_omega)
  · exact ByteMemory.read32_write32_of_le w (by simp only [cursor]; bv_omega) (by simp only [cursor]; bv_omega)
  · exact ByteMemory.read32_write32_of_le w (by simp only [cursor]; bv_omega) (by simp only [cursor]; bv_omega)

/-- Two matches that write to one place write the same word. -/
theorem hit_agree {c' : BitVec 64} {w' : BitVec 32} (h : p.hit m c = some (a, w)) (h' : p.hit m c' = some (a, w')) :
    w = w' := by
  cases p with
  | actlrEl1 =>
    obtain ⟨rfl, -⟩ := actlr_hit_iff.1 h
    obtain ⟨hd, -⟩ := actlr_hit_iff.1 h'
    rw [← hd, h] at h'
    simpa using h'
  | amcntenset0El0 => rw [(amcnt_hit_iff.1 h).2.2, (amcnt_hit_iff.1 h').2.2]
  | psciMemprotect => rw [(psci_hit_iff.1 h).1, (psci_hit_iff.1 h').1]

/-- A pass as a rule: the PSCI pass writes seven or eight words behind the cursor, the others at it. -/
def rule (p : KernelPass) : Rule where
  hit m c := p.hit m c
  grid := hit_aligned
  unseen := hit_write32
  agree h _ h' := hit_agree h h'

theorem rule_run (p : KernelPass) (base : BitVec 64) (n : Nat) (m : ByteMemory) :
    p.rule.run base n m = p.rounds base n m := by
  simp only [Rule.run, rounds, body_eq, rule]

theorem innerLoop_eq (p : KernelPass) {base : BitVec 64} {size : BitVec 32} (h : base.toNat + size.toNat + 4 < 2 ^ 64)
    (m : ByteMemory) : p.innerLoop base size m = some (p.rule.run base (moduleWords size) m) := by
  rw [innerLoop, scanModule_module _ h, rule_run, rounds]

/-! ## Idempotence and order -/

theorem cursor_grid (base : BitVec 64) (k : Nat) : (cursor base k - base).toNat % 4 = 0 := by
  simp only [cursor]
  bv_omega

/-- A pass makes no new match of any pass. -/
theorem hit_of_hit_run (hn : n ≤ 2 ^ 30) (h : q.hit (p.rule.run base n m) (cursor base k) = some (a, w)) :
    q.hit m (cursor base k) = some (a, w) := by
  refine hit_mono ?_ h
  intro i _ v hv hread
  rw [cursor_add] at hread ⊢
  rcases p.rule.read32_run_cases m hn (cursor_grid base (k + i)) with ⟨l, -, hhit⟩ | ⟨-, heq⟩
  · rw [hread] at hhit
    exact absurd hv (not_wanted_of_written p q v (hit_written hhit))
  · rw [← heq, hread]

/-- The matches of another pass survive the passes that replace a word they look for themselves. -/
theorem hit_run_of_ne (hn : n ≤ 2 ^ 30) (hp : p ≠ psciMemprotect) (hpq : p ≠ q) :
    q.hit (p.rule.run base n m) (cursor base k) = q.hit m (cursor base k) := by
  refine Option.ext fun (a, w) => ⟨hit_of_hit_run hn, hit_mono fun i _ v hv hread => ?_⟩
  rw [cursor_add] at hread ⊢
  rcases p.rule.read32_run_cases m hn (cursor_grid base (k + i)) with ⟨l, -, hhit⟩ | ⟨-, heq⟩
  · obtain ⟨hl, hmem⟩ := hit_local hp hhit
    rw [← hl, hread] at hmem
    exact absurd hv (not_wanted_of_wanted hpq v hmem)
  · rw [heq, hread]

theorem run_run (p : KernelPass) (hn : n ≤ 2 ^ 30) : p.rule.run base n (p.rule.run base n m) = p.rule.run base n m :=
  p.rule.run_run hn fun _ hk _ _ h => p.rule.read32_run_of_hit hn hk (hit_of_hit_run hn h)

theorem run_comm_of_ne (hn : n ≤ 2 ^ 30) (hp : p ≠ psciMemprotect) (hpq : p ≠ q) :
    q.rule.run base n (p.rule.run base n m) = p.rule.run base n (q.rule.run base n m) := by
  refine p.rule.run_comm q.rule hn (fun k _ => hit_run_of_ne hn hp hpq) fun k hk a w => ⟨fun h => ?_, fun ⟨h, hnot⟩ => ?_⟩
  · obtain ⟨rfl, hmem⟩ := hit_local hp h
    refine ⟨hit_of_hit_run hn h, ?_⟩
    intro l hl w' hhit
    rw [q.rule.read32_run_of_hit hn hl hhit] at hmem
    exact not_wanted_of_written q p w' (hit_written hhit) hmem
  · obtain ⟨rfl, -⟩ := hit_local hp h
    have hword := q.rule.read32_run_of_not_hit hn (cursor_grid base k) hnot
    refine (hit_congr ?_).trans h
    intro i hi
    have hi0 : i = 0 := by
      cases p with
      | psciMemprotect => exact absurd rfl hp
      | _ => exact Nat.lt_one_iff.1 hi
    rw [hi0, cursor_zero, hword]

theorem run_comm (p q : KernelPass) (hn : n ≤ 2 ^ 30) :
    q.rule.run base n (p.rule.run base n m) = p.rule.run base n (q.rule.run base n m) := by
  by_cases hpq : p = q
  · rw [hpq]
  by_cases hp : p = psciMemprotect
  · exact (run_comm_of_ne hn (fun hq => hpq (hp.trans hq.symm)) (Ne.symm hpq)).symm
  · exact run_comm_of_ne hn hp hpq

/-- The pass with all its matches taken in the memory before it. -/
def simultaneous (p : KernelPass) (base : BitVec 64) (size : BitVec 32) (m : ByteMemory) : ByteMemory :=
  p.rule.simultaneous base (moduleWords size) m

/-- The passes of a list one after the other. -/
def runAll (l : List KernelPass) (base : BitVec 64) (size : BitVec 32) (m : ByteMemory) : Option ByteMemory :=
  l.foldlM (fun m p => p.innerLoop base size m) m

theorem runAll_eq {size : BitVec 32} (h : base.toNat + size.toNat + 4 < 2 ^ 64) (l : List KernelPass) (m : ByteMemory) :
    runAll l base size m = some (l.foldl (fun m p => p.rule.run base (moduleWords size) m) m) := by
  induction l generalizing m with
  | nil => rfl
  | cons p l ih =>
    have hstep : runAll (p :: l) base size m = (p.innerLoop base size m).bind (runAll l base size) := rfl
    rw [hstep, innerLoop_eq p h, Option.bind_some, ih, List.foldl_cons]

end KernelPass

theorem moduleWords_le (size : BitVec 32) : moduleWords size ≤ 2 ^ 30 := by
  have := size.isLt
  unfold moduleWords
  omega

/-- **Each pass over a module equals the patch computed from the memory before it**, and no round sees what an earlier
one wrote; a second run changes nothing; and the passes may be run in any order. -/
theorem kernelPasses_single_shot {base : BitVec 64} {size : BitVec 32} (h : base.toNat + size.toNat + 4 < 2 ^ 64)
    (m : ByteMemory) :
    (∀ p : KernelPass, p.innerLoop base size m = some (p.simultaneous base size m) ∧
      (∀ k l, k ≤ l → l < moduleWords size → p.hit (p.rounds base k m) (cursor base l) = p.hit m (cursor base l)) ∧
      (p.innerLoop base size m).bind (p.innerLoop base size) = p.innerLoop base size m) ∧
    (∀ p q : KernelPass, (p.innerLoop base size m).bind (q.innerLoop base size) =
      (q.innerLoop base size m).bind (p.innerLoop base size)) ∧
    ∀ l l' : List KernelPass, l.Perm l' →
      ∃ m', KernelPass.runAll l base size m = some m' ∧ KernelPass.runAll l' base size m = some m' := by
  have hn := moduleWords_le size
  refine ⟨fun p => ⟨?_, fun k l hk hl => ?_, ?_⟩, fun p q => ?_, fun l l' hperm => ?_⟩
  · rw [p.innerLoop_eq h, Rule.run_eq_simultaneous _ hn, KernelPass.simultaneous]
  · rw [← KernelPass.rule_run]
    exact p.rule.hit_run hk (by omega)
  · rw [p.innerLoop_eq h, Option.bind_some, p.innerLoop_eq h, KernelPass.run_run p hn]
  · rw [p.innerLoop_eq h, q.innerLoop_eq h, Option.bind_some, Option.bind_some, q.innerLoop_eq h, p.innerLoop_eq h,
      KernelPass.run_comm p q hn]
  · refine ⟨_, KernelPass.runAll_eq h l m, ?_⟩
    have : RightCommutative fun m (p : KernelPass) => p.rule.run base (moduleWords size) m :=
      ⟨fun m p q => KernelPass.run_comm p q hn⟩
    rw [KernelPass.runAll_eq h, hperm.foldl_eq]

/-- The first word of this image is one the ACTLR pass replaces and the PSCI pass overwrites. -/
theorem kernelPasses_single_shot_overlap :
    ∃ m', KernelPass.runAll [.psciMemprotect, .actlrEl1] 0x1000#64 48#32
          (ByteMemory.write64 (ByteMemory.write64 (ByteMemory.write32 (fun _ => 0) 0x1000#64 0xD5381028#32)
            0x1020#64 0xD2800003180002D5#64) 0x1028#64 0xD2800001D2800002#64) = some m' ∧
        KernelPass.runAll [.actlrEl1, .psciMemprotect] 0x1000#64 48#32
          (ByteMemory.write64 (ByteMemory.write64 (ByteMemory.write32 (fun _ => 0) 0x1000#64 0xD5381028#32)
            0x1020#64 0xD2800003180002D5#64) 0x1028#64 0xD2800001D2800002#64) = some m' :=
  (kernelPasses_single_shot (by decide) _).2.2 _ _ (by decide)

end Andromeda
