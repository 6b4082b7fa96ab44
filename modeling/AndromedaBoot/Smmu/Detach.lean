import AndromedaBoot.Lib.Tracked
import AndromedaBoot.Smmu.Registers
import Mathlib.Tactic.IntervalCases

/-!
# Detaching the SMMU (QcomMmuDetachHelperLib.c:107-291)

Before the OS takes over, every stream is cut off except those of a list, and every context bank is
freed except those the kept streams use. A first loop walks the stream-mapping entries, takes the others
down and notes the context banks of the kept ones in an array of 16; a second loop frees the banks that
are not noted.

| here | there |
| --- | --- |
| `disableContextBank`, `freeContextBank` | :111, :148 |
| `shouldSkipSid` | the search for a stream ID to keep (:207-224) |
| `detachEntry` | the body of the first loop (:197-252) |
| `smmuV2DetachAll` | :177 |
| `mmuDetach` | `MmuDetach` (:277), with the SMMU at `base` |

`PcdSMMUSIDsToKeep` is an array of bytes; one of odd size, like the `{0x0}` of SM8150, holds no stream
IDs. `Kept` says which entries are meant by it.
-/

namespace Andromeda

open SmmuRegister

/-- `PcdSMMUSIDsToKeep[j]` as a `UINT16`. -/
def smmuSidToKeep (pcd : List (BitVec 8)) (j : Nat) : BitVec 16 := pcd.getD (2 * j + 1) 0 ++ pcd.getD (2 * j) 0

/-- `ShouldSkipSID` for the entry with the given stream match register (:207-224). -/
def shouldSkipSid (pcd : List (BitVec 8)) (smr : BitVec 32) : Bool :=
  let smrId := (smr >>> 0) &&& 0xFFFF#32
  let smrMask := (smr >>> 16) &&& 0xFFFF#32
  let maskedSmrId := smrId &&& ~~~smrMask
  pcd.length % 2 == 0 && (List.range (pcd.length / 2)).any fun j =>
    (smmuSidToKeep pcd j).setWidth 32 &&& ~~~smrMask == maskedSmrId

namespace SmmuHardware

variable (hw : SmmuHardware)

/-- The wait for the MMU to be off (:125-132). -/
def waitDisabled (cbndx : BitVec 32) : Nat → Mmio → Mmio
  | 0, m => m
  | timeout + 1, m =>
    if hw.armSmmuCbRead m cbndx 0x0 &&& 1 = 0 then m
    else waitDisabled cbndx timeout (microSecondDelay m 10)

/-- `disable_context_bank` (:111). -/
def disableContextBank (m : Mmio) (cbndx : BitVec 32) : Mmio :=
  let sctlr := hw.armSmmuCbRead m cbndx 0x0
  let m := hw.armSmmuCbWrite m cbndx 0x0 (sctlr &&& ~~~1)
  let m := hw.waitDisabled cbndx 1000 m
  let m := hw.armSmmuCbWriteq m cbndx 0x20 0
  let m := hw.armSmmuCbWriteq m cbndx 0x28 0
  let m := hw.armSmmuCbWrite m cbndx 0x30 0
  let fsr := hw.armSmmuCbRead m cbndx 0x58
  if fsr ≠ 0 then hw.armSmmuCbWrite m cbndx 0x58 fsr else m

/-- `free_context_bank` (:148). -/
def freeContextBank (m : Mmio) (cbndx : BitVec 32) : Mmio :=
  let m := hw.disableContextBank m cbndx
  let cbar := hw.armSmmuGr1Read m (0x0 + (cbndx.toNat <<< 2))
  let cbarType := (cbar >>> 16) &&& 0x3
  let cbarVmid := (cbar >>> 0) &&& 0xFF
  if cbarType ≠ 0 ∧ cbarType ≠ 2 ∧ (cbarType ≠ 1 ∨ cbarVmid ≠ 0xFF) then
    hw.armSmmuGr1Write m (0x0 + (cbndx.toNat <<< 2)) (((1#32 &&& 0x3#32) <<< 16) ||| ((0xFF#32 &&& 0xFF#32) <<< 0))
  else m

/-- One stream-mapping entry; the list is `ContextBanks`, of 16 elements at most. -/
def detachEntry (pcd : List (BitVec 8)) (s : Mmio × List (BitVec 32)) (i : Nat) : Mmio × List (BitVec 32) :=
  let smr := hw.armSmmuGr0Read s.1 (0x800 + (i <<< 2))
  if smr &&& 0x80000000#32 ≠ 0 then
    let s2cr := hw.armSmmuGr0Read s.1 (0xC00 + (i <<< 2))
    let cbndx := (s2cr >>> 0) &&& 0xFF
    if shouldSkipSid pcd smr then (s.1, Tracked.track 16 s.2 cbndx)
    else
      let m := hw.armSmmuGr0Write s.1 (0xC00 + (i <<< 2)) (((2#32 &&& 0x3#32) <<< 16) ||| ((cbndx &&& 0xFF#32) <<< 0))
      (hw.armSmmuGr0Write m (0x800 + (i <<< 2)) (smr &&& ~~~0x80000000#32), s.2)
  else s

/-- The second loop (:258-274) up to a bank. -/
def freeBanks (contextBanks : List (BitVec 32)) (n : Nat) (m : Mmio) : Mmio :=
  (List.range n).foldl (fun m cbndx =>
    if contextBanks.contains (BitVec.ofNat 32 cbndx) then m else hw.freeContextBank m (BitVec.ofNat 32 cbndx)) m

/-- `smmu_v2_detach_all` (:177). -/
def smmuV2DetachAll (pcd : List (BitVec 8)) (m : Mmio) : Mmio :=
  let id0 := hw.armSmmuGr0Read m 0x20
  let numsmrg := (id0 >>> 0) &&& 0xFF
  let s := (List.range numsmrg.toNat).foldl (hw.detachEntry pcd) (m, [])
  let m := hw.smmuTlbInvalidateAll s.1
  hw.freeBanks s.2 hw.device.numContextBanks.toNat m

end SmmuHardware

/-- The device `MmuDetach` makes of the ID register (:285-288). -/
def smmuDevice (base : BitVec 64) (id1 : BitVec 32) : ArmSmmuV2Device where
  smmuBaseAddress := base
  pgshift := if id1 &&& 0x80000000#32 ≠ 0 then 16 else 12
  numpage := 1#32 <<< (((id1 &&& 0x70000000#32) >>> 28).toNat + 1)
  numContextBanks := id1 &&& 0xFF

/-- The SMMU at `base`, laid out as its ID register says. -/
def smmuAt (base : BitVec 64) (gstatus : Nat → BitVec 32) (m : Mmio) : SmmuHardware :=
  ⟨smmuDevice base (m.value (id1.address ⟨base, 0, 0, 0⟩)), gstatus⟩

/-- `MmuDetach` (:277). -/
def mmuDetach (pcd : List (BitVec 8)) (base : BitVec 64) (gstatus : Nat → BitVec 32) (m : Mmio) : Mmio :=
  (smmuAt base gstatus m).smmuV2DetachAll pcd m

/-! ## Fields -/

theorem valid_iff (smr : BitVec 32) : smr &&& 0x80000000#32 ≠ 0 ↔ smr.getLsbD 31 = true := by
  constructor
  · intro h
    by_contra hbit
    apply h
    ext i hi
    simp only [BitVec.getLsbD_eq_getElem, Bool.not_eq_true, Nat.reduceLT] at hbit
    interval_cases i <;> simp [hbit]
  · intro h hzero
    have hbit := congrArg (BitVec.getLsbD · 31) hzero
    simp only [BitVec.getLsbD_and, h] at hbit
    exact absurd hbit (by decide)

/-- Taking the valid bit out leaves the rest of an entry. -/
theorem invalid_bits (smr : BitVec 32) :
    (smr &&& ~~~0x80000000#32).getLsbD 31 = false ∧ ∀ b < 31, (smr &&& ~~~0x80000000#32).getLsbD b = smr.getLsbD b := by
  refine ⟨by simp, ?_⟩
  intro b hb
  simp only [BitVec.getLsbD_and]
  interval_cases b <;> simp

/-- The fields of the `S2CR` of an entry that is taken down. -/
theorem fault_fields (cbndx : BitVec 32) :
    ((((2#32 &&& 0x3#32) <<< 16) ||| ((cbndx &&& 0xFF#32) <<< 0)) >>> 16 &&& 0x3 : BitVec 32) = 2 ∧
      ((((2#32 &&& 0x3#32) <<< 16) ||| ((cbndx &&& 0xFF#32) <<< 0)) >>> 0 &&& 0xFF : BitVec 32) = cbndx &&& 0xFF := by
  constructor
  · ext i hi
    simp only [BitVec.getElem_and, BitVec.getElem_ushiftRight, BitVec.getLsbD_or]
    interval_cases i <;> simp
  · ext i hi
    simp only [BitVec.getElem_and, BitVec.getElem_ushiftRight, BitVec.getLsbD_or]
    interval_cases i <;> simp

/-! ## Freeing a context bank -/

/-- The context bank a register belongs to. -/
def SmmuRegister.bank : SmmuRegister → Option (BitVec 32)
  | .gr0 _ => none
  | .gr1 offset => if offset % 4 = 0 then some (BitVec.ofNat 32 (offset / 4)) else none
  | .cb bank _ => some bank

/-- A register in the page of a context bank. -/
def SmmuRegister.inPageOf (b : BitVec 32) : SmmuRegister → Bool
  | .cb bank _ => bank == b
  | _ => false

/-- The registers of a bank: those in its page, and its `CBAR`. -/
theorem SmmuRegister.bank_eq_some {r : SmmuRegister} (hr : r.Sound) {b : BitVec 32} (hb : b.toNat < 256) :
    r.bank = some b ↔ r.inPageOf b = true ∨ r = .cbar b := by
  cases r with
  | gr0 offset => simp [SmmuRegister.bank, inPageOf]
  | gr1 offset =>
    have hlt : offset < 0x1000 := hr
    simp only [SmmuRegister.bank, inPageOf, Bool.false_eq_true, false_or, gr1.injEq, Nat.shiftLeft_eq]
    constructor
    · intro h
      split_ifs at h with hmod
      rw [← Option.some.inj h, BitVec.toNat_ofNat]
      omega
    · rintro rfl
      rw [if_pos (by omega)]
      congr 1
      apply BitVec.eq_of_toNat_eq
      rw [BitVec.toNat_ofNat]
      omega
  | cb bank offset => simp [SmmuRegister.bank, inPageOf]

/-- The `CBAR` values that are left alone: stage 2 translation, stage 1 with a stage 2 fault, and stage 1
with a stage 2 bypass when the VMID is 0xFF. -/
def CbarStays (cbar : BitVec 32) : Prop :=
  (cbar >>> 16) &&& 0x3 = 0 ∨ (cbar >>> 16) &&& 0x3 = 2 ∨
    ((cbar >>> 16) &&& 0x3 = 1 ∧ (cbar >>> 0) &&& 0xFF = 0xFF)

instance (cbar : BitVec 32) : Decidable (CbarStays cbar) := inferInstanceAs (Decidable (_ ∨ _))

/-- What freeing its bank makes of a register. -/
def SmmuRegister.freed (r : SmmuRegister) (old : BitVec 32) : BitVec 32 :=
  match r with
  | .gr0 _ => old
  | .gr1 _ => if CbarStays old then old else 0x100FF
  | .cb _ 0x0 => old &&& ~~~1
  | .cb _ 0x20 | .cb _ 0x24 | .cb _ 0x28 | .cb _ 0x2C | .cb _ 0x30 | .cb _ 0x58 => 0
  | .cb _ _ => old

theorem SmmuRegister.freed_cb (b : BitVec 32) (offset : Nat) (old : BitVec 32) :
    (SmmuRegister.cb b offset).freed old =
      if offset = 0x58 then 0 else if offset = 0x30 then 0 else if offset = 0x2C then 0 else
      if offset = 0x28 then 0 else if offset = 0x24 then 0 else if offset = 0x20 then 0 else
      if offset = 0x0 then old &&& ~~~1 else old := by
  unfold SmmuRegister.freed
  split <;> simp_all

namespace SmmuHardware

variable {hw : SmmuHardware} (hd : hw.device.Announced) {r : SmmuRegister} (hr : r.Sound)

include hd hr

/-- The wait ends at once, and changes no register in any case. -/
theorem read_waitDisabled (cbndx : BitVec 32) (timeout : Nat) (m : Mmio) :
    hw.read (hw.waitDisabled cbndx timeout m) r = hw.read m r := by
  induction timeout generalizing m with
  | zero => rfl
  | succ timeout ih =>
    rw [waitDisabled]
    split_ifs
    · rfl
    · exact (ih _).trans (read_delay hd hr m 10)

theorem read_disableContextBank {b : BitVec 32} (hb : b.toNat < 256) (m : Mmio) :
    hw.read (hw.disableContextBank m b) r =
      if r.inPageOf b then r.freed (hw.read m r) else hw.read m r := by
  have hs : ∀ offset < 0x1000, (SmmuRegister.cb b offset).Sound := fun offset h => ⟨hb, h⟩
  -- the state in front of the fault status
  obtain ⟨m₅, hm₅⟩ : ∃ m₅, m₅ = hw.write (hw.write (hw.write (hw.write (hw.write (hw.waitDisabled b 1000
    (hw.write m (.cb b 0x0) (hw.read m (.cb b 0x0) &&& ~~~1))) (.cb b 0x20) 0) (.cb b 0x24) 0) (.cb b 0x28) 0)
      (.cb b 0x2C) 0) (.cb b 0x30) 0 := ⟨_, rfl⟩
  have hread : ∀ {q : SmmuRegister}, q.Sound → hw.read m₅ q =
      if q = .cb b 0x30 then 0 else if q = .cb b 0x2C then 0 else if q = .cb b 0x28 then 0 else
      if q = .cb b 0x24 then 0 else if q = .cb b 0x20 then 0 else
      if q = .cb b 0x0 then hw.read m (.cb b 0x0) &&& ~~~1 else hw.read m q := by
    intro q hq
    rw [hm₅, read_write hd (hs 0x30 (by decide)) hq, read_write hd (hs 0x2C (by decide)) hq,
      read_write hd (hs 0x28 (by decide)) hq, read_write hd (hs 0x24 (by decide)) hq,
      read_write hd (hs 0x20 (by decide)) hq, read_waitDisabled hd hq, read_write hd (hs 0x0 (by decide)) hq]
    rfl
  have hfsr : hw.read m₅ (.cb b 0x58) = hw.read m (.cb b 0x58) := by
    rw [hread (hs 0x58 (by decide))]
    simp
  have hdisable : hw.disableContextBank m b =
      if hw.read m₅ (.cb b 0x58) ≠ 0 then hw.write m₅ (.cb b 0x58) (hw.read m₅ (.cb b 0x58)) else m₅ := by
    rw [hm₅]
    rfl
  have hend : hw.read (hw.disableContextBank m b) r = if r = .cb b 0x58 then 0 else hw.read m₅ r := by
    rw [hdisable]
    split_ifs with hne heq heq
    · rw [read_write hd (hs 0x58 (by decide)) hr, if_pos heq]
      exact BitVec.and_not_self _
    · rw [read_write hd (hs 0x58 (by decide)) hr, if_neg heq]
    · rw [heq]
      exact not_not.1 hne
    · rfl
  rw [hend, hread hr]
  cases r with
  | gr0 offset => simp [SmmuRegister.inPageOf]
  | gr1 offset => simp [SmmuRegister.inPageOf]
  | cb c offset =>
    by_cases hc : c = b
    · subst hc
      simp only [SmmuRegister.cb.injEq, true_and, SmmuRegister.inPageOf, beq_self_eq_true, ↓reduceIte,
        SmmuRegister.freed_cb]
      by_cases hzero : offset = 0x0
      · rw [hzero]
      · simp only [hzero, ↓reduceIte]
    · simp [hc, SmmuRegister.inPageOf]

/-- **What `free_context_bank` does to a register.** -/
theorem read_freeContextBank {b : BitVec 32} (hb : b.toNat < 256) (m : Mmio) :
    hw.read (hw.freeContextBank m b) r = if r.bank = some b then r.freed (hw.read m r) else hw.read m r := by
  have hcbar : (SmmuRegister.cbar b).Sound := by
    simp only [SmmuRegister.Sound, Nat.shiftLeft_eq]
    omega
  have hold : hw.read (hw.disableContextBank m b) (SmmuRegister.cbar b) = hw.read m (SmmuRegister.cbar b) := by
    rw [read_disableContextBank hd hcbar hb]
    simp [SmmuRegister.inPageOf]
  have hfree : hw.freeContextBank m b =
      if ¬ CbarStays (hw.read m (SmmuRegister.cbar b)) then
        hw.write (hw.disableContextBank m b) (SmmuRegister.cbar b) 0x100FF
      else hw.disableContextBank m b := by
    rw [← hold, freeContextBank]
    refine if_congr ?_ rfl rfl
    simp only [CbarStays, not_or, not_and_or]
    rfl
  rw [if_congr (SmmuRegister.bank_eq_some hr hb) rfl rfl, hfree]
  by_cases heq : r = SmmuRegister.cbar b
  · subst heq
    have hpos : SmmuRegister.inPageOf b (SmmuRegister.cbar b) = true ∨ SmmuRegister.cbar b = SmmuRegister.cbar b := .inr rfl
    rw [if_pos hpos]
    by_cases hstays : CbarStays (hw.read m (SmmuRegister.cbar b))
    · rw [if_neg (not_not.2 hstays), hold]
      simp [SmmuRegister.freed, hstays]
    · rw [if_pos hstays, read_write hd hcbar hcbar, if_pos rfl]
      simp [SmmuRegister.store, SmmuRegister.freed, hstays]
  · have hsame : hw.read (hw.write (hw.disableContextBank m b) (SmmuRegister.cbar b) 0x100FF) r =
        hw.read (hw.disableContextBank m b) r := by
      rw [read_write hd hcbar hr, if_neg heq]
    simp only [heq, or_false, ← read_disableContextBank hd hr hb]
    split_ifs
    · rfl
    · exact hsame

/-- The second loop frees each bank that is not in the list. -/
theorem read_freeBanks (contextBanks : List (BitVec 32)) {n : Nat} (hn : n ≤ 256) (m : Mmio) :
    hw.read (hw.freeBanks contextBanks n m) r =
      match r.bank with
      | none => hw.read m r
      | some b => if b.toNat < n ∧ b ∉ contextBanks then r.freed (hw.read m r) else hw.read m r := by
  induction n with
  | zero =>
    cases r.bank with
    | none => rfl
    | some b => simp [freeBanks]
  | succ n ih =>
    have hb : (BitVec.ofNat 32 n).toNat = n := by
      rw [BitVec.toNat_ofNat]
      omega
    have ih := ih (by omega)
    have hstep : hw.freeBanks contextBanks (n + 1) m =
        if contextBanks.contains (BitVec.ofNat 32 n) then hw.freeBanks contextBanks n m
        else hw.freeContextBank (hw.freeBanks contextBanks n m) (BitVec.ofNat 32 n) := by
      simp only [freeBanks, List.range_succ, List.foldl_concat]
    have hread : hw.read (hw.freeBanks contextBanks (n + 1) m) r =
        if r.bank = some (BitVec.ofNat 32 n) ∧ BitVec.ofNat 32 n ∉ contextBanks then
          r.freed (hw.read (hw.freeBanks contextBanks n m) r)
        else hw.read (hw.freeBanks contextBanks n m) r := by
      rw [hstep]
      by_cases hin : BitVec.ofNat 32 n ∈ contextBanks
      · simp [hin]
      · simp only [List.contains_eq_mem, hin, decide_false, Bool.false_eq_true, ↓reduceIte, not_false_eq_true, and_true]
        exact read_freeContextBank hd hr (by omega) _
    rw [hread, ih]
    cases hbank : r.bank with
    | none => simp
    | some b =>
      by_cases heq : b = BitVec.ofNat 32 n
      · subst heq
        simp [hb]
      · have hne : b.toNat ≠ n := fun h => heq (BitVec.eq_of_toNat_eq (h.trans hb.symm))
        have hlt : b.toNat < n + 1 ↔ b.toNat < n := by omega
        simp [heq, hlt]

end SmmuHardware

/-! ## The loop over the stream-mapping entries -/

namespace SmmuHardware

section Entries

variable (hw : SmmuHardware) (pcd : List (BitVec 8)) (m : Mmio)

/-- `NUMSMRG`, the number of entries. -/
def numsmrg : Nat := ((hw.read m .id0 >>> 0) &&& 0xFF).toNat

def entryValid (i : Nat) : Bool := (hw.read m (.smr i)).getLsbD 31

/-- The context bank an entry names. -/
def cbndx (i : Nat) : BitVec 32 := (hw.read m (.s2cr i) >>> 0) &&& 0xFF

/-- The entries the loop skips. -/
def skipped (i : Nat) : Bool := hw.entryValid m i && shouldSkipSid pcd (hw.read m (.smr i))

/-- The entries the loop takes down. -/
def takenDown (i : Nat) : Bool := hw.entryValid m i && !shouldSkipSid pcd (hw.read m (.smr i))

/-- The context banks of the skipped entries, in their order. -/
def skippedBanks (n : Nat) : List (BitVec 32) := ((List.range n).filter (hw.skipped pcd m)).map (hw.cbndx m)

end Entries

variable {hw : SmmuHardware} (hd : hw.device.Announced) (pcd : List (BitVec 8)) (m : Mmio)

theorem smr_sound {i : Nat} (hi : i < 256) : (SmmuRegister.smr i).Sound ∧ (SmmuRegister.s2cr i).Sound := by
  simp only [SmmuRegister.Sound, Nat.shiftLeft_eq]
  omega

theorem smr_apart {i j : Nat} (hi : i < 256) :
    (SmmuRegister.smr i = .smr j ↔ i = j) ∧ (SmmuRegister.s2cr i = .s2cr j ↔ i = j) ∧
      SmmuRegister.smr i ≠ .s2cr j := by
  simp only [SmmuRegister.gr0.injEq, Nat.shiftLeft_eq, ne_eq]
  omega

theorem skippedBanks_succ (n : Nat) :
    hw.skippedBanks pcd m (n + 1) =
      hw.skippedBanks pcd m n ++ if hw.skipped pcd m n then [hw.cbndx m n] else [] := by
  simp only [skippedBanks, List.range_succ, List.filter_append, List.map_append]
  congr 1
  by_cases h : hw.skipped pcd m n = true
  · simp [h]
  · simp [h]

/-- One entry, seen through the registers. -/
theorem detachEntry_eq (s : Mmio × List (BitVec 32)) (i : Nat) :
    hw.detachEntry pcd s i =
      if hw.skipped pcd s.1 i then (s.1, Tracked.track 16 s.2 (hw.cbndx s.1 i))
      else if hw.takenDown pcd s.1 i then
        (hw.write (hw.write s.1 (.s2cr i) (((2#32 &&& 0x3#32) <<< 16) ||| ((hw.cbndx s.1 i &&& 0xFF#32) <<< 0))) (.smr i)
          (hw.read s.1 (.smr i) &&& ~~~0x80000000#32), s.2)
      else s := by
  have hsmr : hw.armSmmuGr0Read s.1 (0x800 + (i <<< 2)) = hw.read s.1 (.smr i) := rfl
  have hs2cr : hw.armSmmuGr0Read s.1 (0xC00 + (i <<< 2)) = hw.read s.1 (.s2cr i) := rfl
  rw [detachEntry]
  simp only [hsmr, hs2cr, skipped, takenDown, entryValid]
  by_cases hvalid : (hw.read s.1 (.smr i)).getLsbD 31 = true
  · rw [if_pos ((valid_iff _).2 hvalid)]
    by_cases hskip : shouldSkipSid pcd (hw.read s.1 (.smr i)) = true
    · simp only [hvalid, hskip, Bool.and_self, ↓reduceIte]
      rfl
    · simp only [hvalid, hskip, Bool.and_false, Bool.false_eq_true, ↓reduceIte, Bool.true_and, Bool.not_false]
      rfl
  · rw [if_neg fun h => hvalid ((valid_iff _).1 h)]
    simp only [hvalid, Bool.false_and, Bool.false_eq_true, ↓reduceIte]

include hd

/-- **What the first loop leaves behind**, after `n` entries. -/
theorem detachLoop_spec {n : Nat} (hn : n ≤ 256) :
    let s := (List.range n).foldl (hw.detachEntry pcd) (m, [])
    s.2 = Tracked.trackAll 16 (hw.skippedBanks pcd m n) ∧
    (∀ i < n, hw.takenDown pcd m i = true →
      hw.read s.1 (.smr i) = hw.read m (.smr i) &&& ~~~0x80000000#32 ∧
      hw.read s.1 (.s2cr i) = ((2#32 &&& 0x3#32) <<< 16) ||| ((hw.cbndx m i &&& 0xFF#32) <<< 0)) ∧
    ∀ r : SmmuRegister, r.Sound → (∀ i < n, hw.takenDown pcd m i = true → r ≠ .smr i ∧ r ≠ .s2cr i) →
      hw.read s.1 r = hw.read m r := by
  induction n with
  | zero => exact ⟨rfl, fun i hi => absurd hi (by omega), fun r _ _ => rfl⟩
  | succ n ih =>
    obtain ⟨hbanks, hdown, hsame⟩ := ih (by omega)
    simp only [List.range_succ, List.foldl_concat]
    generalize (List.range n).foldl (hw.detachEntry pcd) (m, []) = s at hbanks hdown hsame
    -- the registers of entry `n` are still as they were
    have hsmr : hw.read s.1 (.smr n) = hw.read m (.smr n) :=
      hsame _ (smr_sound (by omega)).1 fun i hi _ =>
        ⟨fun h => by have := ((smr_apart (by omega)).1.1 h); omega, (smr_apart (by omega)).2.2⟩
    have hs2cr : hw.read s.1 (.s2cr n) = hw.read m (.s2cr n) :=
      hsame _ (smr_sound (by omega)).2 fun i hi _ =>
        ⟨fun h => (smr_apart (by omega)).2.2 h.symm, fun h => by have := ((smr_apart (by omega)).2.1.1 h); omega⟩
    have hskipped : hw.skipped pcd s.1 n = hw.skipped pcd m n := by simp only [skipped, entryValid, hsmr]
    have htaken : hw.takenDown pcd s.1 n = hw.takenDown pcd m n := by simp only [takenDown, entryValid, hsmr]
    have hcb : hw.cbndx s.1 n = hw.cbndx m n := by simp only [cbndx, hs2cr]
    obtain ⟨hsmrS, hs2crS⟩ := smr_sound (by omega : n < 256)
    have hne : ∀ i < n, SmmuRegister.smr i ≠ .smr n ∧ SmmuRegister.smr i ≠ .s2cr n ∧ SmmuRegister.s2cr i ≠ .smr n ∧
        SmmuRegister.s2cr i ≠ .s2cr n := by
      intro i hi
      simp only [ne_eq, SmmuRegister.gr0.injEq, Nat.shiftLeft_eq]
      omega
    rw [detachEntry_eq, hskipped, htaken, hcb, hsmr]
    by_cases hskip : hw.skipped pcd m n = true
    · have htake : hw.takenDown pcd m n = false := by
        simp only [skipped, Bool.and_eq_true] at hskip
        simp [takenDown, hskip.2]
      rw [if_pos hskip]
      refine ⟨?_, ?_, ?_⟩
      · rw [skippedBanks_succ, if_pos hskip, Tracked.trackAll_concat, ← hbanks]
      · intro i hi hdn
        refine hdown i (lt_of_le_of_ne (by omega) ?_) hdn
        rintro rfl
        simp [htake] at hdn
      · intro r hr hall
        exact hsame r hr fun i hi => hall i (by omega)
    · rw [if_neg hskip]
      have hbanks' : s.2 = Tracked.trackAll 16 (hw.skippedBanks pcd m (n + 1)) := by
        rw [skippedBanks_succ, if_neg hskip, List.append_nil, hbanks]
      by_cases htake : hw.takenDown pcd m n = true
      · rw [if_pos htake]
        have hread : ∀ {r : SmmuRegister}, r.Sound → hw.read (hw.write (hw.write s.1 (.s2cr n)
            (((2#32 &&& 0x3#32) <<< 16) ||| ((hw.cbndx m n &&& 0xFF#32) <<< 0))) (.smr n) (hw.read m (.smr n) &&& ~~~0x80000000#32)) r =
            if r = .smr n then hw.read m (.smr n) &&& ~~~0x80000000#32 else
            if r = .s2cr n then ((2#32 &&& 0x3#32) <<< 16) ||| ((hw.cbndx m n &&& 0xFF#32) <<< 0) else hw.read s.1 r := by
          intro r hr
          rw [read_write hd hsmrS hr, read_write hd hs2crS hr]
          rfl
        refine ⟨hbanks', ?_, ?_⟩
        · intro i hi hdn
          obtain ⟨h1, h2⟩ := smr_sound (by omega : i < 256)
          rw [hread h1, hread h2]
          by_cases heq : i = n
          · subst heq
            simp only [↓reduceIte, true_and]
            rw [if_neg (fun h => (smr_apart (by omega)).2.2 h.symm)]
          · obtain ⟨a1, a2, a3, a4⟩ := hne i (by omega)
            rw [if_neg a1, if_neg a2, if_neg a3, if_neg a4]
            exact hdown i (by omega) hdn
        · intro r hr hall
          obtain ⟨b1, b2⟩ := hall n (by omega) htake
          rw [hread hr, if_neg b1, if_neg b2]
          exact hsame r hr fun i hi => hall i (by omega)
      · rw [if_neg htake]
        refine ⟨hbanks', fun i hi hdn => hdown i (lt_of_le_of_ne (by omega) ?_) hdn, fun r hr hall =>
          hsame r hr fun i hi => hall i (by omega)⟩
        rintro rfl
        exact htake hdn

end SmmuHardware

end Andromeda
