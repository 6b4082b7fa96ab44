import Mathlib.Data.BitVec
import Mathlib.Tactic.Common

/-!
# The SMMU and its registers (QcomMmuDetachHelperLib.c:20-105, QcomMmuDetachHelperLibInternal.h)

The registers lie in pages of 4 or 64 KiB: two global pages, and from page `numpage` on one page for
each context bank. `SmmuRegister` names a register by its page and offset, `address` is the address the
accessors compute.

| here | there |
| --- | --- |
| `ArmSmmuV2Device` | `ARM_SMMU_V2_DEVICE` (Internal.h:71) |
| `armSmmuGr0Read`, … | :24-82 |
| `smmuTlbInvalidateAll` | :88 |

Of the hardware it is assumed that a register holds the last value written to it, except the fault
status of a context bank, where a one written clears the bit, and the TLB registers: an invalidation
leaves no value behind, and the sync status is whatever the hardware says at the time (`gstatus`).
`read_write` is all that is used of this.
-/

namespace Andromeda

/-- `ARM_SMMU_V2_DEVICE`. -/
structure ArmSmmuV2Device where
  smmuBaseAddress : BitVec 64
  pgshift : Nat
  numContextBanks : BitVec 32
  numpage : BitVec 32
deriving DecidableEq, Repr

/-- A register: in the global pages by its offset, in the page of a context bank. -/
inductive SmmuRegister
  | gr0 (offset : Nat)
  | gr1 (offset : Nat)
  | cb (bank : BitVec 32) (offset : Nat)
deriving DecidableEq, Repr

namespace SmmuRegister

/-- The address of a register; the page of a bank is computed in 32 bits. -/
def address (d : ArmSmmuV2Device) : SmmuRegister → BitVec 64
  | .gr0 offset => d.smmuBaseAddress + BitVec.ofNat 64 (0 <<< d.pgshift) + BitVec.ofNat 64 offset
  | .gr1 offset => d.smmuBaseAddress + BitVec.ofNat 64 (1 <<< d.pgshift) + BitVec.ofNat 64 offset
  | .cb bank offset =>
    d.smmuBaseAddress + ((d.numpage + bank) <<< d.pgshift).setWidth 64 + BitVec.ofNat 64 offset

abbrev id0 : SmmuRegister := .gr0 0x20
abbrev id1 : SmmuRegister := .gr0 0x24
abbrev tlbiallnsnh : SmmuRegister := .gr0 0x70
abbrev sTlbgstatus : SmmuRegister := .gr0 0x74

/-- `ARM_SMMU_GR0_SMR (n)`. -/
abbrev smr (n : Nat) : SmmuRegister := .gr0 (0x800 + (n <<< 2))

/-- `ARM_SMMU_GR0_S2CR (n)`. -/
abbrev s2cr (n : Nat) : SmmuRegister := .gr0 (0xC00 + (n <<< 2))

/-- `ARM_SMMU_GR1_CBAR (n)`. -/
abbrev cbar (bank : BitVec 32) : SmmuRegister := .gr1 (0x0 + (bank.toNat <<< 2))

abbrev sctlr (bank : BitVec 32) : SmmuRegister := .cb bank 0x0
abbrev ttbr0 (bank : BitVec 32) : SmmuRegister := .cb bank 0x20
abbrev ttbr0Hi (bank : BitVec 32) : SmmuRegister := .cb bank (0x20 + 4)
abbrev ttbr1 (bank : BitVec 32) : SmmuRegister := .cb bank 0x28
abbrev ttbr1Hi (bank : BitVec 32) : SmmuRegister := .cb bank (0x28 + 4)
abbrev tcr (bank : BitVec 32) : SmmuRegister := .cb bank 0x30
abbrev fsr (bank : BitVec 32) : SmmuRegister := .cb bank 0x58

end SmmuRegister

/-- What the register space holds, and the microseconds spent waiting. -/
structure Mmio where
  value : BitVec 64 → BitVec 32
  elapsed : Nat

/-- The SMMU of the machine: where it is and how its pages lie, and the answers of `sTLBGSTATUS` over
time. -/
structure SmmuHardware where
  device : ArmSmmuV2Device
  gstatus : Nat → BitVec 32

namespace SmmuHardware

variable (hw : SmmuHardware)

/-- The fault status register of a context bank (a bank index has 8 bits). -/
def isFsr (address : BitVec 64) : Bool :=
  (List.range 256).any fun bank => address == (SmmuRegister.fsr (BitVec.ofNat 32 bank)).address hw.device

/-- The registers of the TLB. -/
def isTlb (address : BitVec 64) : Bool :=
  address == SmmuRegister.tlbiallnsnh.address hw.device || address == SmmuRegister.sTlbgstatus.address hw.device

/-- `MmioRead32`. -/
def mmioRead32 (m : Mmio) (address : BitVec 64) : BitVec 32 :=
  if address == SmmuRegister.sTlbgstatus.address hw.device then hw.gstatus m.elapsed else m.value address

/-- `MmioWrite32`. -/
def mmioWrite32 (m : Mmio) (address : BitVec 64) (value : BitVec 32) : Mmio :=
  if hw.isTlb address then m
  else { m with value := fun a =>
    if a = address then (if hw.isFsr address then m.value address &&& ~~~value else value) else m.value a }

/-- `MicroSecondDelay`. -/
def microSecondDelay (m : Mmio) (microseconds : Nat) : Mmio := { m with elapsed := m.elapsed + microseconds }

/-! ## Register access (:24-82) -/

def armSmmuGr0Read (m : Mmio) (offset : Nat) : BitVec 32 :=
  hw.mmioRead32 m ((SmmuRegister.gr0 offset).address hw.device)

def armSmmuGr0Write (m : Mmio) (offset : Nat) (value : BitVec 32) : Mmio :=
  hw.mmioWrite32 m ((SmmuRegister.gr0 offset).address hw.device) value

def armSmmuGr1Read (m : Mmio) (offset : Nat) : BitVec 32 :=
  hw.mmioRead32 m ((SmmuRegister.gr1 offset).address hw.device)

def armSmmuGr1Write (m : Mmio) (offset : Nat) (value : BitVec 32) : Mmio :=
  hw.mmioWrite32 m ((SmmuRegister.gr1 offset).address hw.device) value

def armSmmuCbRead (m : Mmio) (bank : BitVec 32) (offset : Nat) : BitVec 32 :=
  hw.mmioRead32 m ((SmmuRegister.cb bank offset).address hw.device)

def armSmmuCbWrite (m : Mmio) (bank : BitVec 32) (offset : Nat) (value : BitVec 32) : Mmio :=
  hw.mmioWrite32 m ((SmmuRegister.cb bank offset).address hw.device) value

def armSmmuCbWriteq (m : Mmio) (bank : BitVec 32) (offset : Nat) (value : BitVec 64) : Mmio :=
  hw.armSmmuCbWrite (hw.armSmmuCbWrite m bank offset (value.setWidth 32)) bank (offset + 4)
    ((value >>> 32).setWidth 32)

/-- The `do … while (--timeout)` of the TLB sync (:98-104); the argument is `timeout - 1`. -/
def tlbSyncLoop : Nat → Mmio → Mmio
  | timeout, m =>
    if hw.armSmmuGr0Read m 0x74 &&& 1 = 0 then m
    else
      match timeout with
      | 0 => microSecondDelay m 1
      | timeout + 1 => tlbSyncLoop timeout (microSecondDelay m 1)

/-- `smmu_tlb_invalidate_all` (:88). -/
def smmuTlbInvalidateAll (m : Mmio) : Mmio :=
  hw.tlbSyncLoop (1000000 - 1) (hw.armSmmuGr0Write m 0x70 0)

end SmmuHardware

/-! ## The registers are apart -/

/-- The layouts the ID registers can announce. -/
structure ArmSmmuV2Device.Announced (d : ArmSmmuV2Device) : Prop where
  pgshift : d.pgshift = 12 ∨ d.pgshift = 16
  numpage_ge : 2 ≤ d.numpage.toNat
  numpage_le : d.numpage.toNat ≤ 256
  numContextBanks_lt : d.numContextBanks.toNat < 256

namespace SmmuRegister

/-- A register inside its page, of a bank with an 8-bit index, and not of the TLB. -/
def Sound : SmmuRegister → Prop
  | .gr0 offset => offset < 0x1000 ∧ offset ≠ 0x70 ∧ offset ≠ 0x74
  | .gr1 offset => offset < 0x1000
  | .cb bank offset => bank.toNat < 256 ∧ offset < 0x1000

/-- The page of a register. -/
def page (d : ArmSmmuV2Device) : SmmuRegister → Nat
  | .gr0 _ => 0
  | .gr1 _ => 1
  | .cb bank _ => d.numpage.toNat + bank.toNat

def offset : SmmuRegister → Nat
  | .gr0 offset | .gr1 offset | .cb _ offset => offset

/-- Registers whose offsets lie in a page, the TLB's included. -/
def InPage : SmmuRegister → Prop
  | .gr0 offset | .gr1 offset => offset < 0x1000
  | .cb bank offset => bank.toNat < 256 ∧ offset < 0x1000

theorem Sound.inPage {r : SmmuRegister} (h : r.Sound) : r.InPage := by
  cases r with
  | gr0 _ => exact h.1
  | gr1 _ => exact h
  | cb _ _ => exact h

variable {d : ArmSmmuV2Device}

theorem address_eq (hd : d.Announced) {r : SmmuRegister} (hr : r.InPage) :
    r.address d = d.smmuBaseAddress + BitVec.ofNat 64 (r.page d * 2 ^ d.pgshift + r.offset) := by
  have hle := hd.numpage_le
  cases r with
  | gr0 offset => simp [address, page, SmmuRegister.offset]
  | gr1 offset => simp [address, page, SmmuRegister.offset, BitVec.ofNat_add, BitVec.add_assoc, Nat.shiftLeft_eq]
  | cb bank offset =>
    have hbank := hr.1
    have hshift : ((d.numpage + bank) <<< d.pgshift).setWidth 64 =
        BitVec.ofNat 64 ((d.numpage.toNat + bank.toNat) * 2 ^ d.pgshift) := by
      apply BitVec.eq_of_toNat_eq
      rw [BitVec.toNat_setWidth, BitVec.toNat_shiftLeft, BitVec.toNat_add, Nat.shiftLeft_eq, BitVec.toNat_ofNat,
        Nat.mod_eq_of_lt (by omega : d.numpage.toNat + bank.toNat < 2 ^ 32)]
      rcases hd.pgshift with h | h
      · rw [h]
        omega
      · rw [h]
        omega
    rw [address, hshift, BitVec.add_assoc, ← BitVec.ofNat_add]
    rfl

theorem page_lt (hd : d.Announced) {r : SmmuRegister} (hr : r.InPage) :
    r.page d < 512 ∧ r.offset < 0x1000 := by
  have hle := hd.numpage_le
  cases r with
  | gr0 offset => exact ⟨by simp [page], hr⟩
  | gr1 offset => exact ⟨by simp [page], hr⟩
  | cb bank offset =>
    refine ⟨?_, hr.2⟩
    have := hr.1
    simp only [page]
    omega

/-- Different registers have different addresses. -/
theorem address_inj (hd : d.Announced) {r r' : SmmuRegister} (hr : r.InPage) (hr' : r'.InPage) :
    r.address d = r'.address d ↔ r = r' := by
  refine ⟨?_, fun h => h ▸ rfl⟩
  intro h
  rw [address_eq hd hr, address_eq hd hr', BitVec.add_right_inj] at h
  have hnat := congrArg BitVec.toNat h
  rw [BitVec.toNat_ofNat, BitVec.toNat_ofNat] at hnat
  obtain ⟨hp, ho⟩ := page_lt hd hr
  obtain ⟨hp', ho'⟩ := page_lt hd hr'
  have hpages : r.page d = r'.page d ∧ r.offset = r'.offset := by
    rcases hd.pgshift with h | h
    · rw [h] at hnat
      omega
    · rw [h] at hnat
      omega
  have hge := hd.numpage_ge
  cases r <;> cases r' <;> simp only [page, SmmuRegister.offset] at hpages
  case gr0.gr0 => rw [hpages.2]
  case gr1.gr1 => rw [hpages.2]
  case cb.cb b o b' o' =>
    obtain rfl : b = b' := BitVec.eq_of_toNat_eq (by omega)
    rw [hpages.2]
  all_goals omega

end SmmuRegister

/-! ## Reading back -/

/-- What a register makes of a value written to it. -/
def SmmuRegister.store (r : SmmuRegister) (old value : BitVec 32) : BitVec 32 :=
  match r with
  | .cb _ 0x58 => old &&& ~~~value
  | _ => value

namespace SmmuHardware

variable (hw : SmmuHardware)

/-- The contents of a register. -/
def read (m : Mmio) (r : SmmuRegister) : BitVec 32 := hw.mmioRead32 m (r.address hw.device)

/-- A write to a register. -/
def write (m : Mmio) (r : SmmuRegister) (value : BitVec 32) : Mmio :=
  hw.mmioWrite32 m (r.address hw.device) value

variable {hw} (hd : hw.device.Announced) {r r' : SmmuRegister}

include hd

theorem isTlb_address (hr : r.Sound) : hw.isTlb (r.address hw.device) = false := by
  simp only [isTlb, Bool.or_eq_false_iff, beq_eq_false_iff_ne, ne_eq]
  rw [SmmuRegister.address_inj hd hr.inPage (by simp [SmmuRegister.InPage]),
    SmmuRegister.address_inj hd hr.inPage (by simp [SmmuRegister.InPage])]
  constructor
  · rintro rfl
    exact hr.2.1 rfl
  · rintro rfl
    exact hr.2.2 rfl

theorem read_eq_value (hr : r.Sound) (m : Mmio) : hw.read m r = m.value (r.address hw.device) := by
  have h := isTlb_address hd hr
  simp only [isTlb, Bool.or_eq_false_iff] at h
  simp only [read, mmioRead32, h.2, Bool.false_eq_true, ↓reduceIte]

/-- Waiting changes no register. -/
theorem read_delay (hr : r.Sound) (m : Mmio) (t : Nat) : hw.read (microSecondDelay m t) r = hw.read m r := by
  rw [read_eq_value hd hr, read_eq_value hd hr]
  rfl

theorem isFsr_address (hr : r.Sound) : hw.isFsr (r.address hw.device) = true ↔ ∃ bank, r = .cb bank 0x58 := by
  simp only [isFsr, List.any_eq_true, List.mem_range, beq_iff_eq]
  constructor
  · rintro ⟨bank, hbank, heq⟩
    have hsound : (SmmuRegister.fsr (BitVec.ofNat 32 bank)).InPage := by
      refine ⟨?_, by decide⟩
      rw [BitVec.toNat_ofNat]
      omega
    exact ⟨_, (SmmuRegister.address_inj hd hr.inPage hsound).1 heq⟩
  · rintro ⟨bank, rfl⟩
    exact ⟨bank.toNat, hr.1, by simp⟩

/-- **What the hardware does with a write.** -/
theorem read_write (hr : r.Sound) (hr' : r'.Sound) (m : Mmio) (value : BitVec 32) :
    hw.read (hw.write m r value) r' = if r' = r then r.store (hw.read m r) value else hw.read m r' := by
  rw [read_eq_value hd hr', read_eq_value hd hr, read_eq_value hd hr', write, mmioWrite32, isTlb_address hd hr]
  simp only [Bool.false_eq_true, ↓reduceIte, SmmuRegister.address_inj hd hr'.inPage hr.inPage]
  by_cases heq : r' = r
  · simp only [heq, ↓reduceIte]
    by_cases hfsr : hw.isFsr (r.address hw.device) = true
    · obtain ⟨bank, rfl⟩ := (isFsr_address hd hr).1 hfsr
      rw [if_pos hfsr]
      rfl
    · rw [if_neg hfsr]
      have hne : ∀ bank, r ≠ .cb bank 0x58 := fun bank h => hfsr ((isFsr_address hd hr).2 ⟨bank, h⟩)
      unfold SmmuRegister.store
      split
      · exact absurd rfl (hne _)
      · rfl
  · simp only [heq, ↓reduceIte]

/-- The TLB is not seen in the registers. -/
theorem read_smmuTlbInvalidateAll (hr : r.Sound) (m : Mmio) : hw.read (hw.smmuTlbInvalidateAll m) r = hw.read m r := by
  have hloop : ∀ timeout m, hw.read (hw.tlbSyncLoop timeout m) r = hw.read m r := by
    intro timeout
    induction timeout with
    | zero =>
      intro m
      rw [tlbSyncLoop]
      split_ifs
      · rfl
      · exact read_delay hd hr m 1
    | succ timeout ih =>
      intro m
      rw [tlbSyncLoop]
      split_ifs
      · rfl
      · exact (ih _).trans (read_delay hd hr m 1)
  have hwrite : hw.armSmmuGr0Write m 0x70 0 = m := by
    have htlb : hw.isTlb (SmmuRegister.tlbiallnsnh.address hw.device) = true := by simp [isTlb]
    rw [armSmmuGr0Write, mmioWrite32, if_pos htlb]
  rw [smmuTlbInvalidateAll, hwrite, hloop]

end SmmuHardware

end Andromeda
