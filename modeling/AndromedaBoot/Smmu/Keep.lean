import AndromedaBoot.Smmu.Detach

/-!
# What detaching the SMMU keeps and what it tears down

`Kept` is what the list of stream IDs means: a valid entry is kept when a stream ID of the list agrees
with its ID wherever its mask does not say otherwise. Stream IDs have 15 bits; the top bit of the mask
field is the valid bit of the entry, so the comparison of the source leaves out bit 15 for every entry
it looks at.

`mmuDetach_teardown` says what happens to all else. The kept entries themselves are not touched, but of
their context banks only 16 are remembered: `mmuDetach_keeps_iff` says exactly when the banks survive.
-/

namespace Andromeda

open SmmuRegister

/-- The stream IDs to keep. -/
def streamIds (pcd : List (BitVec 8)) : List (BitVec 16) :=
  if pcd.length % 2 = 0 then (List.range (pcd.length / 2)).map (smmuSidToKeep pcd) else []

/-- A stream ID is one of those an entry stands for: it has the bits of its ID outside its mask. -/
def Matches (smr : BitVec 32) (sid : BitVec 16) : Prop :=
  ∀ b < 15, smr.getLsbD (16 + b) = false → sid.getLsbD b = smr.getLsbD b

instance (smr : BitVec 32) (sid : BitVec 16) : Decidable (Matches smr sid) :=
  inferInstanceAs (Decidable (∀ b < 15, _))

theorem getLsbD_0xFFFF (b : Nat) : (0xFFFF#32).getLsbD b = decide (b < 16) := by
  by_cases hb : b < 32
  · interval_cases b <;> rfl
  · rw [BitVec.getLsbD_of_ge _ _ (by omega)]
    simp
    omega

/-- The comparison of the source, for a valid entry. -/
theorem masked_eq_iff {smr : BitVec 32} (hvalid : smr.getLsbD 31 = true) (sid : BitVec 16) :
    sid.setWidth 32 &&& ~~~((smr >>> 16) &&& 0xFFFF#32) = ((smr >>> 0) &&& 0xFFFF#32) &&& ~~~((smr >>> 16) &&& 0xFFFF#32) ↔
      Matches smr sid := by
  have hbit : ∀ b < 32, (sid.setWidth 32 &&& ~~~((smr >>> 16) &&& 0xFFFF#32)).getLsbD b =
        (sid.getLsbD b && !(smr.getLsbD (16 + b) && decide (b < 16))) ∧
      (((smr >>> 0) &&& 0xFFFF#32) &&& ~~~((smr >>> 16) &&& 0xFFFF#32)).getLsbD b =
        (smr.getLsbD b && decide (b < 16) && !(smr.getLsbD (16 + b) && decide (b < 16))) := by
    intro b hb
    simp only [BitVec.getLsbD_and, BitVec.getLsbD_not, BitVec.getLsbD_setWidth, BitVec.getLsbD_ushiftRight,
      getLsbD_0xFFFF, hb, decide_true, Bool.true_and, Nat.zero_add, and_self]
  constructor
  · intro h b hb hmask
    have heq := congrArg (BitVec.getLsbD · b) h
    simp only [(hbit b (by omega)).1, (hbit b (by omega)).2, hmask, Bool.false_and, Bool.not_false, Bool.and_true] at heq
    rw [heq]
    simp
    omega
  · intro h
    apply BitVec.eq_of_getLsbD_eq
    intro b hb
    rw [(hbit b hb).1, (hbit b hb).2]
    rcases Nat.lt_trichotomy b 15 with hlt | rfl | hgt
    · have hb16 : b < 16 := by omega
      cases hmask : smr.getLsbD (16 + b) with
      | true => simp [hb16]
      | false => rw [h b hlt hmask, decide_eq_true hb16, Bool.and_true (smr.getLsbD b)]
    · rw [show smr.getLsbD (16 + 15) = true from hvalid]
      simp
    · have hb16 : ¬ b < 16 := by omega
      simp [hb16, BitVec.getLsbD_of_ge sid b (by omega)]

/-- **The search finds a stream ID to keep** exactly when the list has one. -/
theorem shouldSkipSid_iff {pcd : List (BitVec 8)} {smr : BitVec 32} (hvalid : smr.getLsbD 31 = true) :
    shouldSkipSid pcd smr = true ↔ ∃ sid ∈ streamIds pcd, Matches smr sid := by
  simp only [shouldSkipSid, Bool.and_eq_true, beq_iff_eq, List.any_eq_true, List.mem_range, masked_eq_iff hvalid,
    streamIds]
  by_cases heven : pcd.length % 2 = 0
  · simp [heven]
  · simp [heven]

/-! ## The device -/

theorem smmuDevice_announced (base : BitVec 64) (id1 : BitVec 32) : (smmuDevice base id1).Announced := by
  have hfield : ((id1 &&& 0x70000000#32) >>> 28).toNat < 8 := by
    have hle : (id1 &&& 0x70000000#32).toNat ≤ 0x70000000 := by
      rw [BitVec.toNat_and]
      exact Nat.and_le_right
    rw [BitVec.toNat_ushiftRight, Nat.shiftRight_eq_div_pow]
    omega
  have hnumpage : (smmuDevice base id1).numpage.toNat = 2 ^ (((id1 &&& 0x70000000#32) >>> 28).toNat + 1) := by
    simp only [smmuDevice]
    generalize ((id1 &&& 0x70000000#32) >>> 28).toNat = k at hfield
    interval_cases k <;> rfl
  constructor
  · simp only [smmuDevice]
    split_ifs
    · exact .inr rfl
    · exact .inl rfl
  · rw [hnumpage]
    exact Nat.le_self_pow (by omega) 2
  · rw [hnumpage]
    exact Nat.pow_le_pow_right (by omega) (by omega : _ ≤ 8)
  · have hle : (id1 &&& 0xFF).toNat ≤ 0xFF := by
      rw [BitVec.toNat_and]
      exact Nat.and_le_right
    simp only [smmuDevice]
    omega

section Detach

variable (pcd : List (BitVec 8)) (base : BitVec 64) (gstatus : Nat → BitVec 32) (m : Mmio)

/-- A kept entry. -/
def Kept (hw : SmmuHardware) (i : Nat) : Prop :=
  i < hw.numsmrg m ∧ hw.entryValid m i = true ∧ ∃ sid ∈ streamIds pcd, Matches (hw.read m (.smr i)) sid

instance (hw : SmmuHardware) (i : Nat) : Decidable (Kept pcd m hw i) :=
  decidable_of_iff (i < hw.numsmrg m ∧ hw.entryValid m i = true ∧
    (streamIds pcd).any (fun sid => Matches (hw.read m (.smr i)) sid) = true) (by simp [Kept])

theorem kept_iff_skipped {hw : SmmuHardware} {i : Nat} :
    Kept pcd m hw i ↔ i < hw.numsmrg m ∧ hw.skipped pcd m i = true := by
  simp only [Kept, SmmuHardware.skipped, Bool.and_eq_true]
  constructor
  · rintro ⟨h1, h2, h3⟩
    exact ⟨h1, h2, (shouldSkipSid_iff h2).2 h3⟩
  · rintro ⟨h1, h2, h3⟩
    exact ⟨h1, h2, (shouldSkipSid_iff h2).1 h3⟩

/-- The context banks the kept entries name, in the order of the entries. -/
def keptBanks (hw : SmmuHardware) : List (BitVec 32) :=
  ((List.range (hw.numsmrg m)).filter fun i => Kept pcd m hw i).map (hw.cbndx m)

theorem keptBanks_eq (hw : SmmuHardware) : keptBanks pcd m hw = hw.skippedBanks pcd m (hw.numsmrg m) := by
  rw [keptBanks, SmmuHardware.skippedBanks]
  congr 1
  apply List.filter_congr
  intro i hi
  have hlt := List.mem_range.1 hi
  simp only [kept_iff_skipped, hlt, true_and, Bool.decide_eq_true]

theorem cbndx_lt (hw : SmmuHardware) (i : Nat) : (hw.cbndx m i).toNat < 256 := by
  have hle : ((hw.read m (.s2cr i) >>> 0) &&& 0xFF#32).toNat ≤ 0xFF := by
    rw [BitVec.toNat_and]
    exact Nat.and_le_right
  exact Nat.lt_succ_of_le hle

theorem numsmrg_le (hw : SmmuHardware) : hw.numsmrg m ≤ 255 := by
  rw [SmmuHardware.numsmrg, BitVec.toNat_and]
  exact Nat.and_le_right

/-- **What `MmuDetach` leaves in the registers**: the entries are as the first loop leaves them, and the
registers of a bank are freed unless the bank is one of the first 16 that kept entries name. -/
theorem read_mmuDetach :
    let hw := smmuAt base gstatus m
    let m' := mmuDetach pcd base gstatus m
    (∀ i < hw.numsmrg m, hw.takenDown pcd m i = true →
      hw.read m' (.smr i) = hw.read m (.smr i) &&& ~~~0x80000000#32 ∧
      hw.read m' (.s2cr i) = ((2#32 &&& 0x3#32) <<< 16) ||| ((hw.cbndx m i &&& 0xFF#32) <<< 0)) ∧
    (∀ i < hw.numsmrg m, hw.takenDown pcd m i = false →
      hw.read m' (.smr i) = hw.read m (.smr i) ∧ hw.read m' (.s2cr i) = hw.read m (.s2cr i)) ∧
    ∀ r : SmmuRegister, r.Sound → ∀ b, r.bank = some b →
      hw.read m' r = if b.toNat < hw.device.numContextBanks.toNat ∧ b ∉ Tracked.trackAll 16 (keptBanks pcd m hw) then
        r.freed (hw.read m r) else hw.read m r := by
  intro hw m'
  have hd : hw.device.Announced := smmuDevice_announced _ _
  have hn := numsmrg_le m hw
  obtain ⟨hbanks, hdown, hsame⟩ := SmmuHardware.detachLoop_spec hd pcd m (by omega : hw.numsmrg m ≤ 256)
  rw [← keptBanks_eq] at hbanks
  generalize hs : (List.range (hw.numsmrg m)).foldl (hw.detachEntry pcd) (m, []) = s at hbanks hdown hsame
  have hm' : m' = hw.freeBanks s.2 hw.device.numContextBanks.toNat (hw.smmuTlbInvalidateAll s.1) := by
    rw [← hs]
    rfl
  have hcb := hd.numContextBanks_lt
  have hplain : ∀ {r : SmmuRegister}, r.Sound → r.bank = none → hw.read m' r = hw.read s.1 r := by
    intro r hr hb
    rw [hm', SmmuHardware.read_freeBanks hd hr s.2 (by omega), hb]
    exact SmmuHardware.read_smmuTlbInvalidateAll hd hr s.1
  have hbank : ∀ {r : SmmuRegister} {b : BitVec 32}, r.Sound → r.bank = some b → hw.read m' r =
      if b.toNat < hw.device.numContextBanks.toNat ∧ b ∉ s.2 then r.freed (hw.read s.1 r) else hw.read s.1 r := by
    intro r b hr hb
    rw [hm', SmmuHardware.read_freeBanks hd hr s.2 (by omega), hb]
    simp only [SmmuHardware.read_smmuTlbInvalidateAll hd hr s.1]
  refine ⟨?_, ?_, ?_⟩
  · intro i hi htake
    obtain ⟨h1, h2⟩ := SmmuHardware.smr_sound (by omega : i < 256)
    rw [hplain h1 rfl, hplain h2 rfl]
    exact hdown i hi htake
  · intro i hi htake
    obtain ⟨h1, h2⟩ := SmmuHardware.smr_sound (by omega : i < 256)
    rw [hplain h1 rfl, hplain h2 rfl]
    -- the registers of an entry that stays are those of no entry that is taken down
    have hne : ∀ j < hw.numsmrg m, hw.takenDown pcd m j = true → i ≠ j := by
      rintro j - hj rfl
      simp [htake] at hj
    constructor
    · exact hsame _ h1 fun j hj hjt => ⟨fun h => hne j hj hjt ((SmmuHardware.smr_apart (by omega)).1.1 h),
        (SmmuHardware.smr_apart (by omega)).2.2⟩
    · exact hsame _ h2 fun j hj hjt => ⟨fun h => (SmmuHardware.smr_apart (by omega)).2.2 h.symm,
        fun h => hne j hj hjt ((SmmuHardware.smr_apart (by omega)).2.1.1 h)⟩
  · intro r hr b hb
    have hold : hw.read s.1 r = hw.read m r := by
      refine hsame r hr fun j hj _ => ⟨?_, ?_⟩
      · rintro rfl
        simp [SmmuRegister.bank] at hb
      · rintro rfl
        simp [SmmuRegister.bank] at hb
    rw [hbank hr hb, hold, hbanks]

/-! ## The kept streams -/

/-- The registers of a context bank. -/
def bankRegisters (b : BitVec 32) : List SmmuRegister :=
  [sctlr b, ttbr0 b, ttbr0Hi b, ttbr1 b, ttbr1Hi b, tcr b, fsr b, cbar b]

/-- A context bank that is off already: freeing it changes nothing. -/
structure AtRest (hw : SmmuHardware) (b : BitVec 32) : Prop where
  sctlr : (hw.read m (sctlr b)).getLsbD 0 = false
  ttbr0 : hw.read m (ttbr0 b) = 0 ∧ hw.read m (ttbr0Hi b) = 0
  ttbr1 : hw.read m (ttbr1 b) = 0 ∧ hw.read m (ttbr1Hi b) = 0
  tcr : hw.read m (tcr b) = 0
  fsr : hw.read m (fsr b) = 0
  cbar : CbarStays (hw.read m (cbar b))

theorem bankRegisters_sound {b : BitVec 32} (hb : b.toNat < 256) :
    ∀ r ∈ bankRegisters b, r.Sound ∧ r.bank = some b := by
  have hcbar : (cbar b).Sound := by
    simp only [SmmuRegister.Sound, Nat.shiftLeft_eq]
    omega
  simp only [bankRegisters, List.mem_cons, List.not_mem_nil, or_false, forall_eq_or_imp, forall_eq]
  refine ⟨?_, ?_, ?_, ?_, ?_, ?_, ?_, hcbar, (SmmuRegister.bank_eq_some hcbar hb).2 (.inr rfl)⟩
  all_goals exact ⟨⟨hb, by decide⟩, rfl⟩

theorem and_not_one_eq_iff (v : BitVec 32) : v &&& ~~~1 = v ↔ v.getLsbD 0 = false := by
  constructor
  · intro h
    rw [← h]
    simp
  · intro h
    ext i hi
    simp only [BitVec.getLsbD_eq_getElem, Nat.zero_lt_succ] at h
    interval_cases i <;> simp [h]

/-- Freeing a bank changes none of its registers exactly when it is off already. -/
theorem freed_eq_iff_atRest (hw : SmmuHardware) (b : BitVec 32) :
    (∀ r ∈ bankRegisters b, r.freed (hw.read m r) = hw.read m r) ↔ AtRest m hw b := by
  have hcbar : (if CbarStays (hw.read m (cbar b)) then hw.read m (cbar b) else 0x100FF) = hw.read m (cbar b) ↔
      CbarStays (hw.read m (cbar b)) := by
    split_ifs with h
    · simp [h]
    · simp only [h, iff_false]
      intro heq
      rw [← heq] at h
      exact h (by decide)
  simp only [bankRegisters, List.mem_cons, List.not_mem_nil, or_false, forall_eq_or_imp, forall_eq,
    SmmuRegister.freed, hcbar, and_not_one_eq_iff]
  constructor
  · rintro ⟨h1, h2, h3, h4, h5, h6, h7, h8⟩
    exact ⟨h1, ⟨h2.symm, h3.symm⟩, ⟨h4.symm, h5.symm⟩, h6.symm, h7.symm, h8⟩
  · rintro ⟨h1, ⟨h2, h3⟩, ⟨h4, h5⟩, h6, h7, h8⟩
    exact ⟨h1, h2.symm, h3.symm, h4.symm, h5.symm, h6.symm, h7.symm, h8⟩

/-- What the kept streams need: their entries and the registers of their context banks as they were. -/
def KeptStreamsIntact : Prop :=
  let hw := smmuAt base gstatus m
  let m' := mmuDetach pcd base gstatus m
  ∀ i, Kept pcd m hw i → hw.read m' (.smr i) = hw.read m (.smr i) ∧ hw.read m' (.s2cr i) = hw.read m (.s2cr i) ∧
    ∀ r ∈ bankRegisters (hw.cbndx m i), hw.read m' r = hw.read m r

/-- The banks that are remembered, or need not be. -/
def BanksRemembered : Prop :=
  let hw := smmuAt base gstatus m
  ∀ i, Kept pcd m hw i → (hw.cbndx m i).toNat < hw.device.numContextBanks.toNat →
    ((keptBanks pcd m hw).takeWhile (· ≠ hw.cbndx m i)).toFinset.card < 16 ∨ AtRest m hw (hw.cbndx m i)

theorem keptStreamsIntact_iff : KeptStreamsIntact pcd base gstatus m ↔ BanksRemembered pcd base gstatus m := by
  have hread := read_mmuDetach pcd base gstatus m
  simp only [KeptStreamsIntact, BanksRemembered]
  generalize smmuAt base gstatus m = hw at hread
  generalize mmuDetach pcd base gstatus m = m' at hread
  obtain ⟨-, hstay, hbank⟩ := hread
  refine forall_congr' fun i => forall_congr' fun hkept => ?_
  have hskip := (kept_iff_skipped pcd m).1 hkept
  have htake : hw.takenDown pcd m i = false := by
    have := hskip.2
    simp only [SmmuHardware.skipped, Bool.and_eq_true] at this
    simp [SmmuHardware.takenDown, this.2]
  have hmem : hw.cbndx m i ∈ keptBanks pcd m hw :=
    List.mem_map_of_mem (List.mem_filter.2 ⟨List.mem_range.2 hskip.1, by simpa using hkept⟩)
  obtain ⟨hsmr, hs2cr⟩ := hstay i hskip.1 htake
  have hregs := bankRegisters_sound (cbndx_lt m hw i)
  simp only [hsmr, hs2cr, true_and]
  rw [← freed_eq_iff_atRest]
  by_cases hfreed : (hw.cbndx m i).toNat < hw.device.numContextBanks.toNat ∧
      hw.cbndx m i ∉ Tracked.trackAll 16 (keptBanks pcd m hw)
  · have hcard : ¬ ((keptBanks pcd m hw).takeWhile (· ≠ hw.cbndx m i)).toFinset.card < 16 :=
      fun h => hfreed.2 (Tracked.mem_trackAll_iff.2 ⟨hmem, h⟩)
    simp only [hfreed.1, hcard, true_imp_iff, false_or]
    refine forall_congr' fun r => forall_congr' fun hr => ?_
    rw [hbank r (hregs r hr).1 _ (hregs r hr).2, if_pos hfreed]
  · have hkeeps : ∀ r ∈ bankRegisters (hw.cbndx m i), hw.read m' r = hw.read m r := by
      intro r hr
      rw [hbank r (hregs r hr).1 _ (hregs r hr).2, if_neg hfreed]
    refine ⟨fun _ hlt => .inl ?_, fun _ => hkeeps⟩
    exact (Tracked.mem_trackAll_iff.1 (by_contra fun h => hfreed ⟨hlt, h⟩)).2

/-- **Detaching the SMMU leaves the kept streams working exactly when their banks are remembered**: in
front of the first kept entry with a context bank below the number of banks, the kept entries name fewer
than 16 other banks, or the bank is off already. -/
theorem mmuDetach_keeps_iff :
    (let hw := smmuAt base gstatus m
      let m' := mmuDetach pcd base gstatus m
      ∀ i, Kept pcd m hw i → hw.read m' (.smr i) = hw.read m (.smr i) ∧ hw.read m' (.s2cr i) = hw.read m (.s2cr i) ∧
        ∀ r ∈ bankRegisters (hw.cbndx m i), hw.read m' r = hw.read m r) ↔
    let hw := smmuAt base gstatus m
    ∀ i, Kept pcd m hw i → (hw.cbndx m i).toNat < hw.device.numContextBanks.toNat →
      ((keptBanks pcd m hw).takeWhile (· ≠ hw.cbndx m i)).toFinset.card < 16 ∨ AtRest m hw (hw.cbndx m i) :=
  keptStreamsIntact_iff pcd base gstatus m

/-! ## Everything else -/

/-- **Detaching the SMMU tears down everything else.** A valid entry that is not kept becomes invalid,
with its ID and mask as they were, and faults with its old context bank; an invalid entry is left alone.
A context bank no kept entry names is off, its translation tables, control and fault status are cleared,
and its attributes are left alone or set to bypass with VMID 0xFF. -/
theorem mmuDetach_teardown :
    (let hw := smmuAt base gstatus m
     let m' := mmuDetach pcd base gstatus m
     (∀ i < hw.numsmrg m, hw.entryValid m i = true → ¬ Kept pcd m hw i →
       hw.entryValid m' i = false ∧
       (∀ b < 31, (hw.read m' (.smr i)).getLsbD b = (hw.read m (.smr i)).getLsbD b) ∧
       (hw.read m' (.s2cr i) >>> 16) &&& 0x3 = 2 ∧ hw.cbndx m' i = hw.cbndx m i) ∧
     (∀ i < hw.numsmrg m, hw.entryValid m i = false →
       hw.read m' (.smr i) = hw.read m (.smr i) ∧ hw.read m' (.s2cr i) = hw.read m (.s2cr i)) ∧
     ∀ b : BitVec 32, b.toNat < hw.device.numContextBanks.toNat → (∀ i, Kept pcd m hw i → hw.cbndx m i ≠ b) →
       hw.read m' (sctlr b) = hw.read m (sctlr b) &&& ~~~1 ∧
       (hw.read m' (ttbr0 b) = 0 ∧ hw.read m' (ttbr0Hi b) = 0) ∧
       (hw.read m' (ttbr1 b) = 0 ∧ hw.read m' (ttbr1Hi b) = 0) ∧
       hw.read m' (tcr b) = 0 ∧ hw.read m' (fsr b) = 0 ∧
       (CbarStays (hw.read m (cbar b)) → hw.read m' (cbar b) = hw.read m (cbar b)) ∧
       (¬ CbarStays (hw.read m (cbar b)) →
         (hw.read m' (cbar b) >>> 16) &&& 0x3 = 1 ∧ (hw.read m' (cbar b) >>> 0) &&& 0xFF = 0xFF)) := by
  have hread := read_mmuDetach pcd base gstatus m
  have hcbanks : (smmuAt base gstatus m).device.numContextBanks.toNat < 256 :=
    (smmuDevice_announced _ _).numContextBanks_lt
  simp only
  generalize smmuAt base gstatus m = hw at hread hcbanks ⊢
  generalize mmuDetach pcd base gstatus m = m' at hread ⊢
  obtain ⟨hdown, hstay, hbank⟩ := hread
  refine ⟨?_, ?_, ?_⟩
  · intro i hi hvalid hkept
    have htake : hw.takenDown pcd m i = true := by
      have hskip : ¬ hw.skipped pcd m i = true := fun h => hkept ((kept_iff_skipped pcd m).2 ⟨hi, h⟩)
      simp only [SmmuHardware.skipped, hvalid, Bool.true_and, Bool.not_eq_true] at hskip
      simp [SmmuHardware.takenDown, hvalid, hskip]
    obtain ⟨hsmr, hs2cr⟩ := hdown i hi htake
    obtain ⟨hbit, hbits⟩ := invalid_bits (hw.read m (.smr i))
    obtain ⟨htype, hindex⟩ := fault_fields (hw.cbndx m i)
    refine ⟨?_, ?_, ?_, ?_⟩
    · rw [SmmuHardware.entryValid, hsmr, hbit]
    · rw [hsmr]
      exact hbits
    · rw [hs2cr]
      exact htype
    · rw [SmmuHardware.cbndx, hs2cr]
      refine hindex.trans ?_
      simp only [SmmuHardware.cbndx]
      rw [BitVec.and_assoc, BitVec.and_self]
  · intro i hi hvalid
    exact hstay i hi (by simp [SmmuHardware.takenDown, hvalid])
  · intro b hb hnone
    have hfree : b ∉ Tracked.trackAll 16 (keptBanks pcd m hw) := by
      intro h
      obtain ⟨i, hi, heq⟩ := List.mem_map.1 (Tracked.mem_of_mem_trackAll h)
      exact hnone i (by simpa using (List.mem_filter.1 hi).2) heq
    have hregs := bankRegisters_sound (b := b) (by omega)
    have hall : ∀ r ∈ bankRegisters b, hw.read m' r = r.freed (hw.read m r) := by
      intro r hr
      rw [hbank r (hregs r hr).1 b (hregs r hr).2, if_pos ⟨hb, hfree⟩]
    simp only [bankRegisters, List.mem_cons, List.not_mem_nil, or_false, forall_eq_or_imp, forall_eq,
      SmmuRegister.freed] at hall
    obtain ⟨h1, h2, h3, h4, h5, h6, h7, h8⟩ := hall
    refine ⟨h1, ⟨h2, h3⟩, ⟨h4, h5⟩, h6, h7, fun hs => ?_, fun hs => ?_⟩
    · rw [h8, if_pos hs]
    · rw [h8, if_neg hs]
      decide

end Detach

/-- Seventeen streams, each with a context bank of its own that is in use. -/
def seventeenStreams : Mmio where
  value a :=
    if a = 0x20 then 17 else if a = 0x24 then 17
    else if a < 0xC00 then 0x80000000 + ((a - 0x800) >>> 2).setWidth 32
    else if a < 0x1000 then ((a - 0xC00) >>> 2).setWidth 32
    else 1
  elapsed := 0

/-- The stream IDs 0 to 16. -/
def seventeenSids : List (BitVec 8) := (List.range 17).flatMap fun i => [BitVec.ofNat 8 i, 0]

/-- With all seventeen streams to be kept, the bank of the last one is freed. -/
theorem mmuDetach_frees_seventeenth_bank :
    ¬ KeptStreamsIntact seventeenSids 0 (fun _ => 0) seventeenStreams := by
  rw [keptStreamsIntact_iff]
  intro h
  have hbanks := h 16 (by decide +kernel) (by decide +kernel)
  rcases hbanks with hcard | hrest
  · exact absurd hcard (by decide +kernel)
  · exact absurd hrest.sctlr (by decide +kernel)

end Andromeda
