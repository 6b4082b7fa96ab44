import AndromedaBoot.Efi
import AndromedaBoot.Lib.ByteMemory

/-!
# The early storage of error records (MsWheaEarlyStorageLib.c)

The storage is a part of the log buffer, from byte `0x40` on. Sizes and offsets are numbers of 8 bits; the capacity has 32.

| here | there |
| --- | --- |
| `msWheaCMOSRawRead`, `msWheaCMOSRawWrite`, `msWheaCMOSRawClear` | :40, :91, :133 |
| `msWheaEarlyStorageGetMaxSize` | :173 |
| `msWheaEarlyStorageRead`, `msWheaEarlyStorageWrite`, `msWheaEarlyStorageClear` | :205, :240, :274 |

The address of the log buffer is a static that is zero at first; only the read path asks `GetPlatformLogBuffer` for it.
A function gives, beside its status, the addresses it reads or writes, in order. The `ASSERT` in
`MsWheaEarlyStorageGetMaxSize` is not modelled.
-/

namespace Andromeda

/-- The PCDs, and the address in the descriptor `GetPlatformLogBuffer` hands over. -/
structure WheaPlatform where
  capacity : BitVec 32
  defaultValue : BitVec 8
  logBuffer : BitVec 64

/-- `LogBuffer.Address` and the memory. -/
structure WheaState where
  address : BitVec 64
  mem : ByteMemory

/-- A fresh module. -/
def WheaState.fresh (mem : ByteMemory) : WheaState := ⟨0, mem⟩

/-- What a call leaves behind: its status, what it touched, the state and what it read. -/
structure WheaOutcome where
  status : EfiStatus
  touched : List (BitVec 64)
  state : WheaState
  data : List (BitVec 8)

section Code

variable (platform : WheaPlatform)

/-- `MS_WHEA_EARLY_STORAGE_OFFSET`. -/
def earlyStorageOffset : BitVec 8 := 0x40#8

/-- `(UINT8)(PcdGet32 (PcdMsWheaReportEarlyStorageCapacity) - Size) < Offset`. -/
def overLength (size offset : BitVec 8) : Prop := (platform.capacity - size.setWidth 32).setWidth 8 < offset

instance (size offset : BitVec 8) : Decidable (overLength platform size offset) := inferInstanceAs (Decidable (_ < _))

/-- The addresses `LogBuffer.Address + mIndex` of a loop; `mIndex` has 8 bits. -/
def storageBytes (address : BitVec 64) (size offset : BitVec 8) : List (BitVec 64) :=
  (List.range size.toNat).map fun i => address + (offset + BitVec.ofNat 8 i).setWidth 64

/-- The loop that writes. -/
def writeStorage (mem : ByteMemory) (addresses : List (BitVec 64)) (byte : Nat → BitVec 8) : ByteMemory :=
  addresses.zipIdx.foldl (fun mem (a, i) => mem.writeBytes a [byte i]) mem

/-- `Status = EFI_INVALID_PARAMETER; goto Cleanup;` -/
def WheaState.invalid (s : WheaState) : WheaOutcome := ⟨.invalidParameter, [], s, []⟩

/-- `__MsWheaCMOSRawRead` (:40); `ptr` is false for `NULL`. -/
def msWheaCMOSRawRead (ptr : Bool) (size offset : BitVec 8) (s : WheaState) : WheaOutcome :=
  if ptr = false ∨ size = 0 ∨ overLength platform size offset then s.invalid
  else
    let s : WheaState := { s with address := if s.address = 0 then platform.logBuffer else s.address }
    if s.address = 0 then s.invalid
    else ⟨.success, storageBytes s.address size offset, s, (storageBytes s.address size offset).map s.mem⟩

/-- `__MsWheaCMOSRawWrite` (:91); `ptr` gives the bytes of the caller. -/
def msWheaCMOSRawWrite (ptr : Option (Nat → BitVec 8)) (size offset : BitVec 8) (s : WheaState) : WheaOutcome :=
  match ptr with
  | none => s.invalid
  | some buf =>
    if size = 0 ∨ overLength platform size offset then s.invalid
    else
      ⟨.success, storageBytes s.address size offset,
        { s with mem := writeStorage s.mem (storageBytes s.address size offset) buf }, []⟩

/-- `__MsWheaCMOSRawClear` (:133). -/
def msWheaCMOSRawClear (size offset : BitVec 8) (s : WheaState) : WheaOutcome :=
  if size = 0 ∨ overLength platform size offset then s.invalid
  else
    ⟨.success, storageBytes s.address size offset,
      { s with mem := writeStorage s.mem (storageBytes s.address size offset) fun _ => platform.defaultValue }, []⟩

/-- `MsWheaEarlyStorageGetMaxSize` (:173). -/
def msWheaEarlyStorageGetMaxSize : BitVec 8 :=
  if platform.capacity < earlyStorageOffset.setWidth 32 then 0
  else (platform.capacity - earlyStorageOffset.setWidth 32).setWidth 8

/-- `MsWheaEarlyStorageRead` (:205). -/
def msWheaEarlyStorageRead (ptr : Bool) (size offset : BitVec 8) (s : WheaState) : WheaOutcome :=
  if offset ≥ msWheaEarlyStorageGetMaxSize platform then s.invalid
  else msWheaCMOSRawRead platform ptr size (earlyStorageOffset + offset) s

/-- `MsWheaEarlyStorageWrite` (:240). -/
def msWheaEarlyStorageWrite (ptr : Option (Nat → BitVec 8)) (size offset : BitVec 8) (s : WheaState) : WheaOutcome :=
  if offset ≥ msWheaEarlyStorageGetMaxSize platform then s.invalid
  else msWheaCMOSRawWrite platform ptr size (earlyStorageOffset + offset) s

/-- `MsWheaEarlyStorageClear` (:274). -/
def msWheaEarlyStorageClear (size offset : BitVec 8) (s : WheaState) : WheaOutcome :=
  if offset ≥ msWheaEarlyStorageGetMaxSize platform then s.invalid
  else msWheaCMOSRawClear platform size (earlyStorageOffset + offset) s

end Code

/-! ## Runs -/

/-- A call of the library. -/
inductive WheaCall
  | read (ptr : Bool) (size offset : BitVec 8)
  | write (ptr : Option (Nat → BitVec 8)) (size offset : BitVec 8)
  | clear (size offset : BitVec 8)

namespace WheaCall

def size : WheaCall → BitVec 8
  | read _ size _ | write _ size _ | clear size _ => size

def offset : WheaCall → BitVec 8
  | read _ _ offset | write _ _ offset | clear _ offset => offset

def perform (platform : WheaPlatform) (s : WheaState) : WheaCall → WheaOutcome
  | read ptr size offset => msWheaEarlyStorageRead platform ptr size offset s
  | write ptr size offset => msWheaEarlyStorageWrite platform ptr size offset s
  | clear size offset => msWheaEarlyStorageClear platform size offset s

/-- A call that does what it says: a success touches exactly the bytes it was asked for, all below the capacity,
anything else touches nothing, and the memory is the same but for what it touched. -/
structure Proper (platform : WheaPlatform) (s : WheaState) (call : WheaCall) (r : WheaOutcome) : Prop where
  exact_bytes : r.status = .success → ∀ a, a ∈ r.touched ↔
    ∃ i < call.size.toNat, a = platform.logBuffer + BitVec.ofNat 64 (call.offset.toNat + 0x40 + i)
  below_capacity : r.status = .success → ∀ i < call.size.toNat, call.offset.toNat + 0x40 + i < platform.capacity.toNat
  failure : r.status ≠ .success → r.touched = []
  frame : ∀ a ∉ r.touched, r.state.mem a = s.mem a

/-- All calls of a run do. -/
def AllProper (platform : WheaPlatform) : List WheaCall → WheaState → Prop
  | [], _ => True
  | call :: calls, s => call.Proper platform s (call.perform platform s) ∧
      AllProper platform calls (call.perform platform s).state

/-- The checks of the library refuse the call. -/
def Refused (platform : WheaPlatform) (call : WheaCall) : Prop :=
  call.offset ≥ msWheaEarlyStorageGetMaxSize platform ∨ call.size = 0 ∨
    overLength platform call.size (earlyStorageOffset + call.offset) ∨
    match call with
    | read ptr _ _ => ptr = false
    | write ptr _ _ => ptr = none
    | clear _ _ => False

/-- The call is a read, or the address is known from an earlier one. -/
def Addressed (s : WheaState) : WheaCall → Prop
  | read _ _ _ => True
  | write _ _ _ | clear _ _ => s.address ≠ 0

/-- When a call does what it says: the checks refuse it, or it has the address, its end is in the 256 bytes an index
reaches, and below the capacity. -/
def Meets (platform : WheaPlatform) (s : WheaState) (call : WheaCall) : Prop :=
  call.Refused platform ∨ call.Addressed s ∧ call.offset.toNat + 0x40 + call.size.toNat ≤ 256 ∧
    call.offset.toNat + 0x40 + call.size.toNat ≤ platform.capacity.toNat

/-- All calls of a run do. -/
def AllMeet (platform : WheaPlatform) : List WheaCall → WheaState → Prop
  | [], _ => True
  | call :: calls, s => call.Meets platform s ∧ AllMeet platform calls (call.perform platform s).state

/-! ## One call -/

variable {platform : WheaPlatform} {s : WheaState} {call : WheaCall}

/-- The address a call uses. -/
def base (platform : WheaPlatform) (s : WheaState) : WheaCall → BitVec 64
  | read _ _ _ => if s.address = 0 then platform.logBuffer else s.address
  | write _ _ _ | clear _ _ => s.address

theorem perform_of_refused (h : call.Refused platform) : call.perform platform s = s.invalid := by
  cases call with
  | read ptr size offset =>
    change offset ≥ _ ∨ size = 0 ∨ overLength platform size (earlyStorageOffset + offset) ∨ ptr = false at h
    rw [perform, msWheaEarlyStorageRead, msWheaCMOSRawRead]
    by_cases hoffset : offset ≥ msWheaEarlyStorageGetMaxSize platform
    · rw [if_pos hoffset]
    · rw [if_neg hoffset, if_pos (by tauto)]
  | write ptr size offset =>
    change offset ≥ _ ∨ size = 0 ∨ overLength platform size (earlyStorageOffset + offset) ∨ ptr = none at h
    rw [perform, msWheaEarlyStorageWrite, msWheaCMOSRawWrite.eq_def]
    by_cases hoffset : offset ≥ msWheaEarlyStorageGetMaxSize platform
    · rw [if_pos hoffset]
    · rw [if_neg hoffset]
      cases ptr with
      | none => rfl
      | some buf => exact if_pos (by tauto)
  | clear size offset =>
    change offset ≥ _ ∨ size = 0 ∨ overLength platform size (earlyStorageOffset + offset) ∨ False at h
    rw [perform, msWheaEarlyStorageClear, msWheaCMOSRawClear]
    by_cases hoffset : offset ≥ msWheaEarlyStorageGetMaxSize platform
    · rw [if_pos hoffset]
    · rw [if_neg hoffset, if_pos (by tauto)]

/-- A call that is not refused succeeds, whatever its offset and size come to in 8 bits. -/
theorem perform_of_not_refused (hlog : platform.logBuffer ≠ 0) (h : ¬ call.Refused platform) :
    (call.perform platform s).status = .success ∧
      (call.perform platform s).touched = storageBytes (call.base platform s) call.size (earlyStorageOffset + call.offset) ∧
      (call.perform platform s).state.address = call.base platform s := by
  cases call with
  | read ptr size offset =>
    change ¬ (offset ≥ _ ∨ size = 0 ∨ overLength platform size (earlyStorageOffset + offset) ∨ ptr = false) at h
    have hne : (if s.address = 0 then platform.logBuffer else s.address) ≠ 0 := by
      split_ifs with hzero
      · exact hlog
      · exact hzero
    rw [perform, msWheaEarlyStorageRead, msWheaCMOSRawRead, if_neg (by tauto), if_neg (by tauto)]
    dsimp only
    rw [if_neg hne]
    exact ⟨rfl, rfl, rfl⟩
  | write ptr size offset =>
    change ¬ (offset ≥ _ ∨ size = 0 ∨ overLength platform size (earlyStorageOffset + offset) ∨ ptr = none) at h
    rw [perform, msWheaEarlyStorageWrite, if_neg (by tauto)]
    cases ptr with
    | none => exact absurd (.inr (.inr (.inr rfl))) h
    | some buf =>
      rw [msWheaCMOSRawWrite, if_neg (by tauto)]
      exact ⟨rfl, rfl, rfl⟩
  | clear size offset =>
    change ¬ (offset ≥ _ ∨ size = 0 ∨ overLength platform size (earlyStorageOffset + offset) ∨ False) at h
    rw [perform, msWheaEarlyStorageClear, msWheaCMOSRawClear, if_neg (by tauto), if_neg (by tauto)]
    exact ⟨rfl, rfl, rfl⟩

theorem writeStorage_cons (mem : ByteMemory) (b : BitVec 64) (addresses : List (BitVec 64)) (byte : Nat → BitVec 8) :
    writeStorage mem (b :: addresses) byte = writeStorage (mem.writeBytes b [byte 0]) addresses fun i => byte (i + 1) := by
  unfold writeStorage
  rw [List.zipIdx_cons, List.foldl_cons, List.zipIdx_succ, List.foldl_map]

/-- The loops write nothing else. -/
theorem writeStorage_frame {addresses : List (BitVec 64)} {a : BitVec 64} (h : a ∉ addresses) (mem : ByteMemory)
    (byte : Nat → BitVec 8) : writeStorage mem addresses byte a = mem a := by
  induction addresses generalizing mem byte with
  | nil => rfl
  | cons b addresses ih =>
    rw [List.mem_cons, not_or] at h
    have hoff : 1 ≤ (a - b).toNat := by
      have := h.1
      bv_omega
    rw [writeStorage_cons, ih h.2]
    exact ByteMemory.writeBytes_of_le hoff

theorem writeStorage_getElem {addresses : List (BitVec 64)} (hnodup : addresses.Nodup) (mem : ByteMemory)
    (byte : Nat → BitVec 8) {i : Nat} (hi : i < addresses.length) :
    writeStorage mem addresses byte addresses[i] = byte i := by
  induction addresses generalizing mem byte i with
  | nil => nomatch hi
  | cons b addresses ih =>
    rw [List.nodup_cons] at hnodup
    rw [writeStorage_cons]
    cases i with
    | zero => exact (writeStorage_frame hnodup.1 _ _).trans (ByteMemory.writeBytes_singleton _)
    | succ i => exact ih hnodup.2 _ _ (Nat.lt_of_succ_lt_succ hi)

theorem perform_frame {a : BitVec 64} (h : a ∉ (call.perform platform s).touched) :
    (call.perform platform s).state.mem a = s.mem a := by
  cases call with
  | read ptr size offset =>
    rw [perform, msWheaEarlyStorageRead, msWheaCMOSRawRead]
    dsimp only
    split_ifs <;> rfl
  | write ptr size offset =>
    revert h
    rw [perform, msWheaEarlyStorageWrite, msWheaCMOSRawWrite.eq_def]
    cases ptr with
    | none => split_ifs <;> exact fun _ => rfl
    | some buf =>
      dsimp only
      split_ifs
      · exact fun _ => rfl
      · exact fun _ => rfl
      · exact fun h => writeStorage_frame h _ _
  | clear size offset =>
    revert h
    rw [perform, msWheaEarlyStorageClear, msWheaCMOSRawClear]
    split_ifs
    · exact fun _ => rfl
    · exact fun _ => rfl
    · intro h
      exact writeStorage_frame h s.mem fun _ => platform.defaultValue

theorem mem_storageBytes {address a : BitVec 64} {size offset : BitVec 8} :
    a ∈ storageBytes address size (earlyStorageOffset + offset) ↔
      ∃ i < size.toNat, a = address + BitVec.ofNat 64 ((offset.toNat + 0x40 + i) % 256) := by
  have hbyte (i : Nat) : (earlyStorageOffset + offset + BitVec.ofNat 8 i).setWidth 64 =
      BitVec.ofNat 64 ((offset.toNat + 0x40 + i) % 256) := by
    unfold earlyStorageOffset
    bv_omega
  simp only [storageBytes, hbyte, List.mem_map, List.mem_range, eq_comm]

/-- The address and the bytes are right only if the call ends in the 256 bytes an index reaches. A module that took
address zero would be right by accident for a log buffer in the last 256 bytes of the address space. -/
theorem of_storageBytes {address logBuffer : BitVec 64} {size offset : BitVec 8} (hsize : size ≠ 0)
    (haddress : address = 0 ∨ address = logBuffer) (hlog : logBuffer ≠ 0) (hhigh : logBuffer ≠ -256#64)
    (h : ∀ a, a ∈ storageBytes address size (earlyStorageOffset + offset) ↔
      ∃ i < size.toNat, a = logBuffer + BitVec.ofNat 64 (offset.toNat + 0x40 + i)) :
    address = logBuffer ∧ offset.toNat + 0x40 + size.toNat ≤ 256 := by
  simp only [mem_storageBytes] at h
  have hpos : 0 < size.toNat := by bv_omega
  have hoffset := offset.isLt
  have hwidth := size.isLt
  -- what was asked for is among what is touched, and the other way round
  have hasked (i : Nat) (hi : i < size.toNat) := (h (logBuffer + BitVec.ofNat 64 (offset.toNat + 0x40 + i))).2 ⟨i, hi, rfl⟩
  have htouched (i : Nat) (hi : i < size.toNat) :=
    (h (address + BitVec.ofNat 64 ((offset.toNat + 0x40 + i) % 256))).1 ⟨i, hi, rfl⟩
  rcases haddress with rfl | rfl
  · exfalso
    -- both are below 256; the first byte asked for is the first one touched, since a wrapped index touches 255 and 0
    have hasked' (i : Nat) (hi : i < size.toNat) :
        ∃ k < size.toNat, (logBuffer.toNat + (offset.toNat + 0x40 + i)) % 2 ^ 64 = (offset.toNat + 0x40 + k) % 256 := by
      obtain ⟨k, hk, heq⟩ := hasked i hi
      exact ⟨k, hk, by bv_omega⟩
    have htouched' (i : Nat) (hi : i < size.toNat) :
        ∃ j < size.toNat, (offset.toNat + 0x40 + i) % 256 = (logBuffer.toNat + (offset.toNat + 0x40 + j)) % 2 ^ 64 := by
      obtain ⟨j, hj, heq⟩ := htouched i hi
      exact ⟨j, hj, by bv_omega⟩
    obtain ⟨k, hk, hfirst⟩ := hasked' 0 hpos
    obtain ⟨j, hj, hstart⟩ := htouched' 0 hpos
    have heq : (logBuffer.toNat + (offset.toNat + 0x40)) % 2 ^ 64 = (offset.toNat + 0x40) % 256 := by
      by_contra hne
      obtain ⟨m, hm, hmax⟩ := htouched' (255 - (offset.toNat + 0x40) % 256) (by omega)
      obtain ⟨n, hn, hmin⟩ := htouched' (256 - (offset.toNat + 0x40) % 256) (by omega)
      omega
    bv_omega
  · refine ⟨rfl, ?_⟩
    obtain ⟨j, -, hj⟩ := hasked (size.toNat - 1) (by omega)
    have := (BitVec.add_right_inj _).1 hj
    bv_omega

/-! ## Runs -/

/-- The static is what it was at first, or the address of the log buffer. -/
def Fetched (platform : WheaPlatform) (s : WheaState) : Prop := s.address = 0 ∨ s.address = platform.logBuffer

theorem base_eq (hs : Fetched platform s) : call.base platform s = 0 ∨ call.base platform s = platform.logBuffer := by
  cases call with
  | read ptr size offset =>
    rw [base]
    split_ifs with hzero
    · exact .inr rfl
    · exact hs
  | write ptr size offset => exact hs
  | clear size offset => exact hs

theorem base_eq_logBuffer_iff (hlog : platform.logBuffer ≠ 0) (hs : Fetched platform s) :
    call.base platform s = platform.logBuffer ↔ call.Addressed s := by
  cases call with
  | read ptr size offset =>
    rw [base]
    refine ⟨fun _ => trivial, ?_⟩
    intro _
    split_ifs with hzero
    · rfl
    · exact hs.resolve_left hzero
  | write ptr size offset => exact ⟨fun h hzero => hlog (h.symm.trans hzero), hs.resolve_left⟩
  | clear size offset => exact ⟨fun h hzero => hlog (h.symm.trans hzero), hs.resolve_left⟩

/-- The static stays so. -/
theorem fetched_perform (hlog : platform.logBuffer ≠ 0) (hs : Fetched platform s) :
    Fetched platform (call.perform platform s).state := by
  by_cases h : call.Refused platform
  · rw [perform_of_refused h]
    exact hs
  · rw [Fetched, (perform_of_not_refused hlog h).2.2]
    exact base_eq hs

theorem proper_of_meets (hlog : platform.logBuffer ≠ 0) (hs : Fetched platform s) (h : call.Meets platform s) :
    call.Proper platform s (call.perform platform s) := by
  by_cases hrefused : call.Refused platform
  · rw [perform_of_refused hrefused]
    exact ⟨nofun, nofun, fun _ => rfl, fun _ _ => rfl⟩
  · obtain ⟨haddressed, hwidth, hcapacity⟩ := h.resolve_left hrefused
    obtain ⟨hstatus, htouched, -⟩ := perform_of_not_refused (s := s) hlog hrefused
    refine ⟨?_, fun _ i hi => by omega, absurd hstatus, fun _ => perform_frame⟩
    intro _ a
    rw [htouched, (base_eq_logBuffer_iff hlog hs).2 haddressed, mem_storageBytes]
    refine exists_congr fun i => and_congr_right fun hi => ?_
    rw [Nat.mod_eq_of_lt (by omega)]

theorem meets_of_proper (hlog : platform.logBuffer ≠ 0) (hhigh : platform.logBuffer ≠ -256#64) (hs : Fetched platform s)
    (h : call.Proper platform s (call.perform platform s)) : call.Meets platform s := by
  by_cases hrefused : call.Refused platform
  · exact .inl hrefused
  · have hsize : call.size ≠ 0 := fun h => hrefused (.inr (.inl h))
    obtain ⟨hstatus, htouched, -⟩ := perform_of_not_refused (s := s) hlog hrefused
    have hbytes := h.exact_bytes hstatus
    rw [htouched] at hbytes
    obtain ⟨hbase, hwidth⟩ := of_storageBytes hsize (base_eq hs) hlog hhigh hbytes
    have hlast := h.below_capacity hstatus (call.size.toNat - 1) (by bv_omega)
    exact .inr ⟨(base_eq_logBuffer_iff hlog hs).1 hbase, hwidth, by omega⟩

theorem allProper_of_allMeet (hlog : platform.logBuffer ≠ 0) {calls : List WheaCall} (hs : Fetched platform s)
    (h : AllMeet platform calls s) : AllProper platform calls s := by
  induction calls generalizing s with
  | nil => trivial
  | cons call calls ih => exact ⟨proper_of_meets hlog hs h.1, ih (fetched_perform hlog hs) h.2⟩

theorem allMeet_of_allProper (hlog : platform.logBuffer ≠ 0) (hhigh : platform.logBuffer ≠ -256#64) {calls : List WheaCall}
    (hs : Fetched platform s) (h : AllProper platform calls s) : AllMeet platform calls s := by
  induction calls generalizing s with
  | nil => trivial
  | cons call calls ih => exact ⟨meets_of_proper hlog hhigh hs h.1, ih (fetched_perform hlog hs) h.2⟩

/-- **In a run of calls that all meet the condition, every call does what it says**; and no other run does that, a log
buffer at the last 256 bytes of the address space apart. -/
theorem earlyStorage_proper_iff (platform : WheaPlatform) (hlog : platform.logBuffer ≠ 0) (mem : ByteMemory)
    (calls : List WheaCall) :
    (AllMeet platform calls (WheaState.fresh mem) → AllProper platform calls (WheaState.fresh mem)) ∧
    (platform.logBuffer ≠ -256#64 → AllProper platform calls (WheaState.fresh mem) →
      AllMeet platform calls (WheaState.fresh mem)) :=
  ⟨allProper_of_allMeet hlog (.inl rfl), fun hhigh => allMeet_of_allProper hlog hhigh (.inl rfl)⟩

/-- A read of the last byte gets the address for the clear behind it. -/
theorem earlyStorage_proper_read_clear :
    AllProper ⟨0x80#32, 0xff#8, 0x80000000#64⟩ [read true 1 0x3f, clear 0x40 0] (WheaState.fresh fun _ => 0) :=
  (earlyStorage_proper_iff ⟨0x80#32, 0xff#8, 0x80000000#64⟩ (by decide) (fun _ => 0) [read true 1 0x3f, clear 0x40 0]).1
    ⟨.inr ⟨trivial, by decide, by decide⟩, .inr ⟨by unfold Addressed; decide, by decide, by decide⟩, trivial⟩

/-- A clear that is the first call goes to address zero and not to the log buffer. -/
theorem earlyStorage_clear_first :
    ((clear 1 0).perform ⟨0x80#32, 0xff#8, 0x80000000#64⟩ (WheaState.fresh fun _ => 0)).status = .success ∧
    ((clear 1 0).perform ⟨0x80#32, 0xff#8, 0x80000000#64⟩ (WheaState.fresh fun _ => 0)).touched = [0x40#64] ∧
    ¬ AllProper ⟨0x80#32, 0xff#8, 0x80000000#64⟩ [clear 1 0] (WheaState.fresh fun _ => 0) := by
  refine ⟨by decide, by decide, ?_⟩
  intro h
  obtain ⟨i, hi, heq⟩ := (h.1.exact_bytes (by decide) 0x40#64).1 (by decide)
  have hzero : i = 0 := Nat.lt_one_iff.1 hi
  subst hzero
  exact absurd heq (by decide)

end WheaCall

end Andromeda
