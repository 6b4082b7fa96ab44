import AndromedaBoot.Whea.EarlyStorage
import AndromedaBoot.Lib.PackedFields
import Mathlib.Data.List.Nodup

/-!
# Adding error records (MsWheaEarlyStorageLib.c)

The store begins with a header; the active data behind it is a sequence of entries. Adding a record writes the entry
behind the active data, and then the header with the new range and checksum.

| here | there |
| --- | --- |
| `msWheaESGetMaxDataCount`, `msWheaESFindSlot` | :299, :331 |
| `checksumLoop`, `msWheaESCalculateChecksum16` | :397-405, :365 |
| `msWheaESAddRecordV0Internal` with `updateHeader`, `msWheaESAddRecordV0` | :424, :536 |

The types of the header and the entry are not part of the repository: `WheaLayout` says what is used of them.
-/

namespace Andromeda

open PackedFields

/-- The values of a `MS_WHEA_EARLY_STORAGE_ENTRY_V0`, but for its revision, which is always `MS_WHEA_REV_0`. -/
structure WheaRecordV0 where
  errorStatusValue : BitVec 32
  additionalInfo1 : BitVec 64
  additionalInfo2 : BitVec 64
  moduleId : BitVec 128
  partitionId : BitVec 128

/-- Sizes and places of fields in `MS_WHEA_EARLY_STORAGE_HEADER`, and the bytes of an entry. -/
structure WheaLayout where
  headerSize : Nat
  entrySize : Nat
  activeRangeAt : Nat
  activeRangeSize : Nat
  checksumAt : Nat
  entryBytes : WheaRecordV0 → List (BitVec 8)
  header_lt : headerSize < 256
  header_even : 2 ∣ headerSize
  entry_lt : entrySize < 256
  entry_even : 2 ∣ entrySize
  entry_pos : 0 < entrySize
  length_entryBytes : ∀ record, (entryBytes record).length = entrySize
  activeRange_wide : 2 ≤ activeRangeSize
  activeRange_le : activeRangeAt + activeRangeSize ≤ headerSize
  checksum_even : 2 ∣ checksumAt
  checksum_le : checksumAt + 2 ≤ headerSize
  apart : activeRangeAt + activeRangeSize ≤ checksumAt ∨ checksumAt + 2 ≤ activeRangeAt

namespace WheaLayout

variable (layout : WheaLayout)

/-- `Header.ActiveRange` -/
def activeRange (header : List (BitVec 8)) : Nat := leValue (field header layout.activeRangeAt layout.activeRangeSize)

def setActiveRange (header : List (BitVec 8)) (v : Nat) : List (BitVec 8) :=
  setField header layout.activeRangeAt (leBytes layout.activeRangeSize v)

def setChecksum (header : List (BitVec 8)) (v : BitVec 16) : List (BitVec 8) :=
  setField header layout.checksumAt (leBytes 2 v.toNat)

end WheaLayout

section Code

variable (platform : WheaPlatform) (layout : WheaLayout)

def msWheaESGetMaxDataCount : BitVec 8 :=
  if (msWheaEarlyStorageGetMaxSize platform).toNat < layout.headerSize then 0
  else BitVec.ofNat 8 ((msWheaEarlyStorageGetMaxSize platform).toNat - layout.headerSize)

/-- `MsWheaEarlyStorageRead (&Header, MS_WHEA_EARLY_STORAGE_HEADER_SIZE, 0)` -/
def readHeader (s : WheaState) : WheaOutcome :=
  msWheaEarlyStorageRead platform true (BitVec.ofNat 8 layout.headerSize) 0 s

/-- The status of the read is not looked at; `stack` is what the header is before. The sum is one of `int`s or of the
wider type of the field. -/
def msWheaESFindSlot (stack : List (BitVec 8)) (size : BitVec 8) (s : WheaState) : EfiStatus × BitVec 8 × WheaState :=
  let r := readHeader platform layout s
  let header := if r.status = .success then r.data else stack
  if (layout.activeRange header + size.toNat) % 256 ^ max layout.activeRangeSize 4 ≤
      (msWheaESGetMaxDataCount platform layout).toNat then
    (.success, BitVec.ofNat 8 (layout.activeRange header), r.state)
  else (.outOfResources, 0, r.state)

/-- The loop over the active data, with `rounds` rounds to go. -/
def checksumLoop : Nat → Nat → BitVec 16 → WheaState → EfiStatus × BitVec 16 × WheaState
  | 0, _, sum, s => (.success, sum, s)
  | rounds + 1, index, sum, s =>
    let r := msWheaEarlyStorageRead platform true 2 (BitVec.ofNat 8 (layout.headerSize + index)) s
    if r.status ≠ .success then (r.status, sum, r.state)
    else checksumLoop rounds (index + 2) (sum + sum16 r.data) r.state

/-- The header is summed up with a checksum of zero. -/
def msWheaESCalculateChecksum16 (header : List (BitVec 8)) (s : WheaState) : EfiStatus × BitVec 16 × WheaState :=
  if layout.activeRange header > (msWheaEarlyStorageGetMaxSize platform).toNat ∨ layout.activeRange header % 2 ≠ 0 then
    (.badBufferSize, 0, s)
  else
    let (status, sum, s) := checksumLoop platform layout ((layout.activeRange header + 1) / 2) 0
      (sum16 (layout.setChecksum header 0)) s
    (status, 0 - sum, s)

/-- The second half of `MsWheaESAddRecordV0Internal` (:467-518): the header is brought up to date. -/
def updateHeader (s : WheaState) : EfiStatus × WheaState :=
  let r := readHeader platform layout s
  if r.status ≠ .success then (r.status, r.state)
  else
    let header := layout.setActiveRange r.data (layout.activeRange r.data + layout.entrySize)
    let (status, checksum, s) := msWheaESCalculateChecksum16 platform layout header r.state
    if status ≠ .success then (status, s)
    else
      let header := layout.setChecksum header checksum
      -- the status of the write is lost; the header is read again to compare the checksum
      let w := msWheaEarlyStorageWrite platform (some fun i => header.getD i 0) (BitVec.ofNat 8 layout.headerSize) 0 s
      let r := readHeader platform layout w.state
      (r.status, r.state)

def msWheaESAddRecordV0Internal (stack : List (BitVec 8)) (msWheaEntry : Option (List (BitVec 8))) (s : WheaState) :
    EfiStatus × WheaState :=
  match msWheaEntry with
  | none => (.invalidParameter, s)
  | some entry =>
    let (status, offset, s) := msWheaESFindSlot platform layout stack (BitVec.ofNat 8 layout.entrySize) s
    if status ≠ .success then (status, s)
    else
      let w := msWheaEarlyStorageWrite platform (some fun i => entry.getD i 0) (BitVec.ofNat 8 layout.entrySize)
        (BitVec.ofNat 8 (layout.headerSize + offset.toNat)) s
      if w.status ≠ .success then (w.status, w.state) else updateHeader platform layout w.state

/-- The arguments of `MsWheaESAddRecordV0`; a null pointer is `none`. -/
structure WheaArguments where
  errorStatusValue : BitVec 32
  additionalInfo1 : BitVec 64
  additionalInfo2 : BitVec 64
  moduleId : Option (BitVec 128)
  partitionId : Option (BitVec 128)

/-- The record of a call; `callerId` is `gEfiCallerIdGuid`. -/
def WheaArguments.record (callerId : BitVec 128) (a : WheaArguments) : WheaRecordV0 :=
  ⟨a.errorStatusValue, a.additionalInfo1, a.additionalInfo2, a.moduleId.getD callerId, a.partitionId.getD 0⟩

def msWheaESAddRecordV0 (callerId : BitVec 128) (stack : List (BitVec 8)) (a : WheaArguments) (s : WheaState) :
    EfiStatus × WheaState :=
  msWheaESAddRecordV0Internal platform layout stack (some (layout.entryBytes (a.record callerId))) s

end Code

/-! ## The store -/

/-- The bytes of the store. -/
def WheaPlatform.store (platform : WheaPlatform) (mem : ByteMemory) (i : Nat) : BitVec 8 :=
  mem (platform.logBuffer + BitVec.ofNat 64 (0x40 + i))

def WheaPlatform.storeBytes (platform : WheaPlatform) (mem : ByteMemory) (start n : Nat) : List (BitVec 8) :=
  (List.range n).map fun i => platform.store mem (start + i)

/-- The capacities and addresses the records are kept for. -/
structure WheaPlatform.Holds (platform : WheaPlatform) (layout : WheaLayout) : Prop where
  address : platform.logBuffer ≠ 0
  header : 0x40 + layout.headerSize ≤ platform.capacity.toNat
  capacity : platform.capacity.toNat ≤ 0xFF

variable {platform : WheaPlatform} {layout : WheaLayout} {s : WheaState} {mem : ByteMemory} {start n : Nat}

theorem getMaxSize_eq (hlow : 0x40 ≤ platform.capacity.toNat) (hhigh : platform.capacity.toNat ≤ 0xFF) :
    (msWheaEarlyStorageGetMaxSize platform).toNat = platform.capacity.toNat - 0x40 := by
  have hoffset : earlyStorageOffset.setWidth 32 = 0x40#32 := rfl
  rw [msWheaEarlyStorageGetMaxSize, hoffset, if_neg (by bv_omega)]
  bv_omega

theorem getMaxDataCount_eq (h : platform.Holds layout) :
    (msWheaESGetMaxDataCount platform layout).toNat = platform.capacity.toNat - 0x40 - layout.headerSize := by
  have hlow := h.header
  have hhigh := h.capacity
  have hmax := getMaxSize_eq (show 0x40 ≤ platform.capacity.toNat by omega) hhigh
  rw [msWheaESGetMaxDataCount, hmax, if_neg (by omega), BitVec.toNat_ofNat, Nat.mod_eq_of_lt (by omega)]

/-- Neither check refuses what ends below the capacity. -/
theorem not_overLength (hhigh : platform.capacity.toNat ≤ 0xFF) (hn : 0 < n) (hend : 0x40 + start + n ≤ platform.capacity.toNat) :
    ¬ BitVec.ofNat 8 start ≥ msWheaEarlyStorageGetMaxSize platform ∧ BitVec.ofNat 8 n ≠ 0 ∧
      ¬ overLength platform (BitVec.ofNat 8 n) (earlyStorageOffset + BitVec.ofNat 8 start) := by
  have hmax := getMaxSize_eq (show 0x40 ≤ platform.capacity.toNat by omega) hhigh
  refine ⟨by bv_omega, by bv_omega, ?_⟩
  unfold overLength earlyStorageOffset
  bv_omega

theorem storageBytes_eq (hend : 0x40 + start + n ≤ 256) :
    storageBytes platform.logBuffer (BitVec.ofNat 8 n) (earlyStorageOffset + BitVec.ofNat 8 start) =
      (List.range n).map fun i => platform.logBuffer + BitVec.ofNat 64 (0x40 + (start + i)) := by
  have hn : (BitVec.ofNat 8 n).toNat = n := by
    rw [BitVec.toNat_ofNat, Nat.mod_eq_of_lt (by omega)]
  rw [storageBytes, hn]
  refine List.map_congr_left ?_
  intro i hi
  rw [List.mem_range] at hi
  congr 1
  unfold earlyStorageOffset
  bv_omega

/-- A read below the capacity. -/
theorem read_eq (h : platform.Holds layout) (hs : WheaCall.Fetched platform s) (hn : 0 < n)
    (hend : 0x40 + start + n ≤ platform.capacity.toNat) :
    (msWheaEarlyStorageRead platform true (BitVec.ofNat 8 n) (BitVec.ofNat 8 start) s).status = .success ∧
      (msWheaEarlyStorageRead platform true (BitVec.ofNat 8 n) (BitVec.ofNat 8 start) s).state =
        ⟨platform.logBuffer, s.mem⟩ ∧
      (msWheaEarlyStorageRead platform true (BitVec.ofNat 8 n) (BitVec.ofNat 8 start) s).data =
        platform.storeBytes s.mem start n := by
  have hhigh := h.capacity
  obtain ⟨hmax, hzero, hover⟩ := not_overLength hhigh hn hend
  have haddress : (if s.address = 0 then platform.logBuffer else s.address) = platform.logBuffer := by
    split_ifs with hzero
    · rfl
    · exact hs.resolve_left hzero
  have hchecks : ¬ (true = false ∨ BitVec.ofNat 8 n = 0 ∨
      overLength platform (BitVec.ofNat 8 n) (earlyStorageOffset + BitVec.ofNat 8 start)) := by
    rintro (hfalse | hsize | hlong)
    · contradiction
    · exact hzero hsize
    · exact hover hlong
  rw [msWheaEarlyStorageRead, if_neg hmax, msWheaCMOSRawRead, if_neg hchecks]
  dsimp only
  rw [haddress, if_neg h.address, storageBytes_eq (by omega), List.map_map]
  exact ⟨rfl, rfl, rfl⟩

theorem nodup_store (hend : 0x40 + start + n ≤ 256) :
    ((List.range n).map fun i => platform.logBuffer + BitVec.ofNat 64 (0x40 + (start + i))).Nodup := by
  refine List.Nodup.map_on ?_ List.nodup_range
  intro i hi j hj heq
  rw [List.mem_range] at hi hj
  have := (BitVec.add_right_inj _).1 heq
  bv_omega

/-- A write below the capacity. -/
theorem write_eq (h : platform.Holds layout) (hs : s.address = platform.logBuffer) (buf : Nat → BitVec 8) (hn : 0 < n)
    (hend : 0x40 + start + n ≤ platform.capacity.toNat) :
    (msWheaEarlyStorageWrite platform (some buf) (BitVec.ofNat 8 n) (BitVec.ofNat 8 start) s).status = .success ∧
      (msWheaEarlyStorageWrite platform (some buf) (BitVec.ofNat 8 n) (BitVec.ofNat 8 start) s).state.address =
        platform.logBuffer ∧
      ∀ i < 0x100 - 0x40, platform.store
          (msWheaEarlyStorageWrite platform (some buf) (BitVec.ofNat 8 n) (BitVec.ofNat 8 start) s).state.mem i =
        if start ≤ i ∧ i < start + n then buf (i - start) else platform.store s.mem i := by
  have hhigh := h.capacity
  obtain ⟨hmax, hzero, hover⟩ := not_overLength hhigh hn hend
  have hchecks : ¬ (BitVec.ofNat 8 n = 0 ∨
      overLength platform (BitVec.ofNat 8 n) (earlyStorageOffset + BitVec.ofNat 8 start)) := by
    rintro (hsize | hlong)
    · exact hzero hsize
    · exact hover hlong
  rw [msWheaEarlyStorageWrite, if_neg hmax, msWheaCMOSRawWrite, if_neg hchecks]
  dsimp only
  rw [hs, storageBytes_eq (by omega)]
  refine ⟨rfl, rfl, ?_⟩
  intro i hi
  split_ifs with hin
  · have hlt : i - start < ((List.range n).map fun i => platform.logBuffer + BitVec.ofNat 64 (0x40 + (start + i))).length := by
      rw [List.length_map, List.length_range]
      omega
    have hget := WheaCall.writeStorage_getElem (nodup_store (by omega)) s.mem buf hlt
    rw [List.getElem_map, List.getElem_range, Nat.add_sub_cancel' hin.1] at hget
    exact hget
  · refine WheaCall.writeStorage_frame (fun hmem => hin ?_) _ _
    obtain ⟨k, hk, heq⟩ := List.mem_map.1 hmem
    rw [List.mem_range] at hk
    have := (BitVec.add_right_inj _).1 heq
    bv_omega

/-! ## The functions -/

theorem length_storeBytes : (platform.storeBytes mem start n).length = n := by
  rw [WheaPlatform.storeBytes, List.length_map, List.length_range]

theorem getElem?_storeBytes {i : Nat} (hi : i < n) :
    (platform.storeBytes mem start n)[i]? = some (platform.store mem (start + i)) := by
  rw [WheaPlatform.storeBytes, List.getElem?_map, List.getElem?_range hi, Option.map_some]

theorem storeBytes_add {k : Nat} :
    platform.storeBytes mem start (n + k) = platform.storeBytes mem start n ++ platform.storeBytes mem (start + n) k := by
  simp only [WheaPlatform.storeBytes, List.range_add, List.map_append, List.map_map, Function.comp_def, Nat.add_assoc]

theorem storeBytes_congr {mem' : ByteMemory} (h : ∀ i < n, platform.store mem' (start + i) = platform.store mem (start + i)) :
    platform.storeBytes mem' start n = platform.storeBytes mem start n :=
  List.map_congr_left fun i hi => h i (List.mem_range.1 hi)

/-- The range of the active data in the store. -/
def WheaPlatform.activeRange (platform : WheaPlatform) (layout : WheaLayout) (mem : ByteMemory) : Nat :=
  layout.activeRange (platform.storeBytes mem 0 layout.headerSize)

theorem readHeader_eq (h : platform.Holds layout) (hs : WheaCall.Fetched platform s) :
    (readHeader platform layout s).status = .success ∧
      (readHeader platform layout s).state = ⟨platform.logBuffer, s.mem⟩ ∧
      (readHeader platform layout s).data = platform.storeBytes s.mem 0 layout.headerSize :=
  read_eq h hs (Nat.lt_of_lt_of_le (Nat.succ_pos _) layout.checksum_le) h.header

/-- A store with room for its active data. -/
structure WheaPlatform.Valid (platform : WheaPlatform) (layout : WheaLayout) (s : WheaState) : Prop where
  fetched : WheaCall.Fetched platform s
  even : 2 ∣ platform.activeRange layout s.mem
  le : platform.activeRange layout s.mem ≤ (msWheaESGetMaxDataCount platform layout).toNat

theorem findSlot_eq (h : platform.Holds layout) (hs : platform.Valid layout s) (stack : List (BitVec 8)) :
    msWheaESFindSlot platform layout stack (BitVec.ofNat 8 layout.entrySize) s =
      if platform.activeRange layout s.mem + layout.entrySize ≤ (msWheaESGetMaxDataCount platform layout).toNat then
        (.success, BitVec.ofNat 8 (platform.activeRange layout s.mem), ⟨platform.logBuffer, s.mem⟩)
      else (.outOfResources, 0, ⟨platform.logBuffer, s.mem⟩) := by
  obtain ⟨hstatus, hstate, hdata⟩ := readHeader_eq h hs.fetched
  have hle := hs.le
  have hcount := (msWheaESGetMaxDataCount platform layout).isLt
  have hentry := layout.entry_lt
  have hpow : 256 ^ 4 ≤ 256 ^ max layout.activeRangeSize 4 := Nat.pow_le_pow_right (by decide) (Nat.le_max_right _ _)
  have hsum : (platform.activeRange layout s.mem + (BitVec.ofNat 8 layout.entrySize).toNat) %
      256 ^ max layout.activeRangeSize 4 = platform.activeRange layout s.mem + layout.entrySize := by
    rw [BitVec.toNat_ofNat, Nat.mod_eq_of_lt (show layout.entrySize < 2 ^ 8 by omega), Nat.mod_eq_of_lt (by omega)]
  rw [WheaPlatform.activeRange] at hsum ⊢
  rw [msWheaESFindSlot, hstatus, hstate, hdata, if_pos rfl, hsum]

theorem checksumLoop_eq (h : platform.Holds layout) (hs : s.address = platform.logBuffer) {rounds index : Nat} {sum : BitVec 16}
    (hend : 0x40 + layout.headerSize + index + 2 * rounds ≤ platform.capacity.toNat) :
    checksumLoop platform layout rounds index sum s =
      (.success, sum + sum16 (platform.storeBytes s.mem (layout.headerSize + index) (2 * rounds)), s) := by
  induction rounds generalizing index sum with
  | zero => rw [checksumLoop, Nat.mul_zero]; exact congrArg _ (congrArg (·, s) (BitVec.add_zero sum).symm)
  | succ rounds ih =>
    obtain ⟨hstatus, hstate, hdata⟩ := @read_eq _ layout s (layout.headerSize + index) 2 h (.inr hs) (by decide) (by omega)
    have hsplit : platform.storeBytes s.mem (layout.headerSize + index) (2 * (rounds + 1)) =
        platform.storeBytes s.mem (layout.headerSize + index) 2 ++
          platform.storeBytes s.mem (layout.headerSize + (index + 2)) (2 * rounds) := by
      rw [show 2 * (rounds + 1) = 2 + 2 * rounds by omega, storeBytes_add, Nat.add_assoc]
    have hsame : (⟨platform.logBuffer, s.mem⟩ : WheaState) = s := by rw [← hs]
    rw [checksumLoop, show (2 : BitVec 8) = BitVec.ofNat 8 2 from rfl, hstatus, hstate, hdata, if_neg (by decide), hsame,
      ih (by omega), hsplit, sum16_append (by rw [length_storeBytes]), BitVec.add_assoc]

theorem calculateChecksum16_eq (h : platform.Holds layout) (hs : s.address = platform.logBuffer) {header : List (BitVec 8)}
    (heven : 2 ∣ layout.activeRange header)
    (hle : layout.activeRange header ≤ (msWheaESGetMaxDataCount platform layout).toNat) :
    msWheaESCalculateChecksum16 platform layout header s =
      (.success, 0 - (sum16 (layout.setChecksum header 0) +
        sum16 (platform.storeBytes s.mem layout.headerSize (layout.activeRange header))), s) := by
  have hlow := h.header
  have hhigh := h.capacity
  have hmax := getMaxSize_eq (show 0x40 ≤ platform.capacity.toNat by omega) hhigh
  rw [getMaxDataCount_eq h] at hle
  have hrounds : 2 * ((layout.activeRange header + 1) / 2) = layout.activeRange header := by omega
  rw [msWheaESCalculateChecksum16, if_neg (by omega), checksumLoop_eq h hs (by omega), hrounds, Nat.add_zero]

/-! ## Adding a record -/

/-- The memory after the entry is written, with the bytes of the store. -/
theorem entry_written (h : platform.Holds layout) (hs : s.address = platform.logBuffer) {range : Nat} (entry : List (BitVec 8))
    (hroom : range + layout.entrySize ≤ (msWheaESGetMaxDataCount platform layout).toNat) :
    let w := msWheaEarlyStorageWrite platform (some fun i => entry.getD i 0) (BitVec.ofNat 8 layout.entrySize)
      (BitVec.ofNat 8 (layout.headerSize + range)) s
    w.status = .success ∧ w.state.address = platform.logBuffer ∧
      (∀ i < layout.headerSize + range, platform.store w.state.mem i = platform.store s.mem i) ∧
      ∀ i < layout.entrySize, platform.store w.state.mem (layout.headerSize + range + i) = entry.getD i 0 := by
  have hlow := h.header
  have hhigh := h.capacity
  rw [getMaxDataCount_eq h] at hroom
  obtain ⟨hstatus, haddress, hstore⟩ := write_eq h hs (fun i => entry.getD i 0) layout.entry_pos
    (show 0x40 + (layout.headerSize + range) + layout.entrySize ≤ platform.capacity.toNat by omega)
  refine ⟨hstatus, haddress, ?_, ?_⟩
  · intro i hi
    rw [hstore i (by omega), if_neg (by omega)]
  · intro i hi
    rw [hstore _ (by omega), if_pos (by omega), Nat.add_sub_cancel_left]

/-- The header as it is written back. -/
def WheaLayout.newHeader (layout : WheaLayout) (header data : List (BitVec 8)) : List (BitVec 8) :=
  let header := layout.setActiveRange header (layout.activeRange header + layout.entrySize)
  layout.setChecksum header (0 - (sum16 (layout.setChecksum header 0) + sum16 data))

section Header

variable {header data : List (BitVec 8)} (hlen : header.length = layout.headerSize)

include hlen

theorem length_setActiveRange (v : Nat) : (layout.setActiveRange header v).length = layout.headerSize := by
  have hle := layout.activeRange_le
  rw [WheaLayout.setActiveRange, length_setField (by rw [length_leBytes]; omega), hlen]

theorem activeRange_setActiveRange {v : Nat} (hv : v < 256) : layout.activeRange (layout.setActiveRange header v) = v := by
  have hle := layout.activeRange_le
  have hpow : 256 ^ 2 ≤ 256 ^ layout.activeRangeSize := Nat.pow_le_pow_right (by decide) layout.activeRange_wide
  have hfield := @field_setField header (leBytes layout.activeRangeSize v) layout.activeRangeAt (by rw [length_leBytes]; omega)
  rw [length_leBytes] at hfield
  rw [WheaLayout.activeRange, WheaLayout.setActiveRange, hfield, leValue_leBytes, Nat.mod_eq_of_lt (by omega)]

theorem activeRange_setChecksum (v : BitVec 16) :
    layout.activeRange (layout.setChecksum header v) = layout.activeRange header := by
  have hle := layout.checksum_le
  have hapart := layout.apart
  rw [WheaLayout.activeRange, WheaLayout.setChecksum,
    field_setField_of_apart (by rw [length_leBytes]; omega) (by rw [length_leBytes]; omega)]
  rfl

theorem activeRange_newHeader (hrange : layout.activeRange header + layout.entrySize < 256) :
    layout.activeRange (layout.newHeader header data) = layout.activeRange header + layout.entrySize := by
  rw [WheaLayout.newHeader, activeRange_setChecksum (length_setActiveRange hlen _), activeRange_setActiveRange hlen hrange]

/-- The new header and the data add up to zero. -/
theorem sum16_newHeader : sum16 (layout.newHeader header data) + sum16 data = 0 := by
  have hlength := length_setActiveRange hlen (layout.activeRange header + layout.entrySize)
  have hle := layout.checksum_le
  rw [WheaLayout.newHeader, WheaLayout.setChecksum, sum16_setField layout.checksum_even (by omega) (length_leBytes 2 _),
    sum16_leBytes]
  change sum16 (layout.setChecksum _ 0) + _ + _ = 0
  bv_omega

/-- The other fields stay. -/
theorem getElem?_newHeader {i : Nat}
    (hrange : ¬ (layout.activeRangeAt ≤ i ∧ i < layout.activeRangeAt + layout.activeRangeSize))
    (hchecksum : ¬ (layout.checksumAt ≤ i ∧ i < layout.checksumAt + 2)) :
    (layout.newHeader header data)[i]? = header[i]? := by
  have hlength := length_setActiveRange hlen (layout.activeRange header + layout.entrySize)
  have hle := layout.checksum_le
  have hle' := layout.activeRange_le
  rw [WheaLayout.newHeader, WheaLayout.setChecksum, getElem?_setField (by rw [length_leBytes]; omega), length_leBytes,
    if_neg hchecksum, WheaLayout.setActiveRange, getElem?_setField (by rw [length_leBytes]; omega), length_leBytes,
    if_neg hrange]

end Header

/-- The header is written and read back. -/
theorem header_written (h : platform.Holds layout) (hs : s.address = platform.logBuffer) {header : List (BitVec 8)}
    (hlen : header.length = layout.headerSize) :
    let r := readHeader platform layout (msWheaEarlyStorageWrite platform (some fun i => header.getD i 0)
      (BitVec.ofNat 8 layout.headerSize) 0 s).state
    r.status = .success ∧ ∃ mem, r.state = ⟨platform.logBuffer, mem⟩ ∧
      platform.storeBytes mem 0 layout.headerSize = header ∧
      ∀ i < 0x100 - 0x40, layout.headerSize ≤ i → platform.store mem i = platform.store s.mem i := by
  have hpos : 0 < layout.headerSize := Nat.lt_of_lt_of_le (Nat.succ_pos _) layout.checksum_le
  have hlow := h.header
  have hhigh := h.capacity
  obtain ⟨-, haddress, hstore⟩ := write_eq h hs (fun i => header.getD i 0) hpos
    (show 0x40 + 0 + layout.headerSize ≤ platform.capacity.toNat by omega)
  obtain ⟨hstatus, hstate, -⟩ := readHeader_eq h (.inr haddress)
  refine ⟨hstatus, _, hstate, ?_, ?_⟩
  · apply List.ext_getElem?
    intro i
    rcases Nat.lt_or_ge i layout.headerSize with hi | hi
    · rw [getElem?_storeBytes hi, Nat.zero_add, hstore i (by omega), if_pos (by omega), Nat.sub_zero,
        List.getD_eq_getElem?_getD, List.getElem?_eq_getElem (hlen ▸ hi), Option.getD_some]
    · rw [List.getElem?_eq_none (by rwa [length_storeBytes]), List.getElem?_eq_none (by omega)]
  · intro i hi hle
    rw [hstore i hi, if_neg (by omega)]

theorem updateHeader_eq (h : platform.Holds layout) (hs : s.address = platform.logBuffer)
    (heven : 2 ∣ platform.activeRange layout s.mem)
    (hroom : platform.activeRange layout s.mem + layout.entrySize ≤ (msWheaESGetMaxDataCount platform layout).toNat) :
    ∃ mem, updateHeader platform layout s = (.success, ⟨platform.logBuffer, mem⟩) ∧
      platform.storeBytes mem 0 layout.headerSize = layout.newHeader (platform.storeBytes s.mem 0 layout.headerSize)
        (platform.storeBytes s.mem layout.headerSize (platform.activeRange layout s.mem + layout.entrySize)) ∧
      ∀ i < 0x100 - 0x40, layout.headerSize ≤ i → platform.store mem i = platform.store s.mem i := by
  have hcount := getMaxDataCount_eq h
  have hhigh := h.capacity
  have hlen : (platform.storeBytes s.mem 0 layout.headerSize).length = layout.headerSize := length_storeBytes
  have hsame : (⟨platform.logBuffer, s.mem⟩ : WheaState) = s := by rw [← hs]
  obtain ⟨hstatus, hstate, hdata⟩ := readHeader_eq h (.inr hs)
  rw [hsame] at hstate
  rw [updateHeader, hstatus, hstate, hdata, if_neg (by decide)]
  unfold WheaLayout.newHeader
  rw [WheaPlatform.activeRange] at heven hroom ⊢
  generalize platform.storeBytes s.mem 0 layout.headerSize = header at *
  have hrange := activeRange_setActiveRange hlen (show layout.activeRange header + layout.entrySize < 256 by omega)
  have hlen' := length_setActiveRange hlen (layout.activeRange header + layout.entrySize)
  generalize layout.setActiveRange header (layout.activeRange header + layout.entrySize) = header' at *
  have hsum := calculateChecksum16_eq h hs (hrange ▸ Nat.dvd_add heven layout.entry_even) (hrange ▸ hroom)
  dsimp only
  rw [hsum, hrange]
  dsimp only
  rw [if_neg (by decide)]
  generalize 0 - (sum16 (layout.setChecksum header' 0) +
    sum16 (platform.storeBytes s.mem layout.headerSize (layout.activeRange header + layout.entrySize))) = checksum
  have hlength : (layout.setChecksum header' checksum).length = layout.headerSize := by
    have hle := layout.checksum_le
    rw [WheaLayout.setChecksum, length_setField (by rw [length_leBytes]; omega), hlen']
  obtain ⟨hstatus', mem, hstate', hheader, hrest⟩ := header_written h hs hlength
  exact ⟨mem, by rw [hstatus', hstate'], hheader, hrest⟩

/-- What a call leaves behind. -/
structure RecordAdded (platform : WheaPlatform) (layout : WheaLayout) (record : WheaRecordV0) (s : WheaState)
    (r : EfiStatus × WheaState) : Prop where
  success_iff : r.1 = .success ↔
    platform.activeRange layout s.mem + layout.entrySize ≤ (msWheaESGetMaxDataCount platform layout).toNat
  /-- The entry stands at the old end of the active data, … -/
  entry : r.1 = .success → ∀ i < layout.entrySize, platform.store r.2.mem
    (layout.headerSize + platform.activeRange layout s.mem + i) = (layout.entryBytes record).getD i 0
  /-- … which is as it was, … -/
  data : r.1 = .success → ∀ i < platform.activeRange layout s.mem,
    platform.store r.2.mem (layout.headerSize + i) = platform.store s.mem (layout.headerSize + i)
  /-- … and so is the header but for two fields. -/
  header : r.1 = .success → ∀ i < layout.headerSize,
    ¬ (layout.activeRangeAt ≤ i ∧ i < layout.activeRangeAt + layout.activeRangeSize) →
    ¬ (layout.checksumAt ≤ i ∧ i < layout.checksumAt + 2) → platform.store r.2.mem i = platform.store s.mem i
  activeRange : r.1 = .success →
    platform.activeRange layout r.2.mem = platform.activeRange layout s.mem + layout.entrySize
  checksum : r.1 = .success →
    sum16 (platform.storeBytes r.2.mem 0 (layout.headerSize + platform.activeRange layout r.2.mem)) = 0
  full : r.1 = .outOfResources → r.2.mem = s.mem
  status : r.1 = .success ∨ r.1 = .outOfResources

theorem addRecord_added (h : platform.Holds layout) (hs : platform.Valid layout s) (stack : List (BitVec 8))
    (record : WheaRecordV0) :
    RecordAdded platform layout record s
      (msWheaESAddRecordV0Internal platform layout stack (some (layout.entryBytes record)) s) ∧
    WheaCall.Fetched platform
      (msWheaESAddRecordV0Internal platform layout stack (some (layout.entryBytes record)) s).2 := by
  have hcount := getMaxDataCount_eq h
  have hlow := h.header
  have hhigh := h.capacity
  rw [msWheaESAddRecordV0Internal, findSlot_eq h hs]
  by_cases hroom : platform.activeRange layout s.mem + layout.entrySize ≤ (msWheaESGetMaxDataCount platform layout).toNat
  · have hoffset : (BitVec.ofNat 8 (platform.activeRange layout s.mem)).toNat = platform.activeRange layout s.mem := by
      rw [BitVec.toNat_ofNat, Nat.mod_eq_of_lt (by omega)]
    obtain ⟨hstatus, haddress, hbefore, hentry⟩ :=
      @entry_written _ _ ⟨platform.logBuffer, s.mem⟩ h rfl _ (layout.entryBytes record) hroom
    rw [if_pos hroom]
    dsimp only
    rw [if_neg (by decide), hoffset, if_neg (by rw [hstatus]; decide)]
    generalize msWheaEarlyStorageWrite platform (some fun i => (layout.entryBytes record).getD i 0)
      (BitVec.ofNat 8 layout.entrySize) (BitVec.ofNat 8 (layout.headerSize + platform.activeRange layout s.mem))
      ⟨platform.logBuffer, s.mem⟩ = w at *
    have hheader : platform.storeBytes w.state.mem 0 layout.headerSize = platform.storeBytes s.mem 0 layout.headerSize :=
      storeBytes_congr fun i hi => hbefore _ (by omega)
    have hrange : platform.activeRange layout w.state.mem = platform.activeRange layout s.mem := by
      rw [WheaPlatform.activeRange, hheader]
      rfl
    obtain ⟨mem, hupdate, hnew, hrest⟩ := updateHeader_eq h haddress (hrange ▸ hs.even) (hrange ▸ hroom)
    rw [hheader, hrange] at hnew
    have hlen : (platform.storeBytes s.mem 0 layout.headerSize).length = layout.headerSize := length_storeBytes
    have hactive : platform.activeRange layout mem = platform.activeRange layout s.mem + layout.entrySize := by
      rw [WheaPlatform.activeRange, hnew]
      exact activeRange_newHeader hlen (show platform.activeRange layout s.mem + layout.entrySize < 256 by omega)
    rw [hupdate]
    refine ⟨⟨iff_of_true rfl hroom, ?_, ?_, ?_, fun _ => hactive, ?_, nofun, .inl rfl⟩, .inr rfl⟩
    · intro _ i hi
      exact (hrest _ (by omega) (by omega)).trans (hentry i hi)
    · intro _ i hi
      exact (hrest _ (by omega) (by omega)).trans (hbefore _ (by omega))
    · intro _ i hi hnotRange hnotChecksum
      have hget := @getElem?_newHeader layout _ (platform.storeBytes w.state.mem layout.headerSize
        (platform.activeRange layout s.mem + layout.entrySize)) hlen i hnotRange hnotChecksum
      rw [← hnew, getElem?_storeBytes hi, getElem?_storeBytes hi, Nat.zero_add] at hget
      exact Option.some.inj hget
    · intro _
      have hdata : platform.storeBytes mem layout.headerSize (platform.activeRange layout s.mem + layout.entrySize) =
          platform.storeBytes w.state.mem layout.headerSize (platform.activeRange layout s.mem + layout.entrySize) :=
        storeBytes_congr fun i hi => hrest _ (by omega) (by omega)
      change sum16 (platform.storeBytes mem 0 (layout.headerSize + platform.activeRange layout mem)) = 0
      rw [hactive, storeBytes_add, Nat.zero_add, sum16_append (by rw [length_storeBytes]; exact layout.header_even), hdata,
        hnew, sum16_newHeader hlen]
  · rw [if_neg hroom]
    dsimp only
    rw [if_pos (by decide)]
    exact ⟨⟨⟨nofun, fun h => absurd h hroom⟩, nofun, nofun, nofun, nofun, nofun, fun _ => rfl, .inr rfl⟩, .inr rfl⟩

/-- All calls of a run do that; each comes with what its stack held. -/
def AllRecordsAdded (platform : WheaPlatform) (layout : WheaLayout) (callerId : BitVec 128) :
    List (List (BitVec 8) × WheaArguments) → WheaState → Prop
  | [], _ => True
  | (stack, a) :: calls, s =>
    RecordAdded platform layout (a.record callerId) s (msWheaESAddRecordV0 platform layout callerId stack a s) ∧
      AllRecordsAdded platform layout callerId calls (msWheaESAddRecordV0 platform layout callerId stack a s).2

theorem RecordAdded.valid {record : WheaRecordV0} {r : EfiStatus × WheaState} (hs : platform.Valid layout s)
    (hadded : RecordAdded platform layout record s r) (hfetched : WheaCall.Fetched platform r.2) :
    platform.Valid layout r.2 := by
  rcases hadded.status with hstatus | hstatus
  · have hroom := hadded.success_iff.1 hstatus
    have hactive := hadded.activeRange hstatus
    exact ⟨hfetched, hactive ▸ Nat.dvd_add hs.even layout.entry_even, hactive ▸ hroom⟩
  · have hmem := hadded.full hstatus
    exact ⟨hfetched, hmem ▸ hs.even, hmem ▸ hs.le⟩

/-- **Every call of a run appends its record** and keeps the store valid, or finds it full and leaves it as it is. -/
theorem addRecords_valid (h : platform.Holds layout) (callerId : BitVec 128) (calls : List (List (BitVec 8) × WheaArguments))
    (hs : platform.Valid layout s) : AllRecordsAdded platform layout callerId calls s := by
  induction calls generalizing s with
  | nil => trivial
  | cons call calls ih =>
    obtain ⟨stack, a⟩ := call
    obtain ⟨hadded, hfetched⟩ := addRecord_added h hs stack (a.record callerId)
    exact ⟨hadded, ih (hadded.valid hs hfetched)⟩

/-- A header of a signature, the checksum and a range of 32 bits, and an entry that begins with its revision. -/
def sampleLayout : WheaLayout where
  headerSize := 12
  entrySize := 56
  activeRangeAt := 8
  activeRangeSize := 4
  checksumAt := 4
  entryBytes r := leBytes 4 0 ++ leBytes 4 r.errorStatusValue.toNat ++ leBytes 8 r.additionalInfo1.toNat ++
    leBytes 8 r.additionalInfo2.toNat ++ leBytes 16 r.moduleId.toNat ++ leBytes 16 r.partitionId.toNat
  header_lt := by decide
  header_even := by decide
  entry_lt := by decide
  entry_even := by decide
  entry_pos := by decide
  length_entryBytes _ := by simp
  activeRange_wide := by decide
  activeRange_le := by decide
  checksum_even := by decide
  checksum_le := by decide
  apart := by decide

/-- Four records for a store with room for three. -/
theorem addRecords_valid_four : AllRecordsAdded ⟨0xff#32, 0xff#8, 0x80000000#64⟩ sampleLayout 0
    (List.replicate 4 ([], ⟨1, 2, 3, none, none⟩)) (WheaState.fresh fun _ => 0) :=
  addRecords_valid ⟨by decide, by decide, by decide⟩ 0 _ ⟨.inl rfl, by decide, by decide⟩

end Andromeda
