import AndromedaBoot.BootConfig.Reader
import AndromedaBoot.MemoryMap.Descriptor

/-!
# Memory map records (QcomUefiPlatMemoryMapLib.c)

A record is one line of comma separated fields. The splitter cuts it in place: a `CHAR8 *` into the
record is here the text it points to, up to the NUL that the splitter writes over the comma.

| here | there |
| --- | --- |
| `memoryMapConfigTrimField` | :17 |
| `splitLoop`, `halveQuotes`, `csvField`, `memoryMapConfigSplitCsv` | :37-104 |
| `memoryMapConfigParseUint64` | :108 |
| `hobOptions` … `armAttributes`, `memoryMapConfigParseDescriptor` | :375-521 |
-/

namespace Andromeda

open Slice

def isFieldBlank (c : UInt8) : Bool := c == chSpace || c == chTab

/-- `MemoryMapConfigTrimField` (:17). -/
def memoryMapConfigTrimField (field : Bytes) : Bytes := trim isFieldBlank field

/-! ## `MemoryMapConfigSplitCsv` -/

/-- The first loop (:50-65). `skip` is set on the second quote of a pair, which the source steps over
with `Index++`; `field` is the field being read and `fields` those before it. -/
def splitLoop (expectedFieldCount : Nat) :
    Bytes → Bool → Bool → Bytes → List Bytes → Option (Bool × List Bytes)
  | [], _, inQuotes, field, fields => some (inQuotes, fields ++ [field])
  | c :: t, skip, inQuotes, field, fields =>
    if skip then splitLoop expectedFieldCount t false inQuotes (field ++ [c]) fields
    else if c == chQuote then
      if inQuotes && byteAt t 0 == chQuote then splitLoop expectedFieldCount t true inQuotes (field ++ [c]) fields
      else splitLoop expectedFieldCount t false (!inQuotes) (field ++ [c]) fields
    else if c == chComma && !inQuotes then
      if fields.length + 1 ≥ expectedFieldCount then none
      else splitLoop expectedFieldCount t false inQuotes [] (fields ++ [field])
    else splitLoop expectedFieldCount t false inQuotes (field ++ [c]) fields

/-- The copy loop (:85-91); `copy` is set where the source has stepped over the first quote of a pair. -/
def halveQuotes : Bytes → Bool → Bytes
  | [], _ => []
  | c :: t, copy =>
    if !copy && c == chQuote && byteAt t 0 == chQuote then halveQuotes t true else c :: halveQuotes t false

/-- One field of the second loop (:71-101). -/
def csvField (field : Bytes) : Option Bytes :=
  let field := memoryMapConfigTrimField field
  if byteAt field 0 == chQuote then
    let length := field.length
    if length < 2 ∨ byteAt field (length - 1) ≠ chQuote then none
    else
      let destination := halveQuotes (field.drop 1) false
      if destination = [] then none else some destination.dropLast
  else if chQuote ∈ field then none
  else some field

/-- `MemoryMapConfigSplitCsv` (:37). -/
def memoryMapConfigSplitCsv (record : Bytes) (expectedFieldCount : Nat) :
    Except EfiStatus (List Bytes) :=
  match splitLoop expectedFieldCount record false false [] [] with
  | none => .error .compromisedData
  | some (inQuotes, fields) =>
    if inQuotes ∨ fields.length ≠ expectedFieldCount then .error .compromisedData
    else
      match fields.mapM csvField with
      | none => .error .compromisedData
      | some fields => .ok fields

/-! ## `MemoryMapConfigParseUint64` -/

/-- `MemoryMapConfigParseUint64` (:108): the status and the caller's `*Value`. -/
def memoryMapConfigParseUint64 (text : Bytes) (value : UInt64) : EfiStatus × UInt64 :=
  if text = [] then (.compromisedData, value)
  else
    let (radix, digits) := radixOf text
    if digits = [] then (.compromisedData, value)
    else
      match digitLoop radix digits 0 with
      | none => (.compromisedData, value)
      | some parsedValue => (.success, parsedValue)

/-! ## `MemoryMapConfigParseDescriptor` -/

/-- `HobOptions` (:385). -/
def hobOptions : List (Bytes × HobOption) :=
  [(ascii "NoHob", .noHob), (ascii "AddMem", .addMem), (ascii "AddDev", .addDev),
    (ascii "HobOnlyNoCacheSetting", .hobOnlyNoCacheSetting), (ascii "AllocOnly", .allocOnly)]

/-- `ResourceTypes` and `ParsedResourceType` (:388, :407). -/
def resourceTypes : List (Bytes × ResourceType) :=
  [(ascii "FIRMWARE_DEV", .firmwareDevice), (ascii "IO", .io), (ascii "IO_RES", .ioReserved),
    (ascii "MEM_RES", .memoryReserved), (ascii "MMAP_IO", .memoryMappedIo),
    (ascii "MMAP_IO_PORT", .memoryMappedIoPort), (ascii "SYS_MEM", .systemMemory)]

/-- `ResourceAttributes` and `ParsedResourceAttributes` (:392, :412). -/
def resourceAttributes : List (Bytes × ResourceAttribute) :=
  [(ascii "EXECUTION_PROTECTED", .executionProtected), (ascii "INITIALIZED", .initialized),
    (ascii "PRESENT", .present), (ascii "PROTECTED", .readProtected), (ascii "SYS_MEM_CAP", .sysMemCap),
    (ascii "SYS_MEM_CAP_XN", .sysMemCapXn), (ascii "TESTED", .tested), (ascii "UNCACHEABLE", .uncacheable),
    (ascii "WRITE_COMBINEABLE", .writeCombineable), (ascii "WRITE_PROTECTED", .writeProtected)]

/-- `MemoryTypes` and `ParsedMemoryTypes` (:397, :418). -/
def memoryTypes : List (Bytes × MemoryType) :=
  [(ascii "ACPI_NVS", .acpiMemoryNvs), (ascii "ACPIReclaim", .acpiReclaimMemory),
    (ascii "BsCode", .bootServicesCode), (ascii "BsData", .bootServicesData), (ascii "Conv", .conventionalMemory),
    (ascii "LdCode", .loaderCode), (ascii "LdData", .loaderData), (ascii "MaxMem", .maxMemoryType),
    (ascii "MmIO", .memoryMappedIo), (ascii "MmIOPort", .memoryMappedIoPortSpace), (ascii "PalCode", .palCode),
    (ascii "Reserv", .reservedMemoryType), (ascii "RtCode", .runtimeServicesCode),
    (ascii "RtData", .runtimeServicesData), (ascii "Unusable", .unusableMemory)]

/-- `ArmAttributes` and `ParsedArmAttributes` (:402, :425). -/
def armAttributes : List (Bytes × ArmAttributes) :=
  [(ascii "DEVICE", .device), (ascii "NS_DEVICE", .device), (ascii "NS_UNCACHED_UNBUFFERED", .uncachedUnbuffered),
    (ascii "NS_WRITE_BACK", .writeBack), (ascii "NS_WRITE_THROUGH", .writeThrough),
    (ascii "UNCACHED_UNBUFFERED", .uncachedUnbuffered), (ascii "UNCACHED_UNBUFFERED_XN", .uncachedUnbuffered),
    (ascii "WRITE_BACK", .writeBack), (ascii "WRITE_BACK_XN", .writeBack), (ascii "WRITE_THROUGH", .writeThrough),
    (ascii "WRITE_THROUGH_XN", .writeThrough)]

/-- The search loop shared by the five keyword fields. -/
def keyword {α : Type} (table : List (Bytes × α)) (field : Bytes) : Except EfiStatus α :=
  match table.find? fun row => asciiStriCmp field row.1 == 0 with
  | none => .error .compromisedData
  | some row => .ok row.2

/-- A number field. -/
def numberField (field : Bytes) : Except EfiStatus UInt64 :=
  match memoryMapConfigParseUint64 field 0 with
  | (.success, value) => .ok value
  | (status, _) => .error status

/-- The length field (:460-465): a region is not empty and its end does not wrap. -/
def lengthField (address : UInt64) (field : Bytes) : Except EfiStatus UInt64 :=
  match memoryMapConfigParseUint64 field 0 with
  | (.success, length) =>
    if length = 0 ∨ address > 0xFFFFFFFFFFFFFFFF - length then .error .compromisedData else .ok length
  | (_, _) => .error .compromisedData

/-- The name field (:449-453, :467): not empty, and short enough for `Name` with its terminator. -/
def nameField (field : Bytes) : Except EfiStatus RegionName :=
  let name := cstrAt (memoryMapConfigTrimField field) 0
  if h : name.bytes.length = 0 ∨ name.bytes.length ≥ regionNameMaxLength then .error .compromisedData
  else .ok ⟨name, by omega⟩

/-- `MemoryMapConfigParseDescriptor` (:375). -/
def memoryMapConfigParseDescriptor (record : Bytes) : Except EfiStatus Descriptor := do
  let fields ← memoryMapConfigSplitCsv record 8
  let name ← nameField (fields.getD 2 [])
  let address ← numberField (fields.getD 0 [])
  let length ← lengthField address (fields.getD 1 [])
  let hobOption ← keyword hobOptions (fields.getD 3 [])
  let resourceType ← keyword resourceTypes (fields.getD 4 [])
  let resourceAttribute ← keyword resourceAttributes (fields.getD 5 [])
  let memoryType ← keyword memoryTypes (fields.getD 6 [])
  let armAttributes ← keyword armAttributes (fields.getD 7 [])
  return { name, address, length, hobOption, resourceType, resourceAttribute, memoryType, armAttributes }

/-! ## What the parser accepts -/

theorem bind_eq_ok {ε α β : Type} {x : Except ε α} {f : α → Except ε β} {b : β} :
    x >>= f = .ok b ↔ ∃ a, x = .ok a ∧ f a = .ok b := by
  cases x with
  | error e => simp [bind, Except.bind]
  | ok a => simp [bind, Except.bind]

theorem bind_eq_error {ε α β : Type} {x : Except ε α} {f : α → Except ε β} {e : ε} :
    x >>= f = .error e ↔ x = .error e ∨ ∃ a, x = .ok a ∧ f a = .error e := by
  cases x with
  | error e => simp [bind, Except.bind]
  | ok a => simp [bind, Except.bind]

/-- `MemoryMapConfigSplitCsv` accepts a record that has the expected number of fields, all of them
sound, and no open quote. -/
theorem memoryMapConfigSplitCsv_eq_ok {record : Bytes} {n : Nat} {fields : List Bytes} :
    memoryMapConfigSplitCsv record n = .ok fields ↔
      ∃ raw, splitLoop n record false false [] [] = some (false, raw) ∧ raw.length = n ∧
        raw.mapM csvField = some fields := by
  unfold memoryMapConfigSplitCsv
  cases hloop : splitLoop n record false false [] [] with
  | none => simp
  | some r =>
    obtain ⟨q, raw⟩ := r
    cases q with
    | true => simp
    | false =>
      by_cases hlen : raw.length = n
      · cases hmap : raw.mapM csvField with
        | none => simp [hlen, hmap]
        | some fs => simp [hlen, hmap]
      · simp [hlen]

/-- The fields of a record are made one by one. -/
theorem getElem?_of_mapM {α β : Type} {f : α → Option β} :
    ∀ {xs : List α} {ys : List β}, xs.mapM f = some ys →
    ∀ {i : Nat} {x : α}, xs[i]? = some x → ∃ y, f x = some y ∧ ys[i]? = some y
  | [], _, _, i, x, hx => by simp at hx
  | a :: xs, ys, h, i, x, hx => by
    rw [List.mapM_cons] at h
    obtain ⟨b, hb, h⟩ := Option.bind_eq_some_iff.1 h
    obtain ⟨bs, hbs, h⟩ := Option.bind_eq_some_iff.1 h
    obtain rfl : b :: bs = ys := by simpa using h
    cases i with
    | zero =>
      obtain rfl : a = x := by simpa using hx
      exact ⟨b, hb, rfl⟩
    | succ i => exact getElem?_of_mapM hbs (by simpa using hx)

theorem lengthField_eq_ok {address length : UInt64} {field : Bytes} :
    lengthField address field = .ok length ↔
      numberField field = .ok length ∧ length ≠ 0 ∧ address ≤ 0xFFFFFFFFFFFFFFFF - length := by
  unfold lengthField numberField
  generalize memoryMapConfigParseUint64 field 0 = r
  obtain ⟨status, value⟩ := r
  cases status with
  | success =>
    simp only [Except.ok.injEq]
    split_ifs with hbad
    · simp only [false_iff]
      rintro ⟨rfl, h1, h2⟩
      exact hbad.elim h1 fun h => absurd h2 (UInt64.not_le.2 h)
    · simp only [not_or, UInt64.not_lt] at hbad
      simp only [Except.ok.injEq]
      constructor
      · rintro rfl
        exact ⟨rfl, hbad⟩
      · exact fun h => h.1
  | _ => simp

/-- `MemoryMapConfigParseDescriptor` accepts a record exactly when every field has its form, and then
the descriptor is made of the fields. -/
theorem memoryMapConfigParseDescriptor_eq_ok {record : Bytes} {d : Descriptor} :
    memoryMapConfigParseDescriptor record = .ok d ↔
      ∃ fields, memoryMapConfigSplitCsv record 8 = .ok fields ∧
        nameField (fields.getD 2 []) = .ok d.name ∧
        numberField (fields.getD 0 []) = .ok d.address ∧
        numberField (fields.getD 1 []) = .ok d.length ∧
        d.Valid ∧
        keyword hobOptions (fields.getD 3 []) = .ok d.hobOption ∧
        keyword resourceTypes (fields.getD 4 []) = .ok d.resourceType ∧
        keyword resourceAttributes (fields.getD 5 []) = .ok d.resourceAttribute ∧
        keyword memoryTypes (fields.getD 6 []) = .ok d.memoryType ∧
        keyword armAttributes (fields.getD 7 []) = .ok d.armAttributes := by
  unfold memoryMapConfigParseDescriptor
  constructor
  · intro h
    obtain ⟨fields, hf, h⟩ := bind_eq_ok.1 h
    obtain ⟨name, hn, h⟩ := bind_eq_ok.1 h
    obtain ⟨address, ha, h⟩ := bind_eq_ok.1 h
    obtain ⟨length, hl, h⟩ := bind_eq_ok.1 h
    obtain ⟨hobOption, h3, h⟩ := bind_eq_ok.1 h
    obtain ⟨resourceType, h4, h⟩ := bind_eq_ok.1 h
    obtain ⟨resourceAttribute, h5, h⟩ := bind_eq_ok.1 h
    obtain ⟨memoryType, h6, h⟩ := bind_eq_ok.1 h
    obtain ⟨arm, h7, h⟩ := bind_eq_ok.1 h
    obtain rfl := Except.ok.inj h
    obtain ⟨hl1, hl2, hl3⟩ := lengthField_eq_ok.1 hl
    exact ⟨fields, hf, hn, ha, hl1, ⟨hl2, hl3⟩, h3, h4, h5, h6, h7⟩
  · rintro ⟨fields, hf, hn, ha, hl, hvalid, h3, h4, h5, h6, h7⟩
    have hlength := lengthField_eq_ok.2 ⟨hl, hvalid.pos, hvalid.noWrap⟩
    simp only [hf, hn, ha, hlength, h3, h4, h5, h6, h7, bind, Except.bind, pure, Except.pure]

/-- A descriptor that comes out of a record is valid. -/
theorem memoryMapConfigParseDescriptor_valid {record : Bytes} {d : Descriptor}
    (h : memoryMapConfigParseDescriptor record = .ok d) : d.Valid := by
  obtain ⟨_, -, -, -, -, hvalid, -⟩ := memoryMapConfigParseDescriptor_eq_ok.1 h
  exact hvalid

theorem keyword_error {α : Type} {table : List (Bytes × α)} {field : Bytes} {s : EfiStatus}
    (h : keyword table field = .error s) : s = .compromisedData := by
  unfold keyword at h
  split at h
  · exact (Except.error.inj h).symm
  · simp at h

/-- A text is a number, whatever the caller's variable holds, or is refused and leaves it alone. -/
theorem parseUint64_cases (v : Bytes) : (∃ n, ∀ value, memoryMapConfigParseUint64 v value = (.success, n)) ∨
    ∀ value, memoryMapConfigParseUint64 v value = (.compromisedData, value) := by
  unfold memoryMapConfigParseUint64
  by_cases hnil : v = []
  · exact .inr fun value => if_pos hnil
  · by_cases hdigits : (radixOf v).2 = []
    · exact .inr fun value => by simp only [hnil, hdigits, if_true, if_false]
    · cases hloop : digitLoop (radixOf v).1 (radixOf v).2 0 with
      | none => exact .inr fun value => by simp only [hnil, hdigits, hloop, if_false]
      | some n => exact .inl ⟨n, fun value => by simp only [hnil, hdigits, hloop, if_false]⟩

theorem memoryMapConfigParseUint64_status (text : Bytes) (value : UInt64) :
    (memoryMapConfigParseUint64 text value).1 = .success ∨
      (memoryMapConfigParseUint64 text value).1 = .compromisedData := by
  rcases parseUint64_cases text with ⟨n, hn⟩ | hnone
  · exact .inl (by rw [hn])
  · exact .inr (by rw [hnone])

theorem numberField_error {field : Bytes} {s : EfiStatus} (h : numberField field = .error s) :
    s = .compromisedData := by
  have hstatus := memoryMapConfigParseUint64_status field 0
  unfold numberField at h
  generalize memoryMapConfigParseUint64 field 0 = r at h hstatus
  obtain ⟨status, value⟩ := r
  rcases hstatus with rfl | rfl
  · simp at h
  · exact (Except.error.inj h).symm

theorem lengthField_error {address : UInt64} {field : Bytes} {s : EfiStatus}
    (h : lengthField address field = .error s) : s = .compromisedData := by
  unfold lengthField at h
  split at h
  · split_ifs at h
    exact (Except.error.inj h).symm
  · exact (Except.error.inj h).symm

/-- Every record is refused with the same status. -/
theorem memoryMapConfigParseDescriptor_error {record : Bytes} {s : EfiStatus}
    (h : memoryMapConfigParseDescriptor record = .error s) : s = .compromisedData := by
  unfold memoryMapConfigParseDescriptor at h
  rcases bind_eq_error.1 h with h | ⟨fields, -, h⟩
  · unfold memoryMapConfigSplitCsv at h
    split at h
    · exact (Except.error.inj h).symm
    · split_ifs at h
      · exact (Except.error.inj h).symm
      · split at h
        · exact (Except.error.inj h).symm
        · simp at h
  rcases bind_eq_error.1 h with h | ⟨name, -, h⟩
  · unfold nameField at h
    simp only at h
    split_ifs at h
    exact (Except.error.inj h).symm
  rcases bind_eq_error.1 h with h | ⟨address, -, h⟩
  · exact numberField_error h
  rcases bind_eq_error.1 h with h | ⟨length, -, h⟩
  · exact lengthField_error h
  rcases bind_eq_error.1 h with h | ⟨_, -, h⟩
  · exact keyword_error h
  rcases bind_eq_error.1 h with h | ⟨_, -, h⟩
  · exact keyword_error h
  rcases bind_eq_error.1 h with h | ⟨_, -, h⟩
  · exact keyword_error h
  rcases bind_eq_error.1 h with h | ⟨_, -, h⟩
  · exact keyword_error h
  rcases bind_eq_error.1 h with h | ⟨_, -, h⟩
  · exact keyword_error h
  simp [pure, Except.pure] at h

end Andromeda
