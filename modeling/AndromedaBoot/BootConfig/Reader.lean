import AndromedaBoot.BootConfig.Text
import AndromedaBoot.Lib.Lines

/-!
# The boot configuration reader (AndromedaBootConfigLib.c)

The INI text lives in a buffer during SEC and in a GUID HOB later; the accessors scan it from the
first byte on every call.

| here | there |
| --- | --- |
| `BootConfig` | `gAndromedaBootConfigBuffer`, `gAndromedaBootConfigBufferSize` and the HOB list |
| `setAndromedaBootConfigBuffer`, `getBootConfig` | :64, :152 |
| `sectionHeader` | the header branch both accessors share (:252-286, :507-541) |
| `valueLine`, `getAndromedaBootConfigValue` | the loop body and the function (:186-347) |
| `digitLoop`, `getAndromedaBootConfigUint64`, `getAndromedaBootConfigUint32` | :349-447 |
| `entryLine`, `getAndromedaBootConfigSectionEntry` | the loop body and the function (:449-570) |

A pointer argument is an `Option`: `none` is `NULL`. A buffer with its capacity is the list of bytes
it holds and the number the caller passes in `*ValueSize`; both come back in the `Access` record.
-/

namespace Andromeda

open Slice Lines

/-- `ANDROMEDA_BOOT_CONFIG_MAX_SIZE` (Guid/AndromedaBootConfig.h:10). -/
def bootConfigMaxSize : Nat := 0xFFFF

/-- A GUID HOB as the reader sees it: `GET_GUID_HOB_DATA_SIZE` and the memory behind the header,
which does not end where the HOB does. -/
structure GuidHob where
  dataSize : Nat
  data : Nat → UInt8

/-- Where the reader finds the configuration. -/
structure BootConfig where
  /-- `gAndromedaBootConfigBuffer` with the `gAndromedaBootConfigBufferSize` bytes it points to. -/
  buffer : Option Bytes
  /-- What `GetFirstGuidHob (&gAndromedaBootConfigHobGuid)` returns. -/
  hob : Option GuidHob

/-- `SetAndromedaBootConfigBuffer` (:64). -/
def setAndromedaBootConfigBuffer (st : BootConfig) (config : Option Bytes) : EfiStatus × BootConfig :=
  match config with
  | none => (.invalidParameter, { st with buffer := none })
  | some config =>
    if config.length = 0 then (.invalidParameter, { st with buffer := none })
    else if config.length > bootConfigMaxSize then (.compromisedData, { st with buffer := none })
    else if config.any (· == 0) then (.compromisedData, { st with buffer := none })
    else (.success, { st with buffer := some config })

/-- `GetBootConfig` (:152). -/
def getBootConfig (st : BootConfig) : Except EfiStatus Bytes :=
  match st.buffer with
  | some config =>
    if config.length = 0 ∨ config.length > bootConfigMaxSize then .error .compromisedData else .ok config
  | none =>
    match st.hob with
    | none => .error .notFound
    | some hob =>
      if hob.dataSize = 0 ∨ hob.dataSize > bootConfigMaxSize then .error .compromisedData
      else .ok ((List.range hob.dataSize).map hob.data)

/-- What an accessor leaves behind: its status, the caller's buffer and the caller's size variable. -/
structure Access where
  status : EfiStatus
  buffer : Option Bytes
  size : Option Nat
deriving DecidableEq, Repr

/-- The common end of both accessors: report the required size, or copy the range and a NUL. -/
def copyRange (config : Bytes) (start end_ : Nat) (buffer : Option Bytes) (capacity : Nat) : Access :=
  let requiredSize := end_ - start + 1
  if capacity < requiredSize then ⟨.bufferTooSmall, buffer, some requiredSize⟩
  else ⟨.success, buffer.map fun b => slice config start end_ ++ 0 :: b.drop requiredSize,
    some requiredSize⟩

/-- A line that starts with `[`: the index range of the section name, `none` when the header is
malformed. -/
def sectionHeader (config : Bytes) (contentStart contentEnd : Nat) : Option (Nat × Nat) :=
  let sectionStart := contentStart + 1
  let sectionEnd := skipWhile (· != chClose) config sectionStart contentEnd
  if sectionEnd == contentEnd then none
  else
    let sectionClose := sectionEnd
    let name := trimRange config sectionStart sectionEnd
    let commentStart := skipWhile isConfigSpace config (sectionClose + 1) contentEnd
    if commentStart < contentEnd ∧ byteAt config commentStart ≠ chHash ∧
        byteAt config commentStart ≠ chSemicolon then none
    else some name

/-! ## `GetAndromedaBootConfigValue` -/

structure ValueScan where
  inRequestedSection : Bool
  found : Bool
  matchedValueStart : Nat
  matchedValueEnd : Nat
deriving DecidableEq, Repr

/-- The body of the line loop (:247-326); an error leaves the function. -/
def valueLine (config : Bytes) (section_ key : CStr) (lineStart lineEnd : Nat) (s : ValueScan) :
    Except EfiStatus ValueScan :=
  let (contentStart, contentEnd) := trimRange config lineStart lineEnd
  if contentStart < contentEnd then
    let c := byteAt config contentStart
    if c != chHash && c != chSemicolon then
      if c == chOpen then
        match sectionHeader config contentStart contentEnd with
        | none => .error .compromisedData
        | some (sectionStart, sectionEnd) =>
          .ok { s with inRequestedSection := rangeEqualsString config sectionStart (sectionEnd - sectionStart) section_ }
      else
        let keyEnd := skipWhile (· != chEquals) config contentStart contentEnd
        if keyEnd == contentEnd then .ok s
        else
          let valueStart := keyEnd + 1
          let (keyStart, keyEnd) := trimRange config contentStart keyEnd
          if keyStart == keyEnd then .error .compromisedData
          else
            let (valueStart, valueEnd) := trimRange config valueStart contentEnd
            let commentStart := trimInlineComment config valueStart valueEnd
            let (valueStart, valueEnd) := trimRange config valueStart commentStart
            if s.inRequestedSection && rangeEqualsString config keyStart (keyEnd - keyStart) key then
              if s.found then .error .compromisedData
              else .ok { s with found := true, matchedValueStart := valueStart, matchedValueEnd := valueEnd }
            else .ok s
    else .ok s
  else .ok s

/-- `GetAndromedaBootConfigValue` (:186). -/
def getAndromedaBootConfigValue (st : BootConfig) (section_ key : Option CStr) (value : Option Bytes)
    (valueSize : Option Nat) : Access :=
  match section_, key, valueSize with
  | some section_, some key, some capacity =>
    if key.bytes = [] then ⟨.invalidParameter, value, some capacity⟩
    else if capacity > 0 ∧ value = none then ⟨.invalidParameter, value, some capacity⟩
    else
      match getBootConfig st with
      | .error status => ⟨status, value, some 0⟩
      | .ok config =>
        if config.any (· == 0) then ⟨.compromisedData, value, some 0⟩
        else
          match lineLoop chLf config (valueLine config section_ key) config.length 0
              ⟨byteAt section_.bytes 0 == 0, false, 0, 0⟩ with
          | .error status => ⟨status, value, some 0⟩
          | .ok s =>
            if s.found then copyRange config s.matchedValueStart s.matchedValueEnd value capacity
            else ⟨.notFound, value, some 0⟩
  | _, _, _ => ⟨.invalidParameter, value, valueSize⟩

/-! ## `GetAndromedaBootConfigUint64` and `GetAndromedaBootConfigUint32` -/

/-- One digit in the given radix (:396-410); `none` is the source's final `else`. -/
def digitOf (radix : UInt64) (c : UInt8) : Option UInt64 :=
  if 0x30 ≤ c ∧ c ≤ 0x39 then some (c - 0x30).toUInt64
  else if radix = 16 ∧ 0x61 ≤ c ∧ c ≤ 0x66 then some ((c - 0x61).toUInt64 + 10)
  else if radix = 16 ∧ 0x41 ≤ c ∧ c ≤ 0x46 then some ((c - 0x41).toUInt64 + 10)
  else none

/-- The digit loop (:394-418), also that of `MemoryMapConfigParseUint64`; `none` is
`EFI_COMPROMISED_DATA`. -/
def digitLoop (radix : UInt64) : Bytes → UInt64 → Option UInt64
  | [], parsedValue => some parsedValue
  | c :: t, parsedValue =>
    match digitOf radix c with
    | none => none
    | some digit =>
      if digit ≥ radix ∨ parsedValue > (0xFFFFFFFFFFFFFFFF - digit) / radix then none
      else digitLoop radix t (parsedValue * radix + digit)

/-- `0x` or `0X` selects radix 16; the number is what follows. -/
def radixOf (text : Bytes) : UInt64 × Bytes :=
  if byteAt text 0 = 0x30 ∧ (byteAt text 1 = 0x78 ∨ byteAt text 1 = 0x58) then (16, text.drop 2) else (10, text)

/-- `GetAndromedaBootConfigUint64` (:349): the status and the caller's `*Value`. -/
def getAndromedaBootConfigUint64 (st : BootConfig) (section_ key : Option CStr)
    (value : Option UInt64) :
    EfiStatus × Option UInt64 :=
  if value = none then (.invalidParameter, value)
  else
    let stringValue := List.replicate 32 0
    let r := getAndromedaBootConfigValue st section_ key (some stringValue) (some 32)
    if r.status ≠ .success then (r.status, value)
    else
      let text := (cstrAt (r.buffer.getD []) 0).bytes
      let (radix, digits) := radixOf text
      if digits = [] then (.compromisedData, value)
      else
        match digitLoop radix digits 0 with
        | none => (.compromisedData, value)
        | some parsedValue => (.success, some parsedValue)

/-- `GetAndromedaBootConfigUint32` (:423). -/
def getAndromedaBootConfigUint32 (st : BootConfig) (section_ key : Option CStr)
    (value : Option UInt32) :
    EfiStatus × Option UInt32 :=
  if value = none then (.invalidParameter, value)
  else
    match getAndromedaBootConfigUint64 st section_ key (some 0) with
    | (.success, some parsedValue) =>
      if parsedValue > 0xFFFFFFFF then (.compromisedData, value) else (.success, some parsedValue.toUInt32)
    | (status, _) => (status, value)

/-! ## `GetAndromedaBootConfigSectionEntry` -/

structure EntryScan where
  inRequestedSection : Bool
  currentIndex : Nat
deriving DecidableEq, Repr

/-- How the entry scan can leave its loop. -/
inductive EntryExit
  | malformedHeader
  | entry (contentStart contentEnd : Nat)
deriving DecidableEq, Repr

/-- The body of the line loop (:502-563). -/
def entryLine (config : Bytes) (section_ : CStr) (entryIndex : Nat) (lineStart lineEnd : Nat)
    (s : EntryScan) :
    Except EntryExit EntryScan :=
  let (contentStart, contentEnd) := trimRange config lineStart lineEnd
  if contentStart < contentEnd then
    let c := byteAt config contentStart
    if c != chHash && c != chSemicolon then
      if c == chOpen then
        match sectionHeader config contentStart contentEnd with
        | none => .error .malformedHeader
        | some (sectionStart, sectionEnd) =>
          .ok { s with inRequestedSection := rangeEqualsString config sectionStart (sectionEnd - sectionStart) section_ }
      else if s.inRequestedSection then
        let contentEnd := trimInlineComment config contentStart contentEnd
        let (contentStart, contentEnd) := trimRange config contentStart contentEnd
        if contentStart < contentEnd then
          if s.currentIndex == entryIndex then .error (.entry contentStart contentEnd)
          else .ok { s with currentIndex := s.currentIndex + 1 }
        else .ok s
      else .ok s
    else .ok s
  else .ok s

/-- `GetAndromedaBootConfigSectionEntry` (:449). -/
def getAndromedaBootConfigSectionEntry (st : BootConfig) (section_ : Option CStr) (entryIndex : Nat)
    (entry : Option Bytes) (entrySize : Option Nat) : Access :=
  match section_, entrySize with
  | some section_, some capacity =>
    if capacity > 0 ∧ entry = none then ⟨.invalidParameter, entry, some capacity⟩
    else
      match getBootConfig st with
      | .error status => ⟨status, entry, some 0⟩
      | .ok config =>
        if config.any (· == 0) then ⟨.compromisedData, entry, some 0⟩
        else
          match lineLoop chLf config (entryLine config section_ entryIndex) config.length 0
              ⟨byteAt section_.bytes 0 == 0, 0⟩ with
          | .error .malformedHeader => ⟨.compromisedData, entry, some 0⟩
          | .error (.entry contentStart contentEnd) => copyRange config contentStart contentEnd entry capacity
          | .ok _ => ⟨.notFound, entry, some 0⟩
  | _, _ => ⟨.invalidParameter, entry, entrySize⟩

/-! ## Accepted texts -/

/-- The texts `SetAndromedaBootConfigBuffer` accepts. -/
@[ext]
structure ConfigText where
  bytes : Bytes
  nonempty : bytes ≠ []
  size_le : bytes.length ≤ bootConfigMaxSize
  noNul : (0 : UInt8) ∉ bytes
deriving Repr

instance : DecidableEq ConfigText := fun a b => decidable_of_iff (a.bytes = b.bytes) ConfigText.ext_iff.symm

/-- The reader's state once a text has been accepted (SEC). -/
def ConfigText.installed (c : ConfigText) : BootConfig := ⟨some c.bytes, none⟩

theorem any_eq_zero_iff {b : Bytes} : b.any (· == 0) = true ↔ (0 : UInt8) ∈ b := by
  simp only [List.any_eq_true, beq_iff_eq]
  constructor
  · rintro ⟨x, hx, rfl⟩
    exact hx
  · exact fun h => ⟨0, h, rfl⟩

/-- `SetAndromedaBootConfigBuffer` accepts exactly these texts and installs them. -/
theorem setAndromedaBootConfigBuffer_success_iff {st st' : BootConfig} {config : Option Bytes} :
    setAndromedaBootConfigBuffer st config = (.success, st') ↔
      ∃ c : ConfigText, config = some c.bytes ∧ st' = { st with buffer := some c.bytes } := by
  constructor
  · intro h
    cases config with
    | none => simp [setAndromedaBootConfigBuffer] at h
    | some b =>
      simp only [setAndromedaBootConfigBuffer] at h
      split_ifs at h with h1 h2 h3
      · simp at h
      · simp at h
      · simp at h
      · simp only [Prod.mk.injEq, true_and] at h
        refine ⟨⟨b, fun hb => h1 (by simp [hb]), by omega, fun h0 => h3 (any_eq_zero_iff.2 h0)⟩, rfl,
          h.symm⟩
  · rintro ⟨c, rfl, rfl⟩
    have h1 : c.bytes.length ≠ 0 := by simpa using c.nonempty
    have h2 := c.size_le
    have h3 : ¬ c.bytes.any (· == 0) = true := fun h => c.noNul (any_eq_zero_iff.1 h)
    simp only [setAndromedaBootConfigBuffer]
    rw [if_neg h1, if_neg (by omega), if_neg h3]

theorem ConfigText.getBootConfig_installed (c : ConfigText) :
    getBootConfig c.installed = .ok c.bytes := by
  have h1 : c.bytes.length ≠ 0 := by simpa using c.nonempty
  have h2 := c.size_le
  simp only [getBootConfig, ConfigText.installed]
  rw [if_neg (by omega)]

end Andromeda
