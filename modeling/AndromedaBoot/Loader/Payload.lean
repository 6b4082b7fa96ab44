import AndromedaBoot.Efi
import AndromedaBoot.Lib.Arm64Assemble

/-!
# The payload behind a loader

What a loader copies to `UEFI_BASE`: a shim of one page, the firmware, its configuration and zeros. The shim tells
the firmware where the configuration is and how long it is, so it is assembled anew for every configuration.

| here | there |
| --- | --- |
| `buildAppendablePayload`, `PayloadError` | `BootConfig/build_appendable_payload.sh` |
| `ConfigShim.words`, `ConfigShim.binary` | `BootConfig/BootConfigShim.S` with `BootConfig/Makefile` |
| `LoaderTarget.payload` | `build_appendable_payload_epsilon.sh` and the same for Zeta |
| `epsilon` | the sizes and addresses there and in `build_bootshim_epsilon.sh` |
-/

namespace Andromeda

open Arm64 ByteMemory

/-! ## The shim of the configuration -/

/-- What `make` hands the assembler. -/
structure ConfigShim where
  uefiFdBase : Nat
  uefiFdSize : Nat
  bootConfigShimSize : Nat
  bootConfigSize : Nat

/-- The halves of the low 32 bits. -/
def low16 (v : Nat) : BitVec 16 := BitVec.ofNat 16 (v &&& 0xFFFF)
def high16 (v : Nat) : BitVec 16 := BitVec.ofNat 16 ((v >>> 16) &&& 0xFFFF)

namespace ConfigShim

variable (c : ConfigShim)

/-- `_BootConfigShimEntry` (:4-11). -/
def words : List (BitVec 32) := [
  moveWide false 0 (low16 (c.uefiFdBase + c.uefiFdSize)) 0, moveWide true 0 (high16 (c.uefiFdBase + c.uefiFdSize)) 1,
  moveWide false 1 (low16 c.bootConfigSize) 0, moveWide true 1 (high16 c.bootConfigSize) 1,
  moveWide false 9 (low16 c.uefiFdBase) 0, moveWide true 9 (high16 c.uefiFdBase) 1,
  branchRegister 9]

/-- The binary, which `.space` fills up (:14). -/
def binary : Bytes :=
  (assemble c.words).map UInt8.ofBitVec ++ List.replicate (c.bootConfigShimSize - 4 * c.words.length) 0

def code : List Instr := [
  .movz .x .x0 (low16 (c.uefiFdBase + c.uefiFdSize)) 0, .movk .x .x0 (high16 (c.uefiFdBase + c.uefiFdSize)) 1,
  .movz .x .x1 (low16 c.bootConfigSize) 0, .movk .x .x1 (high16 c.bootConfigSize) 1,
  .movz .x .x9 (low16 c.uefiFdBase) 0, .movk .x .x9 (high16 c.uefiFdBase) 1,
  .br .x9]

@[simp] theorem length_words : c.words.length = 7 := rfl

theorem length_binary (h : 28 ≤ c.bootConfigShimSize) : c.binary.length = c.bootConfigShimSize := by
  rw [binary, List.length_append, List.length_map, length_assemble, List.length_replicate, length_words]
  omega

theorem decode_words : c.words.mapM decode = some c.code := by
  simp only [words, List.mapM_cons, decode_moveWide, decode_branchRegister, List.mapM_nil]
  rfl

end ConfigShim

theorem low16_eq (v : Nat) : low16 v = (BitVec.ofNat 64 v).extractLsb' 0 16 := by
  apply BitVec.eq_of_toNat_eq
  rw [low16, BitVec.toNat_ofNat, BitVec.extractLsb'_toNat, BitVec.toNat_ofNat, Nat.shiftRight_zero,
    Nat.and_two_pow_sub_one_eq_mod v 16]
  omega

theorem high16_eq {v : Nat} (h : v < 2 ^ 32) : high16 v = (BitVec.ofNat 64 v).extractLsb' 16 16 := by
  apply BitVec.eq_of_toNat_eq
  rw [high16, BitVec.toNat_ofNat, BitVec.extractLsb'_toNat, BitVec.toNat_ofNat, Nat.shiftRight_eq_div_pow,
    Nat.shiftRight_eq_div_pow, Nat.and_two_pow_sub_one_eq_mod _ 16]
  omega

/-- A pair of `movz` and `movk`. -/
theorem movk_movz {v : Nat} (h : v < 2 ^ 32) :
    (low16 v).setWidth 64 &&& 0xFFFFFFFF0000FFFF#64 ||| (high16 v).setWidth 64 <<< 16 = BitVec.ofNat 64 v := by
  have htop (i : Nat) (hi : 32 ≤ i) : (BitVec.ofNat 64 v).getLsbD i = false := by
    rw [BitVec.getLsbD_ofNat, Nat.testBit_lt_two_pow (h.trans_le (Nat.pow_le_pow_right (by decide) hi)), Bool.and_false]
  rw [low16_eq, high16_eq h]
  ext i hi
  rw [← BitVec.getLsbD_eq_getElem, ← BitVec.getLsbD_eq_getElem]
  by_cases h32 : i < 32
  · interval_cases i <;> simp
  · rw [htop i (by omega)]
    interval_cases i <;> simp

/-- The shim leaves the place and the size of the configuration in `x0` and `x1` and jumps to the firmware. -/
theorem ConfigShim.run {c : ConfigShim} {s : Cpu} (hload : Loaded s.mem s.pc 0 c.code)
    (hfd : c.uefiFdBase + c.uefiFdSize < 2 ^ 32) (hconfig : c.bootConfigSize < 2 ^ 32) :
    Reaches (fun t => t.pc = BitVec.ofNat 64 c.uefiFdBase ∧ t.mem = s.mem ∧
      t.x .x0 = BitVec.ofNat 64 (c.uefiFdBase + c.uefiFdSize) ∧ t.x .x1 = BitVec.ofNat 64 c.bootConfigSize) s := by
  refine .block 0 c.code hload (by decide) (BitVec.add_zero _).symm rfl rfl (.here ⟨?_, ?_, ?_, ?_⟩)
  · simp [code, movk_movz (v := c.uefiFdBase) (by omega)]
  · simp [code]
  · simp [code, movk_movz hfd]
  · simp [code, movk_movz hconfig]

/-! ## The packager -/

/-- Why the script exits. -/
inductive PayloadError
  | emptyFirmware
  | firmwareSize (actual expected : Nat)
  | configShimSize (actual : Nat)
  | configSize (actual : Nat)
  | notUtf8
  | nulByte
  | payloadSize (content capacity : Nat)
deriving DecidableEq, Repr

/-- `0x%x`. -/
def hex (n : Nat) : String := "0x" ++ String.ofList (Nat.toDigits 16 n)

/-- What it prints. -/
def PayloadError.message : PayloadError → String
  | emptyFirmware => "Firmware file must not be empty"
  | firmwareSize actual expected => "Firmware size " ++ hex actual ++ " does not match expected size " ++ hex expected
  | configShimSize actual => "Config shim must be 4096 bytes; got " ++ toString actual
  | configSize actual => "Config file must not exceed 65535 bytes; got " ++ toString actual
  | notUtf8 => "Config file must be UTF-8 plain text"
  | nulByte => "Config file must not contain NUL bytes"
  | payloadSize content capacity => "Payload size " ++ hex content ++ " exceeds loader capacity " ++ hex capacity

/-- The checks in their order and the output (:39-77); `iconv` says whether the text converts. -/
def buildAppendablePayload (iconv : Bytes → Bool) (firmware configShim config : Bytes) (firmwareSize payloadSize : Nat) :
    Except PayloadError Bytes :=
  if firmware.length = 0 then .error .emptyFirmware
  else if firmware.length ≠ firmwareSize then .error (.firmwareSize firmware.length firmwareSize)
  else if configShim.length ≠ 4096 then .error (.configShimSize configShim.length)
  else if config.length > 65535 then .error (.configSize config.length)
  else if iconv config = false then .error .notUtf8
  else if (config.filter (· ≠ 0)).length ≠ config.length then .error .nulByte
  else
    let contentSize := configShim.length + firmware.length + config.length
    if contentSize > payloadSize then .error (.payloadSize contentSize payloadSize)
    else .ok (configShim ++ firmware ++ config ++ List.replicate (payloadSize - contentSize) 0)

/-- A payload the script writes. -/
structure Packed (iconv : Bytes → Bool) (firmware configShim config : Bytes) (firmwareSize payloadSize : Nat)
    (payload : Bytes) : Prop where
  firmware_ne : firmware ≠ []
  firmware_size : firmware.length = firmwareSize
  shim_size : configShim.length = 4096
  config_size : config.length ≤ 65535
  utf8 : iconv config = true
  noNul : (0 : UInt8) ∉ config
  content : 4096 + firmwareSize + config.length ≤ payloadSize
  layout : payload = configShim ++ firmware ++ config ++ List.replicate (payloadSize - (4096 + firmwareSize + config.length)) 0

theorem length_filter_ne_zero {config : Bytes} : (config.filter (· ≠ 0)).length = config.length ↔ (0 : UInt8) ∉ config := by
  rw [List.length_filter_eq_length_iff]
  simp only [ne_eq, decide_eq_true_eq]
  exact ⟨fun h h0 => h 0 h0 rfl, fun h x hx h0 => h (h0 ▸ hx)⟩

/-- **The packager accepts** just what can be laid out, and lays it out so. -/
theorem buildAppendablePayload_eq_ok {iconv : Bytes → Bool} {firmware configShim config payload : Bytes}
    {firmwareSize payloadSize : Nat} :
    buildAppendablePayload iconv firmware configShim config firmwareSize payloadSize = .ok payload ↔
      Packed iconv firmware configShim config firmwareSize payloadSize payload := by
  unfold buildAppendablePayload
  dsimp only
  constructor
  · intro h
    split_ifs at h with hfirmware hsize hshim hconfig hutf8 hnul hcontent
    rw [not_not] at hsize hshim hnul
    rw [hsize, hshim] at h hcontent
    refine ⟨by simpa using hfirmware, hsize, hshim, by omega, by simpa using hutf8, length_filter_ne_zero.1 hnul,
      by omega, ?_⟩
    exact (Except.ok.inj h).symm
  · intro h
    have hnul := length_filter_ne_zero.2 h.noNul
    have hsize := h.config_size
    have hcontent := h.content
    have hfirmware : firmware.length ≠ 0 := by simpa using h.firmware_ne
    rw [if_neg hfirmware, if_neg (not_not.2 h.firmware_size), if_neg (not_not.2 h.shim_size), if_neg (by omega),
      if_neg (by simp [h.utf8]), if_neg (not_not.2 hnul), h.firmware_size, h.shim_size, if_neg (by omega), ← h.layout]

/-! ## A device -/

/-- The addresses and sizes of a device, as its build scripts repeat them. -/
structure LoaderTarget where
  uefiBase : Nat
  uefiSize : Nat
  uefiFdBase : Nat
  uefiFdSize : Nat
  payloadSize : Nat

def epsilon : LoaderTarget := ⟨0x9FC00000, 0x00300000, 0x9FC01000, 0x002EF000, 0x00300000⟩

namespace LoaderTarget

variable (target : LoaderTarget)

def configShim (config : Bytes) : ConfigShim := ⟨target.uefiFdBase, target.uefiFdSize, 0x1000, config.length⟩

/-- The shim is made for the configuration and packed with it. -/
def payload (iconv : Bytes → Bool) (firmware config : Bytes) : Except PayloadError Bytes :=
  buildAppendablePayload iconv firmware (target.configShim config).binary config target.uefiFdSize target.payloadSize

/-- The scripts of a device agree. -/
structure Consistent : Prop where
  size : target.payloadSize = target.uefiSize
  fdBase : target.uefiFdBase = target.uefiBase + 0x1000
  inFourGiB : target.uefiBase + target.uefiSize < 2 ^ 32

theorem consistent_epsilon : epsilon.Consistent := ⟨by decide, by decide, by decide⟩

end LoaderTarget

end Andromeda
