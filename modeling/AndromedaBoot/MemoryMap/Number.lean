import AndromedaBoot.BootConfig.Agree
import AndromedaBoot.MemoryMap.Numeral

/-!
# Numbers of the boot configuration and of the memory map

`GetAndromedaBootConfigUint64` (AndromedaBootConfigLib.c:349) and `MemoryMapConfigParseUint64`
(QcomUefiPlatMemoryMapLib.c:108) read the same numerals. The first has the value copied to `StringValue`, an array of 32
bytes, before it looks at the digits; the second reads the text where it stands. So `sameNumbers_iff` turns on the length of
the value, and in a text with an error elsewhere, for which the first reader refuses every key, on whether it is a numeral.
-/

namespace Andromeda

open Slice Lines

variable {c : ConfigText} {section_ key : CStr} {v : Bytes}

/-! ## The value that is read -/

/-- The first reader on a value that fits. -/
theorem getUint64_of_fits (h : ReturnsValue c section_ key v) (hlen : v.length < 32) (value : UInt64) :
    getAndromedaBootConfigUint64 c.installed (some section_) (some key) (some value) =
      ((memoryMapConfigParseUint64 v value).1, some (memoryMapConfigParseUint64 v value).2) := by
  rw [getAndromedaBootConfigUint64, if_neg (by simp)]
  simp only [h (List.replicate 32 0) 32 hlen, ne_eq, not_true_eq_false, if_false, Option.getD_some, cstrAt_copied h.noNul]
  unfold memoryMapConfigParseUint64
  by_cases hnil : v = []
  · subst hnil
    rfl
  · rw [if_neg hnil]
    by_cases hdigits : (radixOf v).2 = []
    · simp only [hdigits, if_true]
    · simp only [hdigits, if_false]
      cases digitLoop (radixOf v).1 (radixOf v).2 0 <;> rfl

/-- What keeps the value from `StringValue` is what the first reader answers. -/
theorem getUint64_of_error {status : EfiStatus} (hne : status ≠ .success)
    (h : (getAndromedaBootConfigValue c.installed (some section_) (some key) (some (List.replicate 32 0)) (some 32)).status =
      status) (value : UInt64) :
    getAndromedaBootConfigUint64 c.installed (some section_) (some key) (some value) = (status, some value) := by
  rw [getAndromedaBootConfigUint64, if_neg (by simp)]
  simp only [h]
  rw [if_pos hne]

/-- The first reader on a value that does not fit. -/
theorem getUint64_of_long (h : ReturnsValue c section_ key v) (hlen : 32 ≤ v.length) (value : UInt64) :
    getAndromedaBootConfigUint64 c.installed (some section_) (some key) (some value) = (.bufferTooSmall, some value) :=
  getUint64_of_error (by decide) (h.tooSmall hlen) value

/-- The readers of the configuration take a value for the number the memory map takes it for, and refuse it as the
memory map does. -/
structure SameNumbers (c : ConfigText) (section_ key : CStr) (v : Bytes) : Prop where
  uint64 : ∀ value n, getAndromedaBootConfigUint64 c.installed (some section_) (some key) (some value) = (.success, some n) ↔
    memoryMapConfigParseUint64 v 0 = (.success, n)
  uint64_else : (∀ n, memoryMapConfigParseUint64 v 0 ≠ (.success, n)) → ∀ value,
    getAndromedaBootConfigUint64 c.installed (some section_) (some key) (some value) = (.compromisedData, some value)
  uint32 : ∀ value n, getAndromedaBootConfigUint32 c.installed (some section_) (some key) (some value) = (.success, some n) ↔
    memoryMapConfigParseUint64 v 0 = (.success, n.toUInt64)
  uint32_else : (∀ n : UInt32, memoryMapConfigParseUint64 v 0 ≠ (.success, n.toUInt64)) → ∀ value,
    getAndromedaBootConfigUint32 c.installed (some section_) (some key) (some value) = (.compromisedData, some value)

/-- A number of 64 bits that fits in 32. -/
theorem eq_toUInt64_iff {n : UInt64} {k : UInt32} : n = k.toUInt64 ↔ ¬ n > 0xFFFFFFFF ∧ n.toUInt32 = k := by
  rw [← UInt64.toNat_inj, ← UInt32.toNat_inj, UInt32.toNat_toUInt64, UInt64.toNat_toUInt32, gt_iff_lt, UInt64.lt_iff_toNat_lt,
    show (0xFFFFFFFF : UInt64).toNat = 2 ^ 32 - 1 from rfl]
  have hk := k.toNat_lt
  omega

/-- Both refuse the value. -/
theorem sameNumbers_of_refused
    (h : ∀ value, getAndromedaBootConfigUint64 c.installed (some section_) (some key) (some value) = (.compromisedData, some value))
    (hno : ∀ n, memoryMapConfigParseUint64 v 0 ≠ (.success, n)) : SameNumbers c section_ key v := by
  have h32 (value : UInt32) : getAndromedaBootConfigUint32 c.installed (some section_) (some key) (some value) =
      (.compromisedData, some value) := by
    rw [getAndromedaBootConfigUint32, if_neg (by simp), h]
  exact ⟨fun value n => by simp [h, hno], fun _ => h, fun value n => by simp [h32, hno], fun _ => h32⟩

theorem sameNumbers_of_fits (h : ReturnsValue c section_ key v) (hlen : v.length < 32) : SameNumbers c section_ key v := by
  have h64 := getUint64_of_fits h hlen
  rcases parseUint64_cases v with ⟨n, hn⟩ | hnone
  · simp only [hn] at h64
    have h32 (value : UInt32) : getAndromedaBootConfigUint32 c.installed (some section_) (some key) (some value) =
        if n > 0xFFFFFFFF then (.compromisedData, some value) else (.success, some n.toUInt32) := by
      rw [getAndromedaBootConfigUint32, if_neg (by simp), h64]
    refine ⟨fun value k => by simp [h64, hn], fun hno => absurd (hn 0) (hno n), ?_, ?_⟩
    · intro value k
      rw [h32, hn]
      split_ifs with hbig
      · simp [eq_toUInt64_iff, hbig]
      · simp [eq_toUInt64_iff, hbig]
    · intro hno value
      rw [h32]
      split_ifs with hbig
      · rfl
      · exact absurd ((hn 0).trans (by rw [← eq_toUInt64_iff.2 ⟨hbig, rfl⟩])) (hno n.toUInt32)
  · simp only [hnone] at h64
    exact sameNumbers_of_refused h64 fun n => by simp [hnone]

/-! ## A text with an error elsewhere -/

/-- Whatever the first reader refuses because of another line, it refuses as damaged. -/
theorem getUint64_of_not_sound (hkey : key.bytes ≠ []) (honce : (answers section_.bytes key.bytes c.bytes).length = 1)
    (hsound : ¬ SoundText c.bytes) (value : UInt64) :
    getAndromedaBootConfigUint64 c.installed (some section_) (some key) (some value) = (.compromisedData, some value) := by
  have hfails := (lookupFails_of_once honce).2 hsound
  refine getUint64_of_error (by decide) ?_ value
  rw [getAndromedaBootConfigValue_spec c.getBootConfig_installed c.noNul section_ key hkey _ 32 (by simp), if_pos hfails]

/-- An empty key is refused before the text is looked at. -/
theorem getUint64_of_empty_key (hkey : key.bytes = []) (value : UInt64) :
    getAndromedaBootConfigUint64 c.installed (some section_) (some key) (some value) = (.invalidParameter, some value) :=
  getUint64_of_error (by decide) (by simp [getAndromedaBootConfigValue, hkey]) value

/-- A reader that answers something else than success and damaged data does not take numbers as the memory map does. -/
theorem not_sameNumbers {status : EfiStatus} (hsuccess : status ≠ .success) (hcompromised : status ≠ .compromisedData)
    (h : ∀ value, getAndromedaBootConfigUint64 c.installed (some section_) (some key) (some value) = (status, some value)) :
    ¬ SameNumbers c section_ key v := by
  intro hsame
  rcases parseUint64_cases v with ⟨n, hn⟩ | hnone
  · have hread := (hsame.uint64 0 n).2 (hn 0)
    rw [h] at hread
    exact hsuccess (Prod.mk.inj hread).1
  · have hread := hsame.uint64_else (fun n => by simp [hnone]) 0
    rw [h] at hread
    exact hcompromised (Prod.mk.inj hread).1

/-! ## When the numbers are the same -/

/-- **One number syntax.** Take a key that occurs once, with the value `v`. Both readers of the configuration take `v` as the
memory map does if and only if the key is not empty and, in a sound text, `v` has at most 31 bytes (a longer one is refused
with `EFI_BUFFER_TOO_SMALL`), in another one, `v` is no numeral below `2 ^ 64`. -/
theorem sameNumbers_iff (c : ConfigText) (section_ key : CStr) (en : Entry)
    (honce : answers section_.bytes key.bytes c.bytes = [en]) :
    SameNumbers c section_ key en.value ↔ key.bytes ≠ [] ∧
      (SoundText c.bytes ∧ en.value.length < 32 ∨ ¬ SoundText c.bytes ∧ ∀ n < 2 ^ 64, ¬ Denotes en.value n) := by
  have hone : (answers section_.bytes key.bytes c.bytes).length = 1 := by rw [honce]; rfl
  by_cases hkey : key.bytes = []
  · simp only [hkey, ne_eq, not_true_eq_false, false_and, iff_false]
    exact not_sameNumbers (by decide) (by decide) (getUint64_of_empty_key hkey)
  by_cases hsound : SoundText c.bytes
  · have h : ReturnsValue c section_ key en.value := (returnsValue_of_once honce).2 ⟨hsound, rfl⟩
    simp only [hkey, hsound, ne_eq, not_false_eq_true, true_and, not_true_eq_false, false_and, or_false]
    constructor
    · intro hsame
      by_contra hlong
      exact not_sameNumbers (by decide) (by decide) (getUint64_of_long h (by omega)) hsame
    · exact sameNumbers_of_fits h
  · have h := getUint64_of_not_sound hkey hone hsound
    simp only [hkey, hsound, ne_eq, not_false_eq_true, true_and, false_and, false_or]
    constructor
    · intro hsame n hn hdenotes
      have hparse : memoryMapConfigParseUint64 en.value 0 = (.success, UInt64.ofNat n) :=
        (parse_iff_denotes _ _ _).2 (by rwa [UInt64.toNat_ofNat_of_lt' hn])
      have hread := (hsame.uint64 0 _).2 hparse
      rw [h] at hread
      simp at hread
    · exact fun hno => sameNumbers_of_refused h fun n hn => hno n.toNat n.toNat_lt ((parse_iff_denotes _ _ _).1 hn)

theorem sameNumbers_iff_hexadecimal :
    let c : ConfigText := ⟨ascii "[S]\nkey = 0x1F ; a number", by decide, by decide, by decide⟩
    SameNumbers c ⟨ascii "S", by decide⟩ ⟨ascii "key", by decide⟩ (ascii "0x1F") ∧
      ¬ SameNumbers ⟨ascii "[S]\nkey = 1\n= 2", by decide, by decide, by decide⟩ ⟨ascii "S", by decide⟩
        ⟨ascii "key", by decide⟩ (ascii "1") := by
  intro c
  constructor
  · exact (sameNumbers_iff c ⟨ascii "S", by decide⟩ ⟨ascii "key", by decide⟩ ⟨ascii "S", ascii "key", ascii "0x1F"⟩
      (by decide +kernel)).2 ⟨by decide, .inl ⟨by decide +kernel, by decide⟩⟩
  · rw [sameNumbers_iff ⟨ascii "[S]\nkey = 1\n= 2", by decide, by decide, by decide⟩ ⟨ascii "S", by decide⟩
      ⟨ascii "key", by decide⟩ ⟨ascii "S", ascii "key", ascii "1"⟩ (by decide +kernel)]
    rintro ⟨-, ⟨hsound, -⟩ | ⟨-, hno⟩⟩
    · exact absurd hsound (by decide +kernel)
    · exact hno 1 (by decide) (.inl ⟨by decide, by decide +kernel, by decide⟩)

/-- A one with 31 zeros in front of it is a number of the memory map and has no place in `StringValue`. -/
theorem sameNumbers_fails_on_leading_zeros :
    let c : ConfigText := ⟨ascii "key = 00000000000000000000000000000001", by decide, by decide, by decide⟩
    let v := ascii "00000000000000000000000000000001"
    ReturnsValue c ⟨[], by decide⟩ ⟨ascii "key", by decide⟩ v ∧ memoryMapConfigParseUint64 v 0 = (.success, 1) ∧
      getAndromedaBootConfigUint64 c.installed (some ⟨[], by decide⟩) (some ⟨ascii "key", by decide⟩) (some 0) =
        (.bufferTooSmall, some 0) := by
  intro c v
  have h : ReturnsValue c ⟨[], by decide⟩ ⟨ascii "key", by decide⟩ v :=
    returnsValue_iff.2 ⟨by decide, by decide +kernel, by decide +kernel⟩
  exact ⟨h, by decide +kernel, getUint64_of_long h (by decide) 0⟩

end Andromeda
