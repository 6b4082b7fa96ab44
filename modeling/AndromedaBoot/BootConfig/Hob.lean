import AndromedaBoot.BootConfig.Records

/-!
# The configuration HOB (PrePi.c)

`PrePiMain` hands the text to the reader as a buffer and copies it into a GUID HOB, from which later
phases read it. The HOB does not keep the size of the text: its 16-bit length is rounded up to a
multiple of 8, so the reader gets up to seven bytes more than were handed in, and near 64 KiB the
length wraps. This module says for which texts the two ways of reading agree.

| here | there |
| --- | --- |
| `guidHobLength`, `GuidHob.Holds` | `BuildGuidDataHob` and `GET_GUID_HOB_DATA_SIZE` of HobLib |
| `prePiMainHob` | `PrePiMain` (PrePi.c:163-178) |
| `SameReads` | the three accessors of AndromedaBootConfigLib.c |
-/

namespace Andromeda

open Slice Lines

/-- The 16-bit `HobLength` of a GUID HOB with `n` data bytes: the 24-byte header and the data, rounded
up to a multiple of 8. -/
def guidHobLength (n : Nat) : Nat := (24 + n + 7) / 8 * 8 % 2 ^ 16

/-- The HOB is one that `BuildGuidDataHob` may leave for `config`. The size is the HOB length minus the
header, in 16 bits as the macro casts it or in `UINTN`; what follows the copied bytes is not defined. -/
structure GuidHob.Holds (hob : GuidHob) (config : Bytes) : Prop where
  size : hob.dataSize = (guidHobLength config.length + 2 ^ 16 - 24) % 2 ^ 16 ∨
    hob.dataSize = (guidHobLength config.length + 2 ^ 64 - 24) % 2 ^ 64
  data : ∀ i < config.length, hob.data i = byteAt config i

/-- `PrePiMain` builds the HOB from what `ArmPlatformGetBootConfig` returned (PrePi.c:163-178). -/
def prePiMainHob (buildGuidDataHob : Bytes → GuidHob) (bootConfig : Option Bytes) : Option GuidHob :=
  match bootConfig with
  | none => none
  | some config =>
    if config.length > 0 ∧ config.length ≤ bootConfigMaxSize then some (buildGuidDataHob config) else none

/-- The reader of a later phase: its own copy of the buffer pointer is still `NULL`. -/
def laterPhase (buildGuidDataHob : Bytes → GuidHob) (c : ConfigText) : BootConfig :=
  ⟨none, prePiMainHob buildGuidDataHob (some c.bytes)⟩

/-- Every call of every accessor leaves the same behind. -/
structure SameReads (st st' : BootConfig) : Prop where
  value : ∀ section_ key value valueSize,
    getAndromedaBootConfigValue st section_ key value valueSize =
      getAndromedaBootConfigValue st' section_ key value valueSize
  uint64 : ∀ section_ key value,
    getAndromedaBootConfigUint64 st section_ key value = getAndromedaBootConfigUint64 st' section_ key value
  entry : ∀ section_ entryIndex entry entrySize,
    getAndromedaBootConfigSectionEntry st section_ entryIndex entry entrySize =
      getAndromedaBootConfigSectionEntry st' section_ entryIndex entry entrySize

/-- Whatever the HOB library does within its contract, a later phase reads what SEC read. -/
def HobFaithful (c : ConfigText) : Prop :=
  ∀ buildGuidDataHob : Bytes → GuidHob,
    (∀ config : Bytes, 0 < config.length → config.length ≤ bootConfigMaxSize →
      (buildGuidDataHob config).Holds config) →
    SameReads c.installed (laterPhase buildGuidDataHob c)

theorem SameReads.symm {st st' : BootConfig} (h : SameReads st st') : SameReads st' st :=
  ⟨fun _ _ _ _ => (h.value _ _ _ _).symm, fun _ _ _ => (h.uint64 _ _ _).symm,
    fun _ _ _ _ => (h.entry _ _ _ _).symm⟩

theorem SameReads.of_getBootConfig {st st' : BootConfig} (h : getBootConfig st = getBootConfig st') :
    SameReads st st' := by
  have hv : ∀ section_ key value valueSize, getAndromedaBootConfigValue st section_ key value valueSize =
      getAndromedaBootConfigValue st' section_ key value valueSize := by
    intro section_ key value valueSize
    simp only [getAndromedaBootConfigValue, h]
  refine ⟨hv, ?_, ?_⟩
  · intro section_ key value
    simp only [getAndromedaBootConfigUint64, hv]
  · intro section_ entryIndex entry entrySize
    simp only [getAndromedaBootConfigSectionEntry, h]

/-! ## Texts that answer no call -/

/-- Data and malformed headers are what an accessor reacts to. -/
def Line.settles : Line → Bool
  | .data _ => true
  | .malformed => true
  | .blank => false
  | .header _ => false

/-- A malformed header stands in front of all data. -/
def Blocked (ls : List Line) : Prop := ls.find? Line.settles = some .malformed

instance (ls : List Line) : Decidable (Blocked ls) := inferInstanceAs (Decidable (_ = _))

theorem Blocked.malformed_mem {ls : List Line} (h : Blocked ls) : Line.malformed ∈ ls :=
  List.mem_of_find?_eq_some h

theorem dataFrom_soundPrefix_of_blocked {ls : List Line} (h : Blocked ls) (cur : Bytes) :
    dataFrom cur (soundPrefix ls) = [] := by
  induction ls generalizing cur with
  | nil => rfl
  | cons l ls ih =>
    cases l with
    | blank => exact ih (by simpa [Blocked, Line.settles] using h) cur
    | header n => exact ih (by simpa [Blocked, Line.settles] using h) n
    | malformed => simp [soundPrefix, dataFrom]
    | data c => simp [Blocked, Line.settles] at h

theorem exists_readable_of_not_blocked {ls : List Line} (hmal : Line.malformed ∈ ls) (h : ¬ Blocked ls)
    (cur : Bytes) :
    ∃ d, d ∈ dataFrom cur (soundPrefix ls) := by
  induction ls generalizing cur with
  | nil => simp at hmal
  | cons l ls ih =>
    cases l with
    | blank => exact ih (by simpa using hmal) (by simpa [Blocked, Line.settles] using h) cur
    | header n => exact ih (by simpa using hmal) (by simpa [Blocked, Line.settles] using h) n
    | malformed => simp [Blocked, Line.settles] at h
    | data c => exact ⟨(cur, c), by simp [soundPrefix, dataFrom]⟩

theorem headerName_eq_some {t name : Bytes} (h : headerName t = some name) :
    name = trimmed (t.takeWhile (· != chClose)) := by
  unfold headerName at h
  split_ifs at h with hclose
  split at h
  · exact (Option.some.inj h).symm
  · split_ifs at h
    exact (Option.some.inj h).symm

/-- Section names are taken from the text. -/
theorem mem_of_header {raw name : Bytes} (h : lineOf raw = .header name) : ∀ x ∈ name, x ∈ raw := by
  intro x hx
  unfold lineOf at h
  cases htr : trimmed raw with
  | nil => simp [htr] at h
  | cons c t =>
    simp only [htr] at h
    split_ifs at h with h1 h2
    split at h
    · simp at h
    · rename_i name' hname
      obtain rfl := Line.header.inj h
      rw [headerName_eq_some hname] at hx
      have hxt : x ∈ t := (List.takeWhile_prefix _).subset (mem_of_mem_trim hx)
      have hxr : x ∈ trimmed raw := by simp [htr, hxt]
      exact mem_of_mem_trim hxr

theorem section_of_mem_dataFrom {cur sec content : Bytes} {ls : List Line}
    (h : (sec, content) ∈ dataFrom cur ls) :
    sec = cur ∨ Line.header sec ∈ ls := by
  induction ls generalizing cur with
  | nil => simp [dataFrom] at h
  | cons l ls ih =>
    cases l with
    | blank => simpa using ih h
    | malformed => simpa using ih h
    | header n =>
      rcases ih h with rfl | hm
      · simp
      · simp [hm]
    | data c =>
      simp only [dataFrom, List.mem_cons, Prod.mk.injEq] at h
      rcases h with ⟨rfl, -⟩ | h
      · exact .inl rfl
      · simpa using ih h

theorem noNul_of_mem_dataFrom {text sec content : Bytes} (h0 : (0 : UInt8) ∉ text)
    (h : (sec, content) ∈ dataFrom [] (soundPrefix (configLines text))) : (0 : UInt8) ∉ sec := by
  rcases section_of_mem_dataFrom h with rfl | hhead
  · simp
  · obtain ⟨raw, hraw, hline⟩ := List.mem_map.1 ((List.takeWhile_prefix _).subset hhead)
    exact fun hz => h0 (mem_of_mem_splitOn hraw (mem_of_header hline 0 hz))

/-- The reader answers every call with the right parameters by `EFI_COMPROMISED_DATA`. -/
def Refuses (st : BootConfig) : Prop :=
  getBootConfig st = .error .compromisedData ∨
    ∃ text, getBootConfig st = .ok text ∧ ((0 : UInt8) ∈ text ∨ Blocked (configLines text))

theorem getAndromedaBootConfigValue_of_refuses {st : BootConfig} (h : Refuses st) (section_ key : CStr)
    (hkey : key.bytes ≠ []) (value : Option Bytes) (capacity : Nat)
    (hvalue : capacity > 0 → value ≠ none) :
    getAndromedaBootConfigValue st (some section_) (some key) value (some capacity) =
      ⟨.compromisedData, value, some 0⟩ := by
  have hguard : ¬ (capacity > 0 ∧ value = none) := by tauto
  rcases h with h | ⟨text, h, htext⟩
  · simp [getAndromedaBootConfigValue, h, hkey, hguard]
  · by_cases hnul : (0 : UInt8) ∈ text
    · simp [getAndromedaBootConfigValue, h, hkey, hguard, any_eq_zero_iff.2 hnul]
    · have hblocked : Blocked (configLines text) := by tauto
      rw [getAndromedaBootConfigValue_spec h hnul section_ key hkey value capacity hvalue,
        if_pos (.inl hblocked.malformed_mem)]

theorem getAndromedaBootConfigSectionEntry_of_refuses {st : BootConfig} (h : Refuses st)
    (section_ : CStr) (entryIndex : Nat) (entry : Option Bytes) (capacity : Nat)
    (hentry : capacity > 0 → entry ≠ none) :
    getAndromedaBootConfigSectionEntry st (some section_) entryIndex entry (some capacity) =
      ⟨.compromisedData, entry, some 0⟩ := by
  have hguard : ¬ (capacity > 0 ∧ entry = none) := by tauto
  rcases h with h | ⟨text, h, htext⟩
  · simp [getAndromedaBootConfigSectionEntry, h, hguard]
  · by_cases hnul : (0 : UInt8) ∈ text
    · simp [getAndromedaBootConfigSectionEntry, h, hguard, any_eq_zero_iff.2 hnul]
    · have hblocked : Blocked (configLines text) := by tauto
      have hnone : readableRecords section_.bytes text = [] := by
        simp [readableRecords, recordsFrom, dataFrom_soundPrefix_of_blocked hblocked]
      rw [getAndromedaBootConfigSectionEntry_spec h hnul section_ entryIndex entry capacity hentry,
        hnone]
      simp [MalformedHeader, hblocked.malformed_mem]

/-- Two readers that refuse everything cannot be told apart. -/
theorem SameReads.of_refuses {st st' : BootConfig} (h : Refuses st) (h' : Refuses st') :
    SameReads st st' := by
  have hv : ∀ section_ key value valueSize, getAndromedaBootConfigValue st section_ key value valueSize =
      getAndromedaBootConfigValue st' section_ key value valueSize := by
    intro section_ key value valueSize
    obtain _ | section_ := section_
    · rfl
    obtain _ | key := key
    · rfl
    obtain _ | capacity := valueSize
    · rfl
    by_cases hkey : key.bytes = []
    · simp [getAndromedaBootConfigValue, hkey]
    · by_cases hvalue : capacity > 0 ∧ value = none
      · simp [getAndromedaBootConfigValue, hkey, hvalue]
      · rw [getAndromedaBootConfigValue_of_refuses h section_ key hkey value capacity (by tauto),
          getAndromedaBootConfigValue_of_refuses h' section_ key hkey value capacity (by tauto)]
  refine ⟨hv, ?_, ?_⟩
  · intro section_ key value
    simp only [getAndromedaBootConfigUint64, hv]
  · intro section_ entryIndex entry entrySize
    obtain _ | section_ := section_
    · rfl
    obtain _ | capacity := entrySize
    · rfl
    by_cases hentry : capacity > 0 ∧ entry = none
    · simp [getAndromedaBootConfigSectionEntry, hentry]
    · rw [getAndromedaBootConfigSectionEntry_of_refuses h section_ entryIndex entry capacity (by tauto),
        getAndromedaBootConfigSectionEntry_of_refuses h' section_ entryIndex entry capacity (by tauto)]

/-- Some record can be asked for, or the section with the empty name is found to have none. -/
theorem exists_answered_of_not_blocked {st : BootConfig} {text : Bytes}
    (hst : getBootConfig st = .ok text) (hnul : (0 : UInt8) ∉ text) (h : ¬ Blocked (configLines text)) :
    ∃ section_, (getAndromedaBootConfigSectionEntry st (some section_) 0 none (some 0)).status ≠ .compromisedData := by
  have hspec := fun section_ => getAndromedaBootConfigSectionEntry_spec hst hnul section_ 0 none 0 (by simp)
  by_cases hmal : MalformedHeader text
  · obtain ⟨⟨sec, content⟩, hd⟩ := exists_readable_of_not_blocked hmal h []
    refine ⟨⟨sec, noNul_of_mem_dataFrom hnul hd⟩, ?_⟩
    have hrec : uncomment content ∈ readableRecords sec text :=
      List.mem_map.2 ⟨(sec, content), List.mem_filter.2 ⟨hd, by simp [sameName]⟩, rfl⟩
    rw [hspec]
    cases hr : readableRecords sec text with
    | nil => simp [hr] at hrec
    | cons r rs => simp [copyText]
  · refine ⟨⟨[], by simp⟩, ?_⟩
    rw [hspec]
    cases hr : readableRecords [] text with
    | nil => simp [hmal]
    | cons r rs => simp [copyText]

/-! ## Bytes behind the text -/

theorem configLines_append (text ext : Bytes) : configLines (text ++ ext) =
    (closedLines chLf text).map lineOf ++ configLines (lastLine chLf text ++ ext) := by
  rw [configLines, splitOn_append, List.map_append, configLines]

theorem blocked_append {a b : List Line} :
    Blocked (a ++ b) ↔ Blocked a ∨ a.find? Line.settles = none ∧ Blocked b := by
  simp only [Blocked, List.find?_append]
  cases a.find? Line.settles <;> simp

/-- What the text is blocked by cannot be repaired by bytes that follow it: the line has ended, or its
`]` has been read. -/
def Firm (text : Bytes) : Prop :=
  Blocked ((closedLines chLf text).map lineOf) ∨ chClose ∈ lastLine chLf text

instance (text : Bytes) : Decidable (Firm text) := inferInstanceAs (Decidable (_ ∨ _))

/-- The line that blocks a text is one of the closed ones, or the last one. -/
theorem blocked_cases {text : Bytes} (h : Blocked (configLines text)) :
    Blocked ((closedLines chLf text).map lineOf) ∨
      ((closedLines chLf text).map lineOf).find? Line.settles = none ∧
        lineOf (lastLine chLf text) = .malformed := by
  rw [configLines, splitOn_eq_closed chLf text, List.map_append, blocked_append] at h
  refine h.imp_right ?_
  rintro ⟨hnone, hlast⟩
  exact ⟨hnone, (by simpa using hlast.malformed_mem : Line.malformed = _).symm⟩

theorem lineOf_eq_malformed {raw : Bytes} :
    lineOf raw = .malformed ↔ ∃ t, trimmed raw = chOpen :: t ∧ headerName t = none := by
  unfold lineOf
  cases htr : trimmed raw with
  | nil => simp
  | cons c t =>
    by_cases h1 : c = chHash ∨ c = chSemicolon
    · have hne : c ≠ chOpen := by rcases h1 with rfl | rfl <;> decide
      simp [h1, hne]
    · by_cases h2 : c = chOpen
      · simp only [h2, ↓reduceIte, List.cons.injEq, true_and, exists_eq_left']
        rw [h2] at h1
        rw [if_neg h1]
        cases hn : headerName t with
        | none => simp
        | some name => simp
      · simp [h1, h2]

/-- A line that starts with a blank-free text goes on with it, whatever is appended. -/
theorem trimmed_append {raw m : Bytes} {c : UInt8} (h : trimmed raw = c :: m) (ext : Bytes) :
    ∃ w, trimmed (raw ++ ext) = c :: m ++ w := by
  obtain ⟨a, b, hdec, ha, -⟩ := trim_decomp isConfigSpace raw
  have hm : trim isConfigSpace raw = c :: m := h
  have hhead := head_trim hm
  rw [hm] at hdec
  have hraw : raw ++ ext = a ++ (c :: m ++ (b ++ ext)) := by
    rw [hdec]
    simp
  rw [hraw, trimmed, trim_prepend_of_all ha, trim, List.cons_append,
    List.dropWhile_cons_of_neg (by simp [hhead])]
  obtain ⟨i, x, hix⟩ : ∃ i x, c :: m = i ++ [x] := ⟨_, _, (List.dropLast_append_getLast (by simp)).symm⟩
  have hx : isConfigSpace x = false := last_trim (hm.trans hix)
  refine ⟨(b ++ ext).rdropWhile isConfigSpace, ?_⟩
  rw [← List.cons_append, hix, List.append_assoc, List.singleton_append, rdropWhile_append_cons hx]
  simp

/-- Once the `]` and what disagrees behind it are there, the header stays malformed. -/
theorem headerName_append_none {t : Bytes} (hclose : chClose ∈ t) (h : headerName t = none)
    (w : Bytes) :
    headerName (t ++ w) = none := by
  obtain ⟨a, b, rfl, ha⟩ := List.eq_append_cons_of_mem hclose
  have hall : ∀ x ∈ a, (x != chClose) = true := by
    intro x hx
    simp only [bne_iff_ne]
    exact fun h0 => ha (h0 ▸ hx)
  have hdrop : ∀ r, ((a ++ chClose :: r).dropWhile (· != chClose)).drop 1 = r := by
    intro r
    rw [List.dropWhile_append_of_pos hall, List.dropWhile_cons_of_neg (by simp), List.drop_one,
      List.tail_cons]
  unfold headerName at h ⊢
  rw [if_pos (by simp), hdrop] at h
  rw [List.append_assoc, List.cons_append, if_pos (by simp), hdrop]
  cases hb : b.dropWhile isConfigSpace with
  | nil => simp [hb] at h
  | cons c r =>
    have hne : ∃ x ∈ b, ¬ isConfigSpace x = true := by
      by_contra hcon
      push Not at hcon
      simp [List.dropWhile_eq_nil_iff.2 hcon] at hb
    have happ : (b ++ w).dropWhile isConfigSpace = c :: (r ++ w) := by
      rw [List.dropWhile_append, hb]
      simp
    rw [hb] at h
    rw [happ]
    simpa using h

theorem blocked_append_of_firm {text : Bytes} (h : Blocked (configLines text)) (hfirm : Firm text)
    (ext : Bytes) :
    Blocked (configLines (text ++ ext)) := by
  rw [configLines_append, blocked_append]
  rcases blocked_cases h with hclosed | ⟨hnone, hmal⟩
  · exact .inl hclosed
  · refine hfirm.imp_right fun hclose => ⟨hnone, ?_⟩
    obtain ⟨t, ht, hname⟩ := lineOf_eq_malformed.1 hmal
    have hct : chClose ∈ t := by
      have : chClose ∈ trimmed (lastLine chLf text) := mem_trim_of_mem hclose (by decide)
      rw [ht] at this
      exact (List.mem_cons.1 this).resolve_left (by decide)
    -- the last line grows to the next separator among the new bytes and stays malformed
    have hgrow : ∀ e, lineOf (lastLine chLf text ++ e) = .malformed := by
      intro e
      obtain ⟨w, hw⟩ := trimmed_append ht e
      exact lineOf_eq_malformed.2 ⟨t ++ w, hw, headerName_append_none hct hname w⟩
    obtain ⟨e, rest, hsplit⟩ := splitOn_append_head (sep_notMem_lastLine chLf text) ext
    simp [Blocked, configLines, hsplit, hgrow, Line.settles]

/-- An unclosed header becomes a header when a `]` and blanks follow. -/
theorem lineOf_closed {raw t : Bytes} (h : trimmed raw = chOpen :: t) (hclose : chClose ∉ raw)
    (k : Nat) :
    ∃ name, lineOf (raw ++ chClose :: List.replicate k chSpace) = .header name := by
  obtain ⟨a, b, hdec, ha, -⟩ := trim_decomp isConfigSpace raw
  rw [show trim isConfigSpace raw = chOpen :: t from h] at hdec
  have hblanks : ∀ x ∈ List.replicate k chSpace, isConfigSpace x = true := by
    intro x hx
    rw [(List.mem_replicate.1 hx).2]
    decide
  have htrim : trimmed (raw ++ chClose :: List.replicate k chSpace) = chOpen :: (t ++ b ++ [chClose]) := by
    have hraw : raw ++ chClose :: List.replicate k chSpace =
        a ++ (chOpen :: (t ++ b ++ [chClose]) ++ List.replicate k chSpace) := by
      rw [hdec]
      simp
    rw [hraw, trimmed, trim_prepend_of_all ha, trim_append_of_all hblanks]
    apply trim_eq_self
    · intro x hx
      simp only [List.head?_cons, Option.mem_some_iff] at hx
      subst hx
      decide
    · intro x hx
      rw [← List.cons_append, List.getLast?_concat, Option.mem_some_iff] at hx
      subst hx
      decide
  have hfree : ∀ x ∈ t ++ b, (x != chClose) = true := by
    intro x hx
    simp only [bne_iff_ne]
    rintro rfl
    exact hclose (by rw [hdec]; simp only [List.mem_append, List.mem_cons] at hx ⊢; tauto)
  have hname : headerName (t ++ b ++ [chClose]) = some (trimmed (t ++ b)) := by
    have hdrop : (t ++ b ++ [chClose]).dropWhile (· != chClose) = [chClose] := by
      rw [List.dropWhile_append_of_pos hfree, List.dropWhile_cons_of_neg (by simp)]
    have htake : (t ++ b ++ [chClose]).takeWhile (· != chClose) = t ++ b := by
      rw [List.takeWhile_append_of_pos hfree, List.takeWhile_cons_of_neg (by simp), List.append_nil]
    unfold headerName
    rw [if_pos (by simp), hdrop, htake]
    rfl
  refine ⟨trimmed (t ++ b), ?_⟩
  simp only [lineOf, htrim, hname]
  rfl

/-- An unclosed header at the end of the text is repaired by a `]` and blanks. -/
theorem not_blocked_of_closed {text : Bytes} (h : Blocked (configLines text)) (hfirm : ¬ Firm text)
    (k : Nat) :
    ¬ Blocked (configLines (text ++ chClose :: List.replicate k chSpace)) := by
  simp only [Firm, not_or] at hfirm
  obtain ⟨hclosed, hclose⟩ := hfirm
  obtain ⟨hnone, hmal⟩ := (blocked_cases h).resolve_left hclosed
  obtain ⟨t, ht, -⟩ := lineOf_eq_malformed.1 hmal
  obtain ⟨name, hname⟩ := lineOf_closed ht hclose k
  have hfree : chLf ∉ lastLine chLf text ++ chClose :: List.replicate k chSpace := by
    simp only [List.mem_append, List.mem_cons, List.mem_replicate, not_or]
    exact ⟨sep_notMem_lastLine chLf text, by decide, fun h0 => absurd h0.2 (by decide)⟩
  rw [configLines_append, blocked_append]
  rintro (hb | ⟨-, hb⟩)
  · exact hclosed hb
  · rw [configLines, List.splitOn_eq_singleton hfree] at hb
    simp [Blocked, hname, Line.settles] at hb

/-! ## What a later phase reads -/

/-- The bytes of padding behind `n` bytes of data. -/
def hobPadding (n : Nat) : Nat := (n + 7) / 8 * 8 - n

/-- A later phase reads the text and its padding; from 65505 bytes on the size may be refused, and
from 65529 bytes on it is 0. -/
theorem getBootConfig_hob {config : Bytes} {hob : GuidHob} (h : hob.Holds config)
    (hpos : 0 < config.length) (hmax : config.length ≤ bootConfigMaxSize) :
    (getBootConfig ⟨none, some hob⟩ = .error .compromisedData ∧ 65504 < config.length) ∨
      (config.length ≤ 65528 ∧ ∃ ext : Bytes, ext.length = hobPadding config.length ∧
        getBootConfig ⟨none, some hob⟩ = .ok (config ++ ext)) := by
  have hsize := h.size
  have hlimit : bootConfigMaxSize = 65535 := rfl
  simp only [guidHobLength] at hsize
  simp only [getBootConfig]
  by_cases hbad : hob.dataSize = 0 ∨ hob.dataSize > bootConfigMaxSize
  · rw [if_pos hbad]
    exact .inl ⟨rfl, by omega⟩
  · rw [if_neg hbad]
    have hds : hob.dataSize = (config.length + 7) / 8 * 8 := by omega
    refine .inr ⟨by omega, (List.range (hobPadding config.length)).map fun i => hob.data (config.length + i),
      by simp, ?_⟩
    congr 1
    apply List.ext_getElem
    · simp [hobPadding, hds]
      omega
    · intro i h1 h2
      by_cases hi : i < config.length
      · simp [h.data i hi, byteAt, hi]
      · rw [List.getElem_append_right (by omega)]
        simp
        congr 1
        omega

/-- Any padding is possible as long as the 16-bit size does not vanish. -/
theorem exists_hob_read {config : Bytes} (ext : Bytes) (hpos : 0 < config.length)
    (hle : config.length ≤ 65528) (hext : ext.length = hobPadding config.length) :
    ∃ hob : GuidHob, hob.Holds config ∧ getBootConfig ⟨none, some hob⟩ = .ok (config ++ ext) := by
  have hlen : (config ++ ext).length = (config.length + 7) / 8 * 8 := by
    rw [List.length_append, hext, hobPadding]
    omega
  refine ⟨⟨(config ++ ext).length, byteAt (config ++ ext)⟩, ⟨.inl ?_, ?_⟩, ?_⟩
  · simp only [hlen, guidHobLength]
    omega
  · intro i hi
    simp [byteAt, List.getD_eq_getElem?_getD, List.getElem?_append_left hi]
  · have hlimit : bootConfigMaxSize = 65535 := rfl
    simp only [getBootConfig]
    rw [if_neg (by omega)]
    congr 1
    apply List.ext_getElem
    · simp
    · intro i h1 h2
      simp [byteAt, List.getElem?_eq_getElem h2]

theorem exists_hob_refused {config : Bytes} (hle : config.length ≤ bootConfigMaxSize)
    (h : 65504 < config.length) :
    ∃ hob : GuidHob, hob.Holds config ∧ getBootConfig ⟨none, some hob⟩ = .error .compromisedData := by
  have hlimit : bootConfigMaxSize = 65535 := rfl
  have hbad : (guidHobLength config.length + 2 ^ 64 - 24) % 2 ^ 64 = 0 ∨
      (guidHobLength config.length + 2 ^ 64 - 24) % 2 ^ 64 > bootConfigMaxSize := by
    rw [guidHobLength]
    omega
  generalize hsize : (guidHobLength config.length + 2 ^ 64 - 24) % 2 ^ 64 = size at hbad
  exact ⟨⟨size, byteAt config⟩, ⟨.inr hsize.symm, fun _ _ => rfl⟩, if_pos hbad⟩

/-- The contract of the HOB library speaks about the one HOB that is built. -/
theorem hobFaithful_iff {c : ConfigText} :
    HobFaithful c ↔ ∀ hob : GuidHob, hob.Holds c.bytes → SameReads c.installed ⟨none, some hob⟩ := by
  have hpos : c.bytes.length > 0 := List.length_pos_iff.2 c.nonempty
  have hbuilt : ∀ build, prePiMainHob build (some c.bytes) = some (build c.bytes) := fun build => by
    simp only [prePiMainHob]
    rw [if_pos ⟨hpos, c.size_le⟩]
  constructor
  · intro h hob hholds
    have := h (fun config => if config = c.bytes then hob else
      ⟨(guidHobLength config.length + 2 ^ 16 - 24) % 2 ^ 16, byteAt config⟩) (by
        intro config _ _
        by_cases heq : config = c.bytes
        · simpa [heq] using hholds
        · simp only [heq, ↓reduceIte]
          exact ⟨.inl rfl, fun _ _ => rfl⟩)
    simpa [laterPhase, hbuilt] using this
  · intro h build hbuild
    rw [laterPhase, hbuilt]
    exact h _ (hbuild c.bytes hpos c.size_le)

/-- Zero padding, or a size that is refused: a HOB behind which no call is answered. -/
theorem exists_hob_refuses {c : ConfigText}
    (hfit : ¬ (8 ∣ c.bytes.length ∧ c.bytes.length + 24 < 2 ^ 16)) :
    ∃ hob : GuidHob, hob.Holds c.bytes ∧ Refuses ⟨none, some hob⟩ := by
  have hlimit : bootConfigMaxSize = 65535 := rfl
  by_cases hbig : 65504 < c.bytes.length
  · obtain ⟨hob, h1, h2⟩ := exists_hob_refused c.size_le hbig
    exact ⟨hob, h1, .inl h2⟩
  · obtain ⟨hob, h1, h2⟩ := exists_hob_read (List.replicate (hobPadding c.bytes.length) 0)
      (List.length_pos_iff.2 c.nonempty) (by omega) (by simp)
    refine ⟨hob, h1, .inr ⟨_, h2, .inl ?_⟩⟩
    have hpad : hobPadding c.bytes.length ≠ 0 := by
      rw [hobPadding]
      omega
    simp [hpad]

/-- Where every call is refused, reads are the same only over a text whose data no call reaches. -/
theorem SameReads.blocked {st st' : BootConfig} {text : Bytes} (h : SameReads st st')
    (hrefuses : Refuses st) (hst : getBootConfig st' = .ok text)
    (hnul : (0 : UInt8) ∉ text) : Blocked (configLines text) := by
  by_contra hnot
  obtain ⟨section_, hne⟩ := exists_answered_of_not_blocked hst hnul hnot
  rw [← h.entry, getAndromedaBootConfigSectionEntry_of_refuses hrefuses _ _ _ _ (by simp)] at hne
  exact hne rfl

/-- **A later phase reads what SEC read** exactly when the HOB holds the text alone, its size being a
multiple of 8 whose HOB length fits in 16 bits, or when every call is refused either way: a malformed
header stands in front of all data, and no padding can repair it. -/
theorem hobFaithful_iff_unpadded_or_blocked (c : ConfigText) :
    HobFaithful c ↔
      (8 ∣ c.bytes.length ∧ c.bytes.length + 24 < 2 ^ 16) ∨
      (Blocked (configLines c.bytes) ∧ (Firm c.bytes ∨ 8 ∣ c.bytes.length ∨ 65528 < c.bytes.length)) := by
  have hpos : 0 < c.bytes.length := List.length_pos_iff.2 c.nonempty
  have hmax := c.size_le
  have hlimit : bootConfigMaxSize = 65535 := rfl
  have hsec := c.getBootConfig_installed
  rw [hobFaithful_iff]
  constructor
  · intro h
    by_cases hfit : 8 ∣ c.bytes.length ∧ c.bytes.length + 24 < 2 ^ 16
    · exact .inl hfit
    refine .inr ?_
    obtain ⟨hob, hholds, hrefuses⟩ := exists_hob_refuses hfit
    have hblocked := (h hob hholds).symm.blocked hrefuses hsec c.noNul
    refine ⟨hblocked, ?_⟩
    by_contra hcon
    simp only [not_or, not_lt] at hcon
    obtain ⟨hfirm, hdvd, hle⟩ := hcon
    -- padding that closes the header at the end of the text
    have hpad : 1 + (hobPadding c.bytes.length - 1) = hobPadding c.bytes.length := by
      rw [hobPadding]
      omega
    obtain ⟨hob', hholds', hread⟩ := exists_hob_read
      (chClose :: List.replicate (hobPadding c.bytes.length - 1) chSpace) hpos hle (by simp; omega)
    have hnul : (0 : UInt8) ∉ c.bytes ++ chClose :: List.replicate (hobPadding c.bytes.length - 1) chSpace := by
      simp only [List.mem_append, List.mem_cons, List.mem_replicate, not_or]
      exact ⟨c.noNul, by decide, fun h0 => absurd h0.2 (by decide)⟩
    exact not_blocked_of_closed hblocked hfirm _
      ((h hob' hholds').blocked (.inr ⟨_, hsec, .inr hblocked⟩) hread hnul)
  · intro h hob hholds
    obtain ⟨herr, hbig⟩ | ⟨hle, ext, hext, hread⟩ := getBootConfig_hob hholds hpos hmax
    · rcases h with ⟨h1, h2⟩ | ⟨hblocked, -⟩
      · omega
      · exact .of_refuses (.inr ⟨_, hsec, .inr hblocked⟩) (.inl herr)
    · have hnopad : 8 ∣ c.bytes.length → ext = [] := fun hdvd =>
        List.eq_nil_of_length_eq_zero (by rw [hext, hobPadding]; omega)
      rcases h with ⟨h1, -⟩ | ⟨hblocked, h2⟩
      · rw [hnopad h1, List.append_nil] at hread
        exact .of_getBootConfig (hsec.trans hread.symm)
      · refine .of_refuses (.inr ⟨_, hsec, .inr hblocked⟩) (.inr ⟨_, hread, .inr ?_⟩)
        rcases h2 with hfirm | hdvd | hbig
        · exact blocked_append_of_firm hblocked hfirm ext
        · rw [hnopad hdvd, List.append_nil]
          exact hblocked
        · omega

/-- Seven bytes are padded to eight; a zero there hides the whole text. -/
theorem hobFaithful_fails_on_seven_bytes :
    ¬ HobFaithful ⟨ascii "[S]\nk=1", by decide, by decide, by decide⟩ := by
  intro h
  have hsame := h (fun config => ⟨(guidHobLength config.length + 2 ^ 16 - 24) % 2 ^ 16, byteAt config⟩)
    (fun config _ _ => ⟨.inl rfl, fun _ _ => rfl⟩)
  have hvalue := hsame.value (some ⟨ascii "S", by decide⟩) (some ⟨ascii "k", by decide⟩) (some [0, 0]) (some 2)
  revert hvalue
  decide +kernel

end Andromeda
