import AndromedaBoot.BootConfig.Records
import AndromedaBoot.Lib.Fill
import AndromedaBoot.MemoryMap.Record

/-!
# Loading a section of records (QcomUefiPlatMemoryMapLib.c:523-595)

The loader asks for record 0, 1, 2, … until the reader has no more, and appends each descriptor. Every
question scans the text from the start, and a malformed header is noticed only by a scan that runs
past it; `loadLoop_spec` nevertheless reduces the loop to one pass over the records, and the main theorem
says that a section is loaded completely and in order, or not at all.
-/

namespace Andromeda

open Fill

/-- `MEMORY_MAP_CONFIG_ENTRY_SIZE`. -/
def memoryMapConfigEntrySize : Nat := 512

/-- `MemoryMapConfigReadDescriptor` (:525). -/
def memoryMapConfigReadDescriptor (st : BootConfig) (section_ : CStr) (entryIndex : Nat) :
    Except EfiStatus Descriptor :=
  let record := List.replicate memoryMapConfigEntrySize 0
  let r := getAndromedaBootConfigSectionEntry st (some section_) entryIndex (some record) (some memoryMapConfigEntrySize)
  if r.status ≠ .success then .error r.status
  else memoryMapConfigParseDescriptor (cstrAt (r.buffer.getD []) 0).bytes

/-- The loop of `MemoryMapConfigLoadDescriptorSection` (:576-594), which has no bound of its own; `none`
also stands for "still running". -/
def loadLoop (st : BootConfig) (section_ : CStr) (capacity initialCount : Nat) :
    Nat → Nat → Buf Descriptor → Option (EfiStatus × Buf Descriptor)
  | 0, _, _ => none
  | fuel + 1, entryIndex, b =>
    match memoryMapConfigReadDescriptor st section_ entryIndex with
    | .error .notFound => some (if b.count = initialCount then .notFound else .success, b)
    | .error status => some (status, b)
    | .ok descriptor =>
      andThen .success (push .success .outOfResources capacity b descriptor)
        (loadLoop st section_ capacity initialCount fuel (entryIndex + 1))

/-- `MemoryMapConfigLoadDescriptorSection` (:561): every round but the last appends, so the capacity
bounds the rounds. -/
def memoryMapConfigLoadDescriptorSection (st : BootConfig) (section_ : CStr) (capacity : Nat)
    (b : Buf Descriptor) :
    Option (EfiStatus × Buf Descriptor) :=
  loadLoop st section_ capacity b.count (capacity + 1) 0 b

/-! ## The loop -/

section Loop

variable {st : BootConfig} {section_ : CStr} {capacity initialCount : Nat}

/-- Records `i`, `i + 1`, … read as the descriptors `ds`. -/
def Reads (st : BootConfig) (section_ : CStr) (i : Nat) (ds : List Descriptor) : Prop :=
  ∀ k d, ds[k]? = some d → memoryMapConfigReadDescriptor st section_ (i + k) = .ok d

/-- Why the loop ended with `status` after `n` records from `i` on, `count` slots then being in use. -/
inductive LoadEnd (st : BootConfig) (section_ : CStr) (capacity initialCount count next : Nat) : EfiStatus → Prop
  | nothing : memoryMapConfigReadDescriptor st section_ next = .error .notFound → count = initialCount →
      LoadEnd st section_ capacity initialCount count next .notFound
  | complete : memoryMapConfigReadDescriptor st section_ next = .error .notFound → count ≠ initialCount →
      LoadEnd st section_ capacity initialCount count next .success
  | refused {s : EfiStatus} : memoryMapConfigReadDescriptor st section_ next = .error s → s ≠ .notFound →
      LoadEnd st section_ capacity initialCount count next s
  | noRoom {d : Descriptor} : memoryMapConfigReadDescriptor st section_ next = .ok d → count = capacity →
      LoadEnd st section_ capacity initialCount count next .outOfResources

/-- **One pass over the records.** With a round to spare the loop ends; it has appended the descriptors
of the records it read, and nothing else was written. What it appends does not depend on what was in the
array. -/
theorem loadLoop_spec (st : BootConfig) (section_ : CStr) (initialCount : Nat) : ∀ fuel i n :
    Nat, n ≤ capacity →
    capacity - n < fuel →
    ∃ status ds, (∀ slots : List Descriptor, capacity ≤ slots.length →
        loadLoop st section_ capacity initialCount fuel i ⟨slots, n⟩ =
          some (status, ⟨overwrite slots n ds, n + ds.length⟩)) ∧
      n + ds.length ≤ capacity ∧ Reads st section_ i ds ∧
      LoadEnd st section_ capacity initialCount (n + ds.length) (i + ds.length) status := by
  intro fuel
  induction fuel with
  | zero =>
    intro i n _ h
    exact absurd h (Nat.not_lt_zero _)
  | succ fuel ih =>
    intro i n hn hfuel
    have hstop : ∀ status, (∀ slots : List Descriptor,
          loadLoop st section_ capacity initialCount (fuel + 1) i ⟨slots, n⟩ = some (status, ⟨slots, n⟩)) →
        LoadEnd st section_ capacity initialCount n i status → ∃ status ds,
        (∀ slots : List Descriptor, capacity ≤ slots.length →
          loadLoop st section_ capacity initialCount (fuel + 1) i ⟨slots, n⟩ =
            some (status, ⟨overwrite slots n ds, n + ds.length⟩)) ∧
        n + ds.length ≤ capacity ∧ Reads st section_ i ds ∧
        LoadEnd st section_ capacity initialCount (n + ds.length) (i + ds.length) status :=
      fun status h1 h2 => ⟨status, [], fun slots _ => by simpa using h1 slots, by simpa using hn,
        fun k d h => by simp at h, by simpa using h2⟩
    cases hread : memoryMapConfigReadDescriptor st section_ i with
    | error s =>
      by_cases hs : s = .notFound
      · subst hs
        by_cases hc : n = initialCount
        · exact hstop _ (fun slots => by simp [loadLoop, hread, hc]) (.nothing hread hc)
        · exact hstop _ (fun slots => by simp [loadLoop, hread, hc]) (.complete hread hc)
      · refine hstop s ?_ (.refused hread hs)
        intro slots
        simp only [loadLoop, hread]
    | ok d =>
      by_cases hfull : n ≥ capacity
      · refine hstop .outOfResources ?_ (.noRoom hread (by omega))
        intro slots
        simp [loadLoop, hread, push, hfull, andThen]
      · obtain ⟨status, ds, h1, h2, h3, h4⟩ := ih (i + 1) (n + 1) (by omega) (by omega)
        refine ⟨status, d :: ds, ?_, by simp only [List.length_cons]; omega, ?_, ?_⟩
        · intro slots hslots
          have hlt : n < slots.length := by omega
          simp only [loadLoop, hread, push, hfull, ↓reduceIte, write, hlt, Option.map_some, andThen_ok,
            h1 (slots.set n d) (by rw [List.length_set]; exact hslots), overwrite_cons hlt, List.length_cons, Nat.add_assoc,
            Nat.add_comm 1]
        · intro k e hk
          cases k with
          | zero =>
            simp only [List.getElem?_cons_zero, Option.some.injEq] at hk
            rwa [Nat.add_zero, ← hk]
          | succ k =>
            have := h3 k e (by simpa using hk)
            rwa [Nat.add_assoc, Nat.add_comm 1] at this
        · simpa only [List.length_cons, Nat.add_assoc, Nat.add_comm 1] using h4

/-- What the loop reads are valid regions. -/
theorem Reads.valid {i : Nat} {ds : List Descriptor} (h : Reads st section_ i ds) :
    ∀ d ∈ ds, d.Valid := by
  intro d hd
  obtain ⟨k, hk⟩ := List.mem_iff_getElem?.1 hd
  have hread := h k d hk
  simp only [memoryMapConfigReadDescriptor] at hread
  split_ifs at hread
  exact memoryMapConfigParseDescriptor_valid hread

/-- More rounds than needed change nothing. -/
theorem loadLoop_fuel : ∀ (fuel fuel' i : Nat) (b : Buf Descriptor), capacity - b.count < fuel →
    capacity - b.count < fuel' →
    loadLoop st section_ capacity initialCount fuel i b = loadLoop st section_ capacity initialCount fuel' i b := by
  intro fuel
  induction fuel with
  | zero =>
    intro fuel' i b h _
    exact absurd h (Nat.not_lt_zero _)
  | succ fuel ih =>
    intro fuel' i b h h'
    obtain ⟨n, rfl⟩ : ∃ n, fuel' = n + 1 := ⟨fuel' - 1, by omega⟩
    cases hread : memoryMapConfigReadDescriptor st section_ i with
    | error s => cases s <;> simp only [loadLoop, hread]
    | ok d =>
      simp only [loadLoop, hread]
      by_cases hfull : b.count ≥ capacity
      · simp [push, hfull, andThen]
      · by_cases hlt : b.count < b.slots.length
        · simp only [push, hfull, ↓reduceIte, write, hlt, Option.map_some, andThen_ok]
          exact ih _ _ _ (by simp only; omega) (by simp only; omega)
        · simp [push, hfull, write, hlt, andThen]

end Loop

/-! ## Complete or not at all -/

/-- What a record is worth: it has to fit the buffer with its terminator, and to parse. -/
def recordDescriptor (record : Bytes) : Except EfiStatus Descriptor :=
  if record.length < memoryMapConfigEntrySize then memoryMapConfigParseDescriptor record else .error .bufferTooSmall

/-- `MemoryMapConfigReadDescriptor` on an accepted text. -/
theorem memoryMapConfigReadDescriptor_spec (c : ConfigText) (section_ : CStr) (i : Nat) :
    memoryMapConfigReadDescriptor c.installed section_ i =
      match (readableRecords section_.bytes c.bytes)[i]? with
      | some r => recordDescriptor r
      | none => .error (if MalformedHeader c.bytes then .compromisedData else .notFound) := by
  simp only [memoryMapConfigReadDescriptor]
  rw [getAndromedaBootConfigSectionEntry_spec c.getBootConfig_installed c.noNul section_ i _ _ (by simp)]
  cases hr : (readableRecords section_.bytes c.bytes)[i]? with
  | none =>
    by_cases hmal : MalformedHeader c.bytes
    · simp [hmal]
    · simp [hmal]
  | some r =>
    have hnul := noNul_readableRecords _ c.noNul (List.mem_of_getElem? hr)
    by_cases hlen : r.length < memoryMapConfigEntrySize
    · have hcap : ¬ memoryMapConfigEntrySize < r.length + 1 := by omega
      simp [copyText, hcap, recordDescriptor, hlen, cstrAt_copied hnul]
    · have hcap : memoryMapConfigEntrySize < r.length + 1 := by omega
      simp [copyText, hcap, recordDescriptor, hlen]

theorem recordDescriptor_error {record : Bytes} {s : EfiStatus}
    (h : recordDescriptor record = .error s) :
    s ≠ .success ∧ s ≠ .notFound := by
  unfold recordDescriptor at h
  split_ifs at h
  · rw [memoryMapConfigParseDescriptor_error h]
    decide
  · rw [← Except.error.inj h]
    decide

theorem recordDescriptor_ok {record : Bytes} {d : Descriptor} :
    recordDescriptor record = .ok d ↔
      record.length < memoryMapConfigEntrySize ∧ memoryMapConfigParseDescriptor record = .ok d := by
  unfold recordDescriptor
  split_ifs with h
  · simp [h]
  · simp [h]

section Installed

variable {c : ConfigText} {section_ : CStr}

/-- A record that reads as a descriptor is one of the readable records. -/
theorem read_eq_ok {i : Nat} {d : Descriptor}
    (h : memoryMapConfigReadDescriptor c.installed section_ i = .ok d) :
    ∃ r, (readableRecords section_.bytes c.bytes)[i]? = some r ∧ recordDescriptor r = .ok d := by
  rw [memoryMapConfigReadDescriptor_spec] at h
  cases hr : (readableRecords section_.bytes c.bytes)[i]? with
  | none => simp [hr] at h
  | some r =>
    simp only [hr] at h
    exact ⟨r, rfl, h⟩

theorem read_eq_notFound {i : Nat} :
    memoryMapConfigReadDescriptor c.installed section_ i = .error .notFound ↔
      ¬ MalformedHeader c.bytes ∧ (readableRecords section_.bytes c.bytes).length ≤ i := by
  rw [memoryMapConfigReadDescriptor_spec]
  cases hr : (readableRecords section_.bytes c.bytes)[i]? with
  | none =>
    have hle := List.getElem?_eq_none_iff.1 hr
    by_cases hmal : MalformedHeader c.bytes
    · simp [hmal]
    · simp [hmal, hle]
  | some r =>
    have hlt := (List.getElem?_eq_some_iff.1 hr).1
    constructor
    · intro h
      exact absurd rfl (recordDescriptor_error h).2
    · intro h
      omega

theorem read_ne_success {i : Nat} :
    memoryMapConfigReadDescriptor c.installed section_ i ≠ .error .success := by
  rw [memoryMapConfigReadDescriptor_spec]
  cases hr : (readableRecords section_.bytes c.bytes)[i]? with
  | none => by_cases hmal : MalformedHeader c.bytes <;> simp [hmal]
  | some r => exact fun h => (recordDescriptor_error h).1 rfl

/-- What was read are the first readable records. -/
theorem Reads.map_take {ds : List Descriptor} (h : Reads c.installed section_ 0 ds) :
    ds.length ≤ (readableRecords section_.bytes c.bytes).length ∧
      ((readableRecords section_.bytes c.bytes).take ds.length).map recordDescriptor = ds.map .ok := by
  have hget : ∀ (k : Nat) (d : Descriptor), ds[k]? = some d → ∃ r, (readableRecords section_.bytes c.bytes)[k]? = some r ∧
      recordDescriptor r = .ok d := by
    intro k d hd
    have := h k d hd
    rw [Nat.zero_add] at this
    exact read_eq_ok this
  constructor
  · cases hl : ds.length with
    | zero => omega
    | succ n =>
      obtain ⟨r, hr, -⟩ := hget n _ (List.getElem?_eq_getElem (by omega))
      have := (List.getElem?_eq_some_iff.1 hr).1
      omega
  · apply List.ext_getElem?
    intro k
    rw [List.getElem?_map, List.getElem?_map]
    by_cases hk : k < ds.length
    · obtain ⟨r, hr, hd⟩ := hget k _ (List.getElem?_eq_getElem hk)
      rw [List.getElem?_take_of_lt hk, hr, List.getElem?_eq_getElem hk, Option.map_some,
        Option.map_some, hd]
    · rw [List.getElem?_eq_none (by rw [List.length_take]; omega), List.getElem?_eq_none (by omega)]
      rfl

/-- When nothing is left to read, all records have been read. -/
theorem Reads.all_read {ds : List Descriptor} (h : Reads c.installed section_ 0 ds)
    (hnext : memoryMapConfigReadDescriptor c.installed section_ ds.length = .error .notFound) :
    ¬ MalformedHeader c.bytes ∧ (records section_.bytes c.bytes).map recordDescriptor = ds.map .ok := by
  obtain ⟨hmal, hge⟩ := read_eq_notFound.1 hnext
  have hmap := h.map_take.2
  rw [List.take_of_length_le hge, readableRecords_of_sound hmal] at hmap
  exact ⟨hmal, hmap⟩

/-- Texts that are worth a descriptor fit the buffer and parse. -/
theorem parse_of_map_recordDescriptor {texts : List Bytes} {ds : List Descriptor}
    (h : texts.map recordDescriptor = ds.map .ok) :
    (∀ e ∈ texts, e.length < memoryMapConfigEntrySize ∧ ∃ d, memoryMapConfigParseDescriptor e = .ok d) ∧
      texts.map memoryMapConfigParseDescriptor = ds.map .ok := by
  have hok : ∀ e ∈ texts, ∃ d, recordDescriptor e = .ok d := by
    intro e he
    have : recordDescriptor e ∈ ds.map Except.ok := h ▸ List.mem_map_of_mem he
    obtain ⟨d, -, hd⟩ := List.mem_map.1 this
    exact ⟨d, hd.symm⟩
  constructor
  · intro e he
    obtain ⟨d, hd⟩ := hok e he
    exact ⟨(recordDescriptor_ok.1 hd).1, d, (recordDescriptor_ok.1 hd).2⟩
  · rw [← h]
    apply List.map_congr_left
    intro e he
    obtain ⟨d, hd⟩ := hok e he
    rw [hd, (recordDescriptor_ok.1 hd).2]

/-- A record the loop did not get past would have been refused. -/
theorem next_notFound {n : Nat} {s : EfiStatus} (hmal : ¬ MalformedHeader c.bytes)
    (hok : ∀ e ∈ records section_.bytes c.bytes, e.length < memoryMapConfigEntrySize ∧
      ∃ d, memoryMapConfigParseDescriptor e = .ok d)
    (hread : memoryMapConfigReadDescriptor c.installed section_ n = .error s) : s = .notFound := by
  rw [memoryMapConfigReadDescriptor_spec, readableRecords_of_sound hmal] at hread
  cases hr : (records section_.bytes c.bytes)[n]? with
  | none =>
    simp only [hr, hmal, ↓reduceIte] at hread
    exact (Except.error.inj hread).symm
  | some r =>
    obtain ⟨h1, d, h2⟩ := hok r (List.mem_of_getElem? hr)
    simp only [hr, recordDescriptor_ok.2 ⟨h1, h2⟩] at hread
    simp at hread

section End

variable {ds : List Descriptor} {n capacity : Nat} {status : EfiStatus}
  (hreads : Reads c.installed section_ 0 ds)
  (hend : LoadEnd c.installed section_ capacity n (n + ds.length) ds.length status)

include hreads hend

/-- What a successful end says of the records. -/
theorem LoadEnd.parsed_of_success (hok : status = .success) :
    ¬ MalformedHeader c.bytes ∧ ds ≠ [] ∧
      (records section_.bytes c.bytes).map recordDescriptor = ds.map .ok := by
  subst hok
  cases hend with
  | complete hread hne =>
    obtain ⟨hmal, hmap⟩ := hreads.all_read hread
    refine ⟨hmal, ?_, hmap⟩
    rintro rfl
    simp at hne
  | refused hread _ => exact absurd hread read_ne_success

/-- The load succeeds exactly when all records are good, and there are some, and they fit. -/
theorem LoadEnd.success_iff (hfit : n + ds.length ≤ capacity) :
    status = .success ↔ ¬ MalformedHeader c.bytes ∧ records section_.bytes c.bytes ≠ [] ∧
      (∀ e ∈ records section_.bytes c.bytes, e.length < memoryMapConfigEntrySize ∧
        ∃ d, memoryMapConfigParseDescriptor e = .ok d) ∧
      n + (records section_.bytes c.bytes).length ≤ capacity := by
  constructor
  · intro hok
    obtain ⟨hmal, hne, hmap⟩ := hend.parsed_of_success hreads hok
    have hlen := congrArg List.length hmap
    rw [List.length_map, List.length_map] at hlen
    refine ⟨hmal, ?_, (parse_of_map_recordDescriptor hmap).1, by omega⟩
    rintro hnil
    rw [hnil] at hlen
    exact hne (List.eq_nil_of_length_eq_zero hlen.symm)
  · rintro ⟨hmal, hne, hok, hroom⟩
    have hpos : 0 < (records section_.bytes c.bytes).length := List.length_pos_iff.2 hne
    cases hend with
    | nothing hread hc =>
      have hlen := congrArg List.length (hreads.all_read hread).2
      rw [List.length_map, List.length_map] at hlen
      omega
    | complete _ _ => rfl
    | refused hread hs => exact absurd (next_notFound hmal hok hread) hs
    | noRoom hread hc =>
      obtain ⟨r, hr, -⟩ := read_eq_ok hread
      rw [readableRecords_of_sound hmal] at hr
      have := (List.getElem?_eq_some_iff.1 hr).1
      omega

/-- The load finds nothing exactly when there is nothing. -/
theorem LoadEnd.notFound_iff :
    status = .notFound ↔ ¬ MalformedHeader c.bytes ∧ records section_.bytes c.bytes = [] := by
  constructor
  · rintro rfl
    cases hend with
    | nothing hread hc =>
      obtain ⟨hmal, hmap⟩ := hreads.all_read hread
      have hlen := congrArg List.length hmap
      rw [List.length_map, List.length_map] at hlen
      exact ⟨hmal, List.eq_nil_of_length_eq_zero (by omega)⟩
    | refused _ hs => exact absurd rfl hs
  · rintro ⟨hmal, hnil⟩
    have hlen := hreads.map_take.1
    rw [readableRecords_of_sound hmal, hnil, List.length_nil] at hlen
    have hread : memoryMapConfigReadDescriptor c.installed section_ ds.length = .error .notFound :=
      read_eq_notFound.2 ⟨hmal, by rw [readableRecords_of_sound hmal, hnil]; exact Nat.zero_le _⟩
    cases hend with
    | nothing _ _ => rfl
    | complete _ hne => omega
    | refused hread' hs =>
      rw [hread] at hread'
      exact absurd (Except.error.inj hread').symm hs
    | noRoom hread' _ =>
      rw [hread] at hread'
      simp at hread'

end End

end Installed

/-- **A section is loaded completely and in order, or not at all.** Let the entries be the records of
the section that are not empty. The loop ends, whatever bound is put on its rounds. It succeeds exactly
when every header of the file is well formed, there are entries, each is shorter than the buffer and
parses, and all of them fit; the array is then the old prefix and the parsed entries. It finds nothing
exactly when every header is well formed and there are no entries. Slots below the initial count or from
the capacity on are never touched. -/
theorem memoryMapConfigLoadDescriptorSection_complete (c : ConfigText) (section_ : CStr)
    (capacity : Nat) (b : Buf Descriptor) (hcount : b.count ≤ capacity)
    (hcap : capacity ≤ b.slots.length) :
    let entries := (records section_.bytes c.bytes).filter (· ≠ [])
    ∃ status b',
      memoryMapConfigLoadDescriptorSection c.installed section_ capacity b = some (status, b') ∧
      (∀ fuel > capacity, loadLoop c.installed section_ capacity b.count fuel 0 b = some (status, b')) ∧
      (status = .success ↔ ¬ MalformedHeader c.bytes ∧ entries ≠ [] ∧
        (∀ e ∈ entries, e.length < memoryMapConfigEntrySize ∧ ∃ d, memoryMapConfigParseDescriptor e = .ok d) ∧
        b.count + entries.length ≤ capacity) ∧
      (status = .success → ∃ ds, entries.map memoryMapConfigParseDescriptor = ds.map .ok ∧
        b'.count = b.count + ds.length ∧ b'.slots.take b'.count = b.slots.take b.count ++ ds) ∧
      (status = .notFound ↔ ¬ MalformedHeader c.bytes ∧ entries = []) ∧
      b'.slots.length = b.slots.length ∧
      ∀ i, i < b.count ∨ capacity ≤ i → b'.slots[i]? = b.slots[i]? := by
  intro entries
  have hentries : entries = records section_.bytes c.bytes :=
    List.filter_eq_self.2 fun r hr => by simpa using record_ne_nil hr
  obtain ⟨status, ds, hrun, hfit, hreads, hend⟩ := loadLoop_spec c.installed section_ b.count (capacity + 1) 0 b.count
    hcount (by omega)
  have hrun := hrun b.slots hcap
  rw [Nat.zero_add] at hend
  rw [hentries]
  refine ⟨status, ⟨overwrite b.slots b.count ds, b.count + ds.length⟩, hrun, ?_,
    hend.success_iff hreads hfit, ?_,
    hend.notFound_iff hreads, ?_, ?_⟩
  · intro fuel hf
    rw [loadLoop_fuel fuel (capacity + 1) 0 b (by omega) (by omega)]
    exact hrun
  · intro hok
    obtain ⟨-, -, hmap⟩ := hend.parsed_of_success hreads hok
    exact ⟨ds, (parse_of_map_recordDescriptor hmap).2, rfl, take_overwrite (by omega) ds⟩
  · exact length_overwrite (by omega)
  · intro i hi
    exact getElem?_overwrite_of_outside (by omega) (by omega)

/-- One record, in a section that is opened in another letter case, into an array of three slots. -/
theorem memoryMapConfigLoadDescriptorSection_complete_one_record :
    ∃ b', memoryMapConfigLoadDescriptorSection
      (ConfigText.mk (ascii "[m]\n1,2,\"A, b\",NoHob,IO,TESTED,Conv,DEVICE #c")
        (by decide) (by decide +kernel) (by decide +kernel)).installed
      ⟨ascii "M", by decide⟩ 2 ⟨List.replicate 3 zeroDescriptor, 0⟩ = some (.success, b') ∧ b'.count = 1 := by
  let c : ConfigText :=
    ⟨ascii "[m]\n1,2,\"A, b\",NoHob,IO,TESTED,Conv,DEVICE #c",
      by decide, by decide +kernel, by decide +kernel⟩
  have hrecords : records (ascii "M") c.bytes =
      [ascii "1,2,\"A, b\",NoHob,IO,TESTED,Conv,DEVICE"] := by decide +kernel
  obtain ⟨status, b', hload, -, hsuccess, harray, -⟩ := memoryMapConfigLoadDescriptorSection_complete c
    ⟨ascii "M", by decide⟩ 2 ⟨List.replicate 3 zeroDescriptor, 0⟩ (by decide) (by decide)
  simp only [hrecords] at hsuccess harray
  have hok : status = .success := hsuccess.2 ⟨by decide +kernel, by decide +kernel, by
    intro e he
    obtain rfl : e = ascii "1,2,\"A, b\",NoHob,IO,TESTED,Conv,DEVICE" := by
      simpa using List.mem_of_mem_filter he
    exact ⟨by decide +kernel,
      ⟨⟨⟨ascii "A, b", by decide⟩, by decide⟩, 1, 2, .noHob, .io, .tested, .conventionalMemory, .device⟩,
      by decide +kernel⟩,
    by decide +kernel⟩
  obtain ⟨ds, hds, hcount, -⟩ := harray hok
  have hlen : ds.length = 1 := by
    have := congrArg List.length hds
    rw [List.length_map, List.length_map] at this
    rw [← this]
    decide +kernel
  exact ⟨b', hok ▸ hload, by rw [hcount, hlen]⟩

end Andromeda
