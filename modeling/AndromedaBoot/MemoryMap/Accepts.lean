import AndromedaBoot.MemoryMap.Locate

/-!
# The configurations that are served

Which boot configurations give a platform memory map, and which map: both sections have records, no header of the
file is malformed, every record fits the record buffer and parses, everything fits the arrays, and with the log in
memory the PStore region is given, laid over the first section, and placed in a bank beside all else
(`getPlatformMemoryMap_success_iff`).
-/

namespace Andromeda

open Fill

/-- The records of a section make the descriptors `ds`. -/
structure SectionParses (c : ConfigText) (section_ : CStr) (ds : List Descriptor) : Prop where
  sound : ¬ MalformedHeader c.bytes
  nonempty : ds ≠ []
  parses : (records section_.bytes c.bytes).map recordDescriptor = ds.map .ok

/-- What becomes of the first section when the PStore region is laid over it. -/
def Overlaid (platform : Platform) (c : ConfigText) (ms es : List Descriptor) : Prop :=
  if platform.useMemoryForSerialOutput then
    ∃ p, memoryMapConfigLoadPStoreDescriptor c.installed = .ok p ∧ es = carve p ms false ∧
      es.length ≤ maxDescriptorCount - 1
  else es = ms

/-- The configuration means the map `ds`. -/
def Means (platform : Platform) (c : ConfigText) (ds : List Descriptor) : Prop :=
  ∃ ms es rs, SectionParses c memoryMapSection ms ∧ ms.length ≤ maxDescriptorCount - 1 ∧ Overlaid platform c ms es ∧
    SectionParses c registerMapSection rs ∧ ds = es ++ rs ∧ ds.length ≤ maxDescriptorCount - 1 ∧
    (platform.useMemoryForSerialOutput = true → memoryMapConfigValidatePStorePlacement ds platform.ddrBankRegions = .success)

variable {platform : Platform} {c : ConfigText} {section_ : CStr} {ds ms rs es : List Descriptor}

/-- How the load of a section ends. -/
theorem loadSection_ends (c : ConfigText) (section_ : CStr) (hds : ds.length ≤ maxDescriptorCount - 1) :
    ∃ status rs, Ends (Holds · ds) (loadSection c.installed section_) status (Holds · (ds ++ rs)) ∧
      ds.length + rs.length ≤ maxDescriptorCount - 1 ∧ Reads c.installed section_ 0 rs ∧
      LoadEnd c.installed section_ (maxDescriptorCount - 1) ds.length (ds.length + rs.length) rs.length status := by
  obtain ⟨status, rs, hrun, hfit, hreads, hend⟩ := loadLoop_spec c.installed section_ ds.length
    (maxDescriptorCount - 1 + 1) 0 ds.length hds (by omega)
  have hmax : maxDescriptorCount = 128 := rfl
  rw [Nat.zero_add] at hend
  refine ⟨status, rs, ?_, hfit, hreads, hend⟩
  rintro ⟨⟨slots, n⟩, workspace⟩ ⟨hslots, hws, rfl, hinUse⟩
  simp only at hslots hws hinUse
  refine ⟨(⟨overwrite slots ds.length rs, ds.length + rs.length⟩, workspace), ?_, ?_, hws, List.length_append.symm, ?_⟩
  · rw [loadSection, memoryMapConfigLoadDescriptorSection, hrun slots (by omega)]
    rfl
  · exact (length_overwrite (by omega)).trans hslots
  · change (overwrite slots ds.length rs).take (ds.length + rs.length) = ds ++ rs
    rw [take_overwrite (by omega), hinUse]

theorem map_ok_injective {xs ys : List Descriptor}
    (h : xs.map (Except.ok : Descriptor → Except EfiStatus Descriptor) = ys.map .ok) : xs = ys :=
  List.map_injective_iff.2 (fun _ _ => Except.ok.inj) h

/-- A section that parses is loaded. -/
theorem SectionParses.loads (h : SectionParses c section_ rs) (hfit : ds.length + rs.length ≤ maxDescriptorCount - 1) :
    Ends (Holds · ds) (loadSection c.installed section_) .success (Holds · (ds ++ rs)) := by
  obtain ⟨status, rs', hends, hfit', hreads, hend⟩ :=
    loadSection_ends c section_ (show ds.length ≤ maxDescriptorCount - 1 by omega)
  have hlen := congrArg List.length h.parses
  rw [List.length_map, List.length_map] at hlen
  have hok : status = .success := by
    refine (hend.success_iff hreads hfit').2 ⟨h.sound, ?_, (parse_of_map_recordDescriptor h.parses).1, by omega⟩
    intro hnil
    rw [hnil] at hlen
    exact h.nonempty (List.eq_nil_of_length_eq_zero hlen.symm)
  obtain ⟨-, -, hmap⟩ := hend.parsed_of_success hreads hok
  obtain rfl : rs = rs' := map_ok_injective (h.parses.symm.trans hmap)
  exact hok ▸ hends

/-- A section that is loaded parses. -/
theorem SectionParses.of_load (hds : ds.length ≤ maxDescriptorCount - 1) {s s' : Buf Descriptor × List Descriptor}
    (hs : Holds s ds) (h : loadSection c.installed section_ s = some (.success, s')) :
    ∃ rs, SectionParses c section_ rs ∧ Holds s' (ds ++ rs) ∧ ds.length + rs.length ≤ maxDescriptorCount - 1 := by
  obtain ⟨status, rs, hends, hfit, hreads, hend⟩ := loadSection_ends c section_ hds
  obtain ⟨s₁, hs₁, hholds⟩ := hends s hs
  rw [h, Option.some.injEq, Prod.mk.injEq] at hs₁
  obtain ⟨rfl, rfl⟩ := hs₁
  obtain ⟨hsound, hne, hmap⟩ := hend.parsed_of_success hreads rfl
  exact ⟨rs, ⟨hsound, hne, hmap⟩, hholds, hfit⟩

theorem SectionParses.valid (h : SectionParses c section_ rs) : ∀ d ∈ rs, d.Valid := by
  intro d hd
  have hmem : Except.ok d ∈ (records section_.bytes c.bytes).map recordDescriptor := h.parses ▸ List.mem_map_of_mem hd
  obtain ⟨r, -, hr⟩ := List.mem_map.1 hmem
  exact memoryMapConfigParseDescriptor_valid (recordDescriptor_ok.1 hr).2

/-! ## The step between the sections -/

theorem Overlaid.ends (h : Overlaid platform c ms es) (hms : ms.length ≤ maxDescriptorCount - 1) :
    Ends (Holds · ms) (fun s => if platform.useMemoryForSerialOutput then overlayPStore c.installed s else some (.success, s))
      .success (Holds · es) ∧ es.length ≤ maxDescriptorCount - 1 := by
  unfold Overlaid at h
  cases hserial : platform.useMemoryForSerialOutput with
  | false =>
    simp only [hserial, Bool.false_eq_true, ↓reduceIte] at h ⊢
    subst h
    exact ⟨fun s hs => ⟨s, rfl, hs⟩, hms⟩
  | true =>
    simp only [hserial, ↓reduceIte] at h ⊢
    obtain ⟨p, hp, rfl, hfit⟩ := h
    refine ⟨?_, hfit⟩
    intro s hs
    have hmax : maxDescriptorCount = 128 := rfl
    obtain ⟨b', ws, hrun, hws, hlen, hok, -⟩ := memoryMapConfigOverlayDescriptor_spec s.1 s.2
      (show s.1.count ≤ maxDescriptorCount - 1 by rw [hs.count]; exact hms) (by rw [hs.slots]; omega)
      (by rw [hs.workspace]; omega) (memoryMapConfigLoadPStoreDescriptor_ok hp).1
    rw [hs.inUse] at hrun hok
    rw [if_pos hfit] at hrun
    obtain ⟨h1, h2⟩ := hok hfit
    refine ⟨(b', ws), by simp only [overlayPStore, hp, hrun], ⟨?_, ?_, h2, h1⟩⟩
    · rw [hlen, hs.slots]
    · rw [hws, hs.workspace]

theorem Overlaid.of_step (hms : ms.length ≤ maxDescriptorCount - 1) {s s' : Buf Descriptor × List Descriptor} (hs : Holds s ms)
    (h : (if platform.useMemoryForSerialOutput then overlayPStore c.installed s else some (.success, s)) = some (.success, s')) :
    ∃ es, Overlaid platform c ms es ∧ Holds s' es ∧ es.length ≤ maxDescriptorCount - 1 := by
  unfold Overlaid
  cases hserial : platform.useMemoryForSerialOutput with
  | false =>
    simp only [hserial, Bool.false_eq_true, ↓reduceIte, Option.some.injEq, Prod.mk.injEq, true_and] at h ⊢
    exact ⟨ms, rfl, h ▸ hs, hms⟩
  | true =>
    simp only [hserial, ↓reduceIte] at h ⊢
    obtain ⟨status, es, hends, hlen, hok⟩ := overlayPStore_spec c.installed hms
    obtain ⟨s₁, hs₁, hholds⟩ := hends s hs
    rw [h, Option.some.injEq, Prod.mk.injEq] at hs₁
    obtain ⟨rfl, rfl⟩ := hs₁
    obtain ⟨p, hp, rfl⟩ := hok rfl
    exact ⟨_, ⟨p, hp, rfl, hlen⟩, hholds, hlen⟩

theorem Overlaid.valid (h : Overlaid platform c ms es) (hms : ∀ d ∈ ms, d.Valid) : ∀ d ∈ es, d.Valid := by
  unfold Overlaid at h
  split_ifs at h
  · obtain ⟨p, hp, rfl, -⟩ := h
    exact carve_valid (memoryMapConfigLoadPStoreDescriptor_ok hp).1 hms
  · exact h ▸ hms

/-! ## The whole file -/

/-- A configuration that means a map loads it. -/
theorem Means.loads (h : Means platform c ds) : Loads platform c.installed .success ds := by
  obtain ⟨ms, es, rs, hms, hfit₁, hover, hrs, rfl, hfit, hplaced⟩ := h
  rw [List.length_append] at hfit
  have hvalid : ∀ d ∈ es ++ rs, d.Valid := fun d hd =>
    (List.mem_append.1 hd).elim (hover.valid hms.valid d) (hrs.valid d)
  have hne : es ++ rs ≠ [] := fun hnil => hrs.nonempty (List.append_eq_nil_iff.1 hnil).2
  have hload₁ := hms.loads (show ([] : List Descriptor).length + ms.length ≤ maxDescriptorCount - 1 by simpa using hfit₁)
  rw [List.nil_append] at hload₁
  have hterm := terminateMap_spec platform (by rwa [List.length_append]) hvalid hne
  have hstatus : (if platform.useMemoryForSerialOutput then
      memoryMapConfigValidatePStorePlacement (es ++ rs) platform.ddrBankRegions else .success) = .success := by
    split_ifs with hserial
    · exact hplaced hserial
    · rfl
  rw [hstatus] at hterm
  have hends := hload₁.andThen_ok ((hover.ends hfit₁).1.andThen_ok ((hrs.loads hfit).andThen_ok hterm))
  -- the load has one outcome, and its map ends at the same terminator
  obtain ⟨status, ds', hloads⟩ := loadPlatformMemoryMap_spec platform c.installed
  obtain ⟨s, hs, -, hends⟩ := hends (⟨emptySlots, 0⟩, emptySlots) ⟨List.length_replicate, List.length_replicate, rfl, rfl⟩
  obtain ⟨s', hs', -, -, hterm'⟩ := hloads.run emptySlots emptySlots List.length_replicate List.length_replicate
  have hload : loadPlatformMemoryMap platform c.installed emptySlots emptySlots = some (.success, s) := hs
  rw [hload, Option.some.injEq, Prod.mk.injEq] at hs'
  obtain ⟨rfl, rfl⟩ := hs'
  rwa [← liveEntries_of_terminated (hterm' rfl), liveEntries_of_terminated hends] at hloads

/-- A configuration that loads a map means it. -/
theorem Means.of_loads (h : Loads platform c.installed .success ds) : Means platform c ds := by
  obtain ⟨s, hs, -, -, hterm⟩ := h.run emptySlots emptySlots List.length_replicate List.length_replicate
  obtain ⟨s₁, h₁, hs⟩ := andThen_eq_ok.1 hs
  obtain ⟨s₂, h₂, hs⟩ := andThen_eq_ok.1 hs
  obtain ⟨s₃, h₃, h₄⟩ := andThen_eq_ok.1 hs
  obtain ⟨ms, hms, hholds₁, hfit₁⟩ :=
    SectionParses.of_load (show ([] : List Descriptor).length ≤ maxDescriptorCount - 1 from Nat.zero_le _)
    ⟨List.length_replicate, List.length_replicate, rfl, rfl⟩ h₁
  rw [List.nil_append] at hholds₁
  rw [List.length_nil, Nat.zero_add] at hfit₁
  obtain ⟨es, hover, hholds₂, hfit₂⟩ := Overlaid.of_step hfit₁ hholds₁ h₂
  obtain ⟨rs, hrs, hholds₃, hfit₃⟩ := SectionParses.of_load hfit₂ hholds₂ h₃
  have hvalid : ∀ d ∈ es ++ rs, d.Valid := fun d hd =>
    (List.mem_append.1 hd).elim (hover.valid hms.valid d) (hrs.valid d)
  have hne : es ++ rs ≠ [] := fun hnil => hrs.nonempty (List.append_eq_nil_iff.1 hnil).2
  have hfit : (es ++ rs).length ≤ maxDescriptorCount - 1 := by rwa [List.length_append]
  obtain ⟨s', hs', -, hterm'⟩ := terminateMap_spec platform hfit hvalid hne s₃ hholds₃
  rw [h₄, Option.some.injEq, Prod.mk.injEq] at hs'
  obtain ⟨hstatus, rfl⟩ := hs'
  obtain rfl : ds = es ++ rs := by
    rw [← liveEntries_of_terminated (hterm rfl), liveEntries_of_terminated hterm']
  refine ⟨ms, es, rs, hms, hfit₁, hover, hrs, rfl, hfit, ?_⟩
  intro hserial
  rw [if_pos hserial] at hstatus
  exact hstatus.symm

/-- **The configurations that are served.** The first call succeeds exactly when the file means a map whose merge with
the banks fits, and then that merge is what the caller sees. -/
theorem getPlatformMemoryMap_success_iff (platform : Platform) (c : ConfigText) (es : List Descriptor) :
    (∃ map g, getPlatformMemoryMap platform c.installed .initial = some (.success, map, g) ∧ liveEntries map = es) ↔
      ∃ ds, Means platform c ds ∧ (mergedMap platform.ddrBankRegions ds).length ≤ maxDescriptorCount - 1 ∧
        es = mergedMap platform.ddrBankRegions ds := by
  constructor
  · rintro ⟨map, g, hget, rfl⟩
    obtain ⟨ds, hserves⟩ := serves_of_first_call hget
    obtain ⟨g', hget', -, -, hterm⟩ := getPlatformMemoryMap_spec hserves (MapGlobals.sound_initial ds)
    rw [hget, Option.some.injEq, Prod.mk.injEq, Prod.mk.injEq] at hget'
    obtain ⟨-, rfl, rfl⟩ := hget'
    exact ⟨ds, .of_loads hserves.loads, hserves.fits, liveEntries_of_terminated hterm⟩
  · rintro ⟨ds, hmeans, hfit, rfl⟩
    obtain ⟨g', hget, -, -, hterm⟩ := getPlatformMemoryMap_spec ⟨hmeans.loads, hfit⟩ (MapGlobals.sound_initial ds)
    exact ⟨g'.merged, g', hget, liveEntries_of_terminated hterm⟩

end Andromeda
