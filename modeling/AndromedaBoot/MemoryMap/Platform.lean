import AndromedaBoot.MemoryMap.Merge
import AndromedaBoot.MemoryMap.PStore
import AndromedaBoot.MemoryMap.Section

/-!
# The platform memory map (AndromedaMemoryMapLib.c)

The configured map is loaded once from the sections `MemoryMap` and `RegisterMap`, and merged with the
DDR banks each time it is asked for.

| here | there |
| --- | --- |
| `Platform` | the build flag `USE_MEMORY_FOR_SERIAL_OUTPUT` and `GetPlatformDdrBankRegions` |
| `MapGlobals` | the statics (:14-22) |
| `loadPlatformMemoryMap` | :31 |
| `ensurePlatformMemoryMapLoaded` | :105 |
| `getPlatformMemoryMap` | :252 |

`GetPlatformDdrBankRegions` returns a table that is fixed for the boot and never fails when asked
properly. `ASSERT_EFI_ERROR` is not modelled: what it would stop at is the status that comes back.
-/

namespace Andromeda

open Fill

/-- What a build for one platform fixes. -/
structure Platform where
  useMemoryForSerialOutput : Bool
  ddrBankRegions : List DdrBankRegion
deriving DecidableEq, Repr

/-- `gDdrBankRegions` of SM8150 (PlatformDdrBankMapLib.c:11). -/
def sm8150DdrBankRegions : List DdrBankRegion :=
  [⟨0x80000000, 0x3CC00000⟩, ⟨0xC0000000, 0x80000000⟩, ⟨0x140000000, 0xC0000000⟩]

/-- The statics of the library; the arrays have `MAX_ARM_MEMORY_REGION_DESCRIPTOR_COUNT` slots. -/
structure MapGlobals where
  device : List Descriptor
  pStoreWorkspace : List Descriptor
  merged : List Descriptor
  memoryMapLoaded : Bool
  memoryMapLoadStatus : EfiStatus
deriving DecidableEq, Repr

def emptySlots : List Descriptor := List.replicate maxDescriptorCount zeroDescriptor

/-- The statics as the image is loaded. -/
def MapGlobals.initial : MapGlobals := ⟨emptySlots, emptySlots, emptySlots, false, .notReady⟩

/-- The section names of the loader. -/
def memoryMapSection : CStr := ⟨ascii "MemoryMap", by decide⟩

def registerMapSection : CStr := ⟨ascii "RegisterMap", by decide⟩

section Code

variable (platform : Platform) (st : BootConfig)

/-- A section loaded into `gDeviceMemoryDescriptorEx`; the PStore workspace rides along. -/
def loadSection (section_ : CStr) (s : Buf Descriptor × List Descriptor) :
    Option (EfiStatus × (Buf Descriptor × List Descriptor)) :=
  (memoryMapConfigLoadDescriptorSection st section_ (maxDescriptorCount - 1) s.1).map fun (status, b) =>
    (status, (b, s.2))

/-- The PStore region laid over what is loaded so far (:58-72). -/
def overlayPStore (s : Buf Descriptor × List Descriptor) :
    Option (EfiStatus × (Buf Descriptor × List Descriptor)) :=
  match memoryMapConfigLoadPStoreDescriptor st with
  | .error status => some (status, s)
  | .ok pStoreDescriptor => memoryMapConfigOverlayDescriptor (maxDescriptorCount - 1) pStoreDescriptor s.1 s.2

/-- The end of `LoadPlatformMemoryMap` (:83-101). -/
def terminateMap (s : Buf Descriptor × List Descriptor) :
    Option (EfiStatus × (Buf Descriptor × List Descriptor)) :=
  if s.1.count = 0 then some (.notFound, s)
  else
    (write s.1.slots s.1.count memoryMapTerminator).map fun slots =>
      (if platform.useMemoryForSerialOutput then
          memoryMapConfigValidatePStorePlacement (slots.take s.1.count) platform.ddrBankRegions
        else .success, (⟨slots, s.1.count⟩, s.2))

/-- `LoadPlatformMemoryMap` (:31) into the array `device`. -/
def loadPlatformMemoryMap (device workspace : List Descriptor) :
    Option (EfiStatus × (Buf Descriptor × List Descriptor)) :=
  andThen .success (loadSection st memoryMapSection (⟨device, 0⟩, workspace)) fun s =>
  andThen .success (if platform.useMemoryForSerialOutput then overlayPStore st s else some (.success, s)) fun s =>
  andThen .success (loadSection st registerMapSection s) (terminateMap platform)

/-- `EnsurePlatformMemoryMapLoaded` (:105). -/
def ensurePlatformMemoryMapLoaded (g : MapGlobals) : Option (EfiStatus × MapGlobals) :=
  if g.memoryMapLoaded then some (g.memoryMapLoadStatus, g)
  else
    (loadPlatformMemoryMap platform st g.device g.pStoreWorkspace).map fun (status, (b, workspace)) =>
      (status, { g with
        device := b.slots
        pStoreWorkspace := workspace
        memoryMapLoaded := status ≠ .notFound
        memoryMapLoadStatus := status })

/-- `GetPlatformMemoryMap` (:252): the status it logs and asserts on, and the array it points to. -/
def getPlatformMemoryMap (g : MapGlobals) : Option (EfiStatus × List Descriptor × MapGlobals) :=
  match ensurePlatformMemoryMapLoaded platform st g with
  | none => none
  | some (status, g) =>
    if status ≠ .success then some (status, [memoryMapTerminator], g)
    else
      (mergeDdrBankRegions g.device platform.ddrBankRegions g.merged).map fun (status, m) =>
        (status, if status ≠ .success then [memoryMapTerminator] else m.slots, { g with merged := m.slots })

end Code

/-! ## What the loader leaves behind -/

/-- What is known of a configured map that was accepted. -/
structure Accepted (platform : Platform) (st : BootConfig) (ds : List Descriptor) : Prop where
  valid : ∀ d ∈ ds, d.Valid
  nonempty : ds ≠ []
  length_le : ds.length ≤ maxDescriptorCount - 1
  pStore : platform.useMemoryForSerialOutput = true → ∃ p ms rs, memoryMapConfigLoadPStoreDescriptor st = .ok p ∧
    ds = carve p ms false ++ rs ∧ memoryMapConfigValidatePStorePlacement ds platform.ddrBankRegions = .success

/-- The array holds `ds` in its slots in use. -/
structure Holds (s : Buf Descriptor × List Descriptor) (ds : List Descriptor) : Prop where
  slots : s.1.slots.length = maxDescriptorCount
  workspace : s.2.length = maxDescriptorCount
  count : s.1.count = ds.length
  inUse : s.1.slots.take s.1.count = ds

theorem loadSection_spec (st : BootConfig) (section_ : CStr) {ds : List Descriptor}
    (hds : ds.length ≤ maxDescriptorCount - 1) :
    ∃ status rs, Ends (Holds · ds) (loadSection st section_) status (Holds · (ds ++ rs)) ∧
      (ds ++ rs).length ≤ maxDescriptorCount - 1 ∧ ∀ d ∈ rs, d.Valid := by
  obtain ⟨status, rs, hrun, hfit, hreads, -⟩ := loadLoop_spec st section_ ds.length (maxDescriptorCount - 1 + 1) 0
    ds.length hds (by omega)
  have hmax : maxDescriptorCount = 128 := rfl
  refine ⟨status, rs, ?_, by rwa [List.length_append], hreads.valid⟩
  rintro ⟨⟨slots, n⟩, workspace⟩ ⟨hslots, hws, rfl, hinUse⟩
  simp only at hslots hws hinUse
  refine ⟨(⟨overwrite slots ds.length rs, ds.length + rs.length⟩, workspace), ?_, ?_⟩
  · simp only [loadSection, memoryMapConfigLoadDescriptorSection]
    rw [hrun slots (by omega)]
    rfl
  · refine ⟨(length_overwrite (by omega)).trans hslots, hws, List.length_append.symm, ?_⟩
    change (overwrite slots ds.length rs).take (ds.length + rs.length) = ds ++ rs
    rw [take_overwrite (by omega), hinUse]

theorem overlayPStore_spec (st : BootConfig) {ds : List Descriptor}
    (hds : ds.length ≤ maxDescriptorCount - 1) :
    ∃ status es, Ends (Holds · ds) (overlayPStore st) status (Holds · es) ∧
      es.length ≤ maxDescriptorCount - 1 ∧
      (status = .success → ∃ p, memoryMapConfigLoadPStoreDescriptor st = .ok p ∧ es = carve p ds false) := by
  cases hp : memoryMapConfigLoadPStoreDescriptor st with
  | error status =>
    refine ⟨status, ds, fun s hs => ⟨s, by simp only [overlayPStore, hp], hs⟩, hds, ?_⟩
    intro h
    exact absurd h (memoryMapConfigLoadPStoreDescriptor_error hp)
  | ok p =>
    have hmax : maxDescriptorCount = 128 := rfl
    have hspec := fun s (hs : Holds s ds) => memoryMapConfigOverlayDescriptor_spec s.1 s.2
      (show s.1.count ≤ maxDescriptorCount - 1 by rw [hs.count]; exact hds)
      (by rw [hs.slots]; omega) (by rw [hs.workspace]; omega) (memoryMapConfigLoadPStoreDescriptor_ok hp).1
    by_cases hfit : (carve p ds false).length ≤ maxDescriptorCount - 1
    · refine ⟨.success, carve p ds false, ?_, hfit, fun _ => ⟨p, rfl, rfl⟩⟩
      intro s hs
      obtain ⟨b', ws, hrun, hws, hlen, hok, -⟩ := hspec s hs
      rw [hs.inUse] at hrun hok
      rw [if_pos hfit] at hrun
      obtain ⟨h1, h2⟩ := hok hfit
      refine ⟨(b', ws), by simp only [overlayPStore, hp, hrun], ⟨?_, ?_, h2, h1⟩⟩
      · rw [hlen, hs.slots]
      · rw [hws, hs.workspace]
    · refine ⟨.outOfResources, ds, ?_, hds, fun h => by simp at h⟩
      intro s hs
      obtain ⟨b', ws, hrun, hws, hlen, -, hno⟩ := hspec s hs
      rw [hs.inUse] at hrun hno
      rw [if_neg hfit] at hrun
      obtain rfl := hno hfit
      refine ⟨(s.1, ws), by simp only [overlayPStore, hp, hrun], ⟨hs.slots, ?_, hs.count, hs.inUse⟩⟩
      rw [hws, hs.workspace]

/-- The step between the two sections. -/
theorem pStoreStep_spec (platform : Platform) (st : BootConfig) {ms : List Descriptor}
    (hms : ms.length ≤ maxDescriptorCount - 1) (hvalid : ∀ d ∈ ms, d.Valid) :
    ∃ status es, Ends (Holds · ms)
        (fun s => if platform.useMemoryForSerialOutput then overlayPStore st s else some (.success, s)) status
        (Holds · es) ∧
      es.length ≤ maxDescriptorCount - 1 ∧ (status = .success → ∀ d ∈ es, d.Valid) ∧
      (status = .success → platform.useMemoryForSerialOutput = true → ∃ p,
        memoryMapConfigLoadPStoreDescriptor st = .ok p ∧ es = carve p ms false) := by
  by_cases hserial : platform.useMemoryForSerialOutput = true
  · obtain ⟨status, es, h1, h2, h3⟩ := overlayPStore_spec st hms
    simp only [hserial, ↓reduceIte]
    refine ⟨status, es, h1, h2, ?_, fun h _ => h3 h⟩
    intro h
    obtain ⟨p, hp, rfl⟩ := h3 h
    exact carve_valid (memoryMapConfigLoadPStoreDescriptor_ok hp).1 hvalid
  · simp only [hserial, Bool.false_eq_true, ↓reduceIte]
    exact ⟨.success, ms, fun s hs => ⟨s, rfl, hs⟩, hms, fun _ => hvalid, fun _ h => h.elim⟩

theorem terminateMap_spec (platform : Platform) {ds : List Descriptor}
    (hds : ds.length ≤ maxDescriptorCount - 1) (hvalid : ∀ d ∈ ds, d.Valid) (hne : ds ≠ []) :
    Ends (Holds · ds) (terminateMap platform)
      (if platform.useMemoryForSerialOutput then memoryMapConfigValidatePStorePlacement ds platform.ddrBankRegions
        else .success)
      (fun s => Holds s ds ∧ Terminated s.1.slots ds) := by
  rintro ⟨⟨slots, n⟩, workspace⟩ ⟨hslots, hws, rfl, hinUse⟩
  simp only at hslots hws hinUse
  have hmax : maxDescriptorCount = 128 := rfl
  have hlt : ds.length < slots.length := by omega
  have hpos : ds.length ≠ 0 := by simpa using hne
  have htake : (slots.set ds.length memoryMapTerminator).take ds.length = ds := by
    rw [List.take_set_of_le (le_refl _), hinUse]
  refine ⟨(⟨slots.set ds.length memoryMapTerminator, ds.length⟩, workspace), ?_, ⟨?_, hws, rfl, htake⟩,
    ?_, ?_⟩
  · simp only [terminateMap, hpos, ↓reduceIte, write, hlt, Option.map_some, htake]
  · rw [List.length_set, hslots]
  · refine ⟨memoryMapTerminator, (slots.set ds.length memoryMapTerminator).drop (ds.length + 1), ?_,
      rfl⟩
    conv_lhs => rw [← List.take_append_drop ds.length (slots.set ds.length memoryMapTerminator), htake]
    rw [List.drop_eq_getElem_cons (by rw [List.length_set]; exact hlt), List.getElem_set_self]
  · exact fun d hd => (hvalid d hd).pos

/-- The outcome of a load, whatever is in the arrays: its status, and the map `ds` it leaves in front of a
terminator when it succeeds. -/
structure Loads (platform : Platform) (st : BootConfig) (status : EfiStatus) (ds : List Descriptor) : Prop where
  run : ∀ device workspace : List Descriptor, device.length = maxDescriptorCount → workspace.length = maxDescriptorCount →
    ∃ s, loadPlatformMemoryMap platform st device workspace = some (status, s) ∧
      s.1.slots.length = maxDescriptorCount ∧ s.2.length = maxDescriptorCount ∧
      (status = .success → Terminated s.1.slots ds)
  accepted : status = .success → Accepted platform st ds

/-- **`LoadPlatformMemoryMap`** never leaves its arrays, and its outcome depends only on the platform and
the configuration. -/
theorem loadPlatformMemoryMap_spec (platform : Platform) (st : BootConfig) :
    ∃ status ds, Loads platform st status ds := by
  let pStoreStep := fun s => if platform.useMemoryForSerialOutput then overlayPStore st s else some (.success, s)
  let registers := fun s => andThen .success (loadSection st registerMapSection s) (terminateMap platform)
  let load := fun s => andThen .success (loadSection st memoryMapSection s) fun s =>
    andThen .success (pStoreStep s) registers
  -- an error at any step is the status of the load
  have herror : ∀ {status : EfiStatus} {es : List Descriptor}, Ends (Holds · []) load status (Holds · es) →
      status ≠ .success → ∃ status ds, Loads platform st status ds := by
    intro status es hends hne
    refine ⟨status, [], ?_, fun h => absurd h hne⟩
    intro device workspace hd hw
    obtain ⟨s, hs, hholds⟩ := hends (⟨device, 0⟩, workspace) ⟨hd, hw, rfl, rfl⟩
    exact ⟨s, hs, hholds.slots, hholds.workspace, fun h => absurd h hne⟩
  obtain ⟨status₁, ms, hload₁, hlen₁, hvalid₁⟩ := loadSection_spec st memoryMapSection
    (show ([] : List Descriptor).length ≤ maxDescriptorCount - 1 from Nat.zero_le _)
  rw [List.nil_append] at hload₁ hlen₁
  by_cases h₁ : status₁ = .success
  swap
  · exact herror (hload₁.andThen_error h₁) h₁
  subst h₁
  obtain ⟨status₂, es, hload₂, hlen₂, hvalid₂, hpStore⟩ := pStoreStep_spec platform st hlen₁ hvalid₁
  by_cases h₂ : status₂ = .success
  swap
  · exact herror (hload₁.andThen_ok (hload₂.andThen_error h₂)) h₂
  subst h₂
  obtain ⟨status₃, rs, hload₃, hlen₃, hvalid₃⟩ := loadSection_spec st registerMapSection hlen₂
  by_cases h₃ : status₃ = .success
  swap
  · exact herror (hload₁.andThen_ok (hload₂.andThen_ok (hload₃.andThen_error h₃))) h₃
  subst h₃
  have hvalid : ∀ d ∈ es ++ rs, d.Valid := by
    intro d hd
    rcases List.mem_append.1 hd with hd | hd
    · exact hvalid₂ rfl d hd
    · exact hvalid₃ d hd
  by_cases hne : es ++ rs = []
  · have hempty : Ends (Holds · (es ++ rs)) (terminateMap platform) .notFound (Holds · (es ++ rs)) := by
      intro s hs
      refine ⟨s, ?_, hs⟩
      rw [terminateMap, if_pos (by rw [hs.count, hne]; rfl)]
    exact herror (hload₁.andThen_ok (hload₂.andThen_ok (hload₃.andThen_ok hempty))) (by decide)
  have hends := hload₁.andThen_ok (hload₂.andThen_ok (hload₃.andThen_ok (terminateMap_spec platform hlen₃ hvalid hne)))
  refine ⟨if platform.useMemoryForSerialOutput then memoryMapConfigValidatePStorePlacement (es ++ rs)
    platform.ddrBankRegions else .success, es ++ rs, ?_, fun hok => ⟨hvalid, hne, hlen₃, fun hserial => ?_⟩⟩
  · intro device workspace hd hw
    obtain ⟨s, hs, hholds, hterm⟩ := hends (⟨device, 0⟩, workspace) ⟨hd, hw, rfl, rfl⟩
    exact ⟨s, hs, hholds.slots, hholds.workspace, fun _ => hterm⟩
  · obtain ⟨p, hp, rfl⟩ := hpStore rfl hserial
    rw [if_pos hserial] at hok
    exact ⟨p, ms, rs, hp, rfl, hok⟩

/-- The configured map as it is in the array after a load. -/
theorem loadPlatformMemoryMap_liveEntries {platform : Platform} {st : BootConfig}
    {device workspace : List Descriptor} (hdevice : device.length = maxDescriptorCount)
    (hworkspace : workspace.length = maxDescriptorCount) {s : Buf Descriptor × List Descriptor}
    (hload : loadPlatformMemoryMap platform st device workspace = some (.success, s)) :
    Accepted platform st (liveEntries s.1.slots) ∧ Terminated s.1.slots (liveEntries s.1.slots) := by
  obtain ⟨status, ds, hloads⟩ := loadPlatformMemoryMap_spec platform st
  obtain ⟨s', hs', -, -, hterm⟩ := hloads.run device workspace hdevice hworkspace
  rw [hload] at hs'
  simp only [Option.some.injEq, Prod.mk.injEq] at hs'
  obtain ⟨rfl, rfl⟩ := hs'
  rw [liveEntries_of_terminated (hterm rfl)]
  exact ⟨hloads.accepted rfl, hterm rfl⟩

/-! ## `GetPlatformMemoryMap` -/

/-- A configuration with which the map `ds` is loaded and merged. -/
structure Serves (platform : Platform) (st : BootConfig) (ds : List Descriptor) : Prop where
  loads : Loads platform st .success ds
  fits : (mergedMap platform.ddrBankRegions ds).length ≤ maxDescriptorCount - 1

/-- The statics: whole arrays, and the map `ds` once it is loaded. -/
structure MapGlobals.Sound (ds : List Descriptor) (g : MapGlobals) : Prop where
  device : g.device.length = maxDescriptorCount
  workspace : g.pStoreWorkspace.length = maxDescriptorCount
  merged : g.merged.length = maxDescriptorCount
  loaded : g.memoryMapLoaded = true → g.memoryMapLoadStatus = .success ∧ Terminated g.device ds

theorem MapGlobals.sound_initial (ds : List Descriptor) : MapGlobals.initial.Sound ds :=
  ⟨List.length_replicate, List.length_replicate, List.length_replicate,
    fun h => by simp [MapGlobals.initial] at h⟩

section Serves

variable {platform : Platform} {st : BootConfig} {ds : List Descriptor}

theorem ensurePlatformMemoryMapLoaded_spec (h : Serves platform st ds) {g : MapGlobals}
    (hg : g.Sound ds) :
    ∃ g', ensurePlatformMemoryMapLoaded platform st g = some (.success, g') ∧ g'.Sound ds ∧
      g'.memoryMapLoaded = true := by
  unfold ensurePlatformMemoryMapLoaded
  by_cases hloaded : g.memoryMapLoaded = true
  · refine ⟨g, ?_, hg, hloaded⟩
    rw [if_pos hloaded, (hg.loaded hloaded).1]
  · obtain ⟨s, hload, hslots, hws, hterm⟩ := h.loads.run g.device g.pStoreWorkspace hg.device hg.workspace
    rw [if_neg hloaded, hload]
    exact ⟨_, rfl, ⟨hslots, hws, hg.merged, fun _ => ⟨rfl, hterm rfl⟩⟩, rfl⟩

/-- **`GetPlatformMemoryMap`** returns the merged map, from any state of the statics. -/
theorem getPlatformMemoryMap_spec (h : Serves platform st ds) {g : MapGlobals} (hg : g.Sound ds) :
    ∃ g', getPlatformMemoryMap platform st g = some (.success, g'.merged, g') ∧ g'.Sound ds ∧
      Terminated g'.device ds ∧ Terminated g'.merged (mergedMap platform.ddrBankRegions ds) := by
  obtain ⟨g₁, hensure, hg₁, hloaded⟩ := ensurePlatformMemoryMapLoaded_spec h hg
  have hterm := (hg₁.loaded hloaded).2
  obtain ⟨status, m, hmerge, hlen, hok, hmap⟩ :=
    mergeDdrBankRegions_spec hterm (h.loads.accepted rfl).valid platform.ddrBankRegions hg₁.merged
  obtain rfl := hok.2 h.fits
  refine ⟨{ g₁ with merged := m.slots }, ?_, ⟨hg₁.device, hg₁.workspace, hlen, hg₁.loaded⟩, hterm,
    (hmap rfl).1⟩
  simp only [getPlatformMemoryMap, hensure, ne_eq, not_true_eq_false, ↓reduceIte, hmerge,
    Option.map_some]

/-- What is served is served by the first call. -/
theorem serves_of_first_call {map : List Descriptor} {g : MapGlobals}
    (h : getPlatformMemoryMap platform st .initial = some (.success, map, g)) : ∃ ds, Serves platform st ds := by
  obtain ⟨status, ds, hloads⟩ := loadPlatformMemoryMap_spec platform st
  have hinit := MapGlobals.sound_initial ds
  obtain ⟨s, hs, hslots, hws, hterm⟩ := hloads.run _ _ hinit.device hinit.workspace
  have hensure : ensurePlatformMemoryMapLoaded platform st .initial =
      some (status, ⟨s.1.slots, s.2, emptySlots, status ≠ .notFound, status⟩) := by
    rw [ensurePlatformMemoryMapLoaded, if_neg (by decide), hs]
    rfl
  simp only [getPlatformMemoryMap, hensure] at h
  by_cases hstatus : status = .success
  · subst hstatus
    rw [if_neg (by simp)] at h
    obtain ⟨status, m, hmerge, -, hok, -⟩ :=
      mergeDdrBankRegions_spec (hterm rfl) (hloads.accepted rfl).valid platform.ddrBankRegions hinit.merged
    rw [show MapGlobals.initial.merged = emptySlots from rfl] at hmerge
    simp only [hmerge, Option.map_some, Option.some.injEq, Prod.mk.injEq] at h
    exact ⟨ds, hloads, hok.1 h.1⟩
  · rw [if_pos hstatus] at h
    simp only [Option.some.injEq, Prod.mk.injEq] at h
    exact absurd h.1 hstatus

end Serves

end Andromeda
