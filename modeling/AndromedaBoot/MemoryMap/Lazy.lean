import AndromedaBoot.MemoryMap.Platform

/-!
# The lazily loaded map over a whole boot (AndromedaMemoryMapLib.c:105, :252)

The map may be asked for before there is a configuration. `EnsurePlatformMemoryMapLoaded` keeps only an
outcome other than `EFI_NOT_FOUND`; until then each call loads again, into an array that earlier loads
may have filled in part. Here the calls of `GetPlatformMemoryMap` are interleaved with changes of the
configuration in any way.

| here | there |
| --- | --- |
| `Event` | what can happen: the configuration changes, or the map is asked for |
| `Reply` | what a call does: the status of the load it made, if it made one, and its result |
| `runEvents` | a sequence of events |

A load that found something leaves the statics as they stay: `MapGlobals.Settled` says that a call gives
the same reply and changes nothing, whatever the configuration is by then.
-/

namespace Andromeda

open Fill

/-- What happens during a boot. -/
inductive Event
  | configure (config : BootConfig)
  | getPlatformMemoryMap

/-- The configuration of the moment and the statics of the library. -/
structure Session where
  config : BootConfig
  map : MapGlobals

/-- What a call of `GetPlatformMemoryMap` does. -/
structure Reply where
  /-- The status of `LoadPlatformMemoryMap`, when the call ran it. -/
  load : Option EfiStatus
  status : EfiStatus
  map : List Descriptor
deriving DecidableEq, Repr

section Code

variable (platform : Platform)

/-- A call of `GetPlatformMemoryMap`. -/
def callMap (config : BootConfig) (g : MapGlobals) : Option (Reply × MapGlobals) :=
  (getPlatformMemoryMap platform config g).map fun (status, map, g') =>
    (⟨if g.memoryMapLoaded then none else some g'.memoryMapLoadStatus, status, map⟩, g')

/-- A sequence of events and the replies of its calls. -/
def runEvents : List Event → Session → Option (List Reply × Session)
  | [], s => some ([], s)
  | .configure config :: events, s => runEvents events { s with config := config }
  | .getPlatformMemoryMap :: events, s =>
    match callMap platform s.config s.map with
    | none => none
    | some (r, g) => (runEvents events { s with map := g }).map fun (rs, s) => (r :: rs, s)

end Code

/-! ## One call -/

/-- The statics before the first load that found something: nothing was merged yet. -/
structure MapGlobals.Fresh (g : MapGlobals) : Prop where
  device : g.device.length = maxDescriptorCount
  workspace : g.pStoreWorkspace.length = maxDescriptorCount
  merged : g.merged = emptySlots
  notLoaded : g.memoryMapLoaded = false

theorem MapGlobals.fresh_initial : MapGlobals.initial.Fresh :=
  ⟨List.length_replicate, List.length_replicate, rfl, rfl⟩

/-- The statics once and for all: the load ended with `loadStatus`, and each call replies `status` and
`map` and changes nothing. -/
structure MapGlobals.Settled (platform : Platform) (loadStatus status : EfiStatus) (map : List Descriptor)
    (g : MapGlobals) : Prop where
  loaded : g.memoryMapLoaded = true
  loadStatus_eq : g.memoryMapLoadStatus = loadStatus
  call : ∀ config, callMap platform config g = some (⟨none, status, map⟩, g)

section Call

variable {platform : Platform} {config : BootConfig}

/-- What a call makes of a load. -/
theorem callMap_fresh {g : MapGlobals} (hg : g.Fresh) {status : EfiStatus}
    {s : Buf Descriptor × List Descriptor}
    (hload : loadPlatformMemoryMap platform config g.device g.pStoreWorkspace = some (status, s)) :
    callMap platform config g =
      if status ≠ .success then
        some (⟨some status, status, [memoryMapTerminator]⟩, ⟨s.1.slots, s.2, g.merged, status ≠ .notFound, status⟩)
      else
        (mergeDdrBankRegions s.1.slots platform.ddrBankRegions emptySlots).map fun (mergeStatus, m) =>
          (⟨some status, mergeStatus, if mergeStatus ≠ .success then [memoryMapTerminator] else m.slots⟩,
            ⟨s.1.slots, s.2, m.slots, status ≠ .notFound, status⟩) := by
  have hensure : ensurePlatformMemoryMapLoaded platform config g =
      some (status, ⟨s.1.slots, s.2, g.merged, status ≠ .notFound, status⟩) := by
    rw [ensurePlatformMemoryMapLoaded, hg.notLoaded, if_neg (by decide), hload]
    rfl
  simp only [callMap, getPlatformMemoryMap, hensure, hg.notLoaded, hg.merged]
  by_cases hok : status = .success
  · simp only [hok, ne_eq, not_true_eq_false, ↓reduceIte, Option.map_map]
    rfl
  · simp only [hok, ne_eq, not_false_eq_true, ↓reduceIte, Option.map_some]
    rfl

/-- The merge writes the same from the first slot on, whatever the array held. -/
theorem mergeDdrBankRegions_writes {device ds : List Descriptor} (hterm : Terminated device ds)
    (hvalid : ∀ d ∈ ds, d.Valid) (banks : List DdrBankRegion) :
    ∃ status xs n, xs.length ≤ maxDescriptorCount ∧
      ∀ merged : List Descriptor, merged.length = maxDescriptorCount →
        mergeDdrBankRegions device banks merged = some (status, ⟨overwrite merged 0 xs, n⟩) := by
  have hspec := fun (merged : List Descriptor) (h : merged.length = maxDescriptorCount) =>
    mergeDdrBankRegionsWith_spec descriptorKind hterm hvalid banks h
  have hmax : maxDescriptorCount = 128 := rfl
  simp only [mergeDdrBankRegions]
  generalize (mergedPieces banks ds).map descriptorKind.entry = entries at hspec
  by_cases hfit : entries.length ≤ maxDescriptorCount - 1
  · refine ⟨.success, entries ++ [descriptorKind.terminator], entries.length, ?_, ?_⟩
    · rw [List.length_append, List.length_singleton]
      omega
    · intro merged h
      rw [hspec merged h]
      exact if_pos hfit
  · refine ⟨.outOfResources, entries.take (maxDescriptorCount - 1), maxDescriptorCount - 1, ?_, ?_⟩
    · rw [List.length_take]
      omega
    · intro merged h
      rw [hspec merged h]
      exact if_neg hfit

/-- **A call before anything was found**: it loads, replies as the first call would, and is settled
unless the load found nothing. -/
theorem callMap_fresh_spec (platform : Platform) (config : BootConfig) {g : MapGlobals} (hg : g.Fresh) :
    ∃ status r g', callMap platform config g = some (r, g') ∧ r.load = some status ∧
      (∃ g₀, callMap platform config .initial = some (r, g₀)) ∧
      (status = .notFound → g'.Fresh) ∧
      (status ≠ .notFound → g'.Settled platform status r.status r.map) := by
  obtain ⟨status, ds, hloads⟩ := loadPlatformMemoryMap_spec platform config
  obtain ⟨s, hs, hslots, hws, hterm⟩ := hloads.run _ _ hg.device hg.workspace
  obtain ⟨s₀, hs₀, hslots₀, -, hterm₀⟩ := hloads.run _ _ MapGlobals.fresh_initial.device MapGlobals.fresh_initial.workspace
  have hcall := callMap_fresh hg hs
  have hfirst := callMap_fresh MapGlobals.fresh_initial hs₀
  by_cases hok : status = .success
  · subst hok
    have hlen : emptySlots.length = maxDescriptorCount := List.length_replicate
    obtain ⟨mstatus, xs, n, hxs, hmerge⟩ :=
      mergeDdrBankRegions_writes (hterm rfl) (hloads.accepted rfl).valid platform.ddrBankRegions
    -- the merge only sees the map in front of the terminator
    have hmerge₀ : mergeDdrBankRegions s₀.1.slots platform.ddrBankRegions emptySlots =
        some (mstatus, ⟨overwrite emptySlots 0 xs, n⟩) := by
      rw [← hmerge _ hlen]
      exact (mergeDdrBankRegionsWith_spec descriptorKind (hterm₀ rfl) (hloads.accepted rfl).valid _ hlen).trans
        (mergeDdrBankRegionsWith_spec descriptorKind (hterm rfl) (hloads.accepted rfl).valid _ hlen).symm
    have hroom : 0 + xs.length ≤ emptySlots.length := by omega
    have hagain := hmerge _ ((length_overwrite hroom).trans hlen)
    rw [overwrite_overwrite hroom] at hagain
    rw [if_neg (by decide), hmerge _ hlen] at hcall
    rw [if_neg (by decide), hmerge₀] at hfirst
    refine ⟨.success, _, _, hcall, rfl, ⟨_, hfirst⟩, fun h => by simp at h, fun _ => ⟨rfl, rfl, fun c => ?_⟩⟩
    simp [callMap, getPlatformMemoryMap, ensurePlatformMemoryMapLoaded, hagain]
  · rw [if_pos hok] at hcall hfirst
    refine ⟨status, _, _, hcall, rfl, ⟨_, hfirst⟩, ?_, fun h => ⟨by simpa using h, rfl, fun c => ?_⟩⟩
    · rintro rfl
      exact ⟨hslots, hws, hg.merged, by simp⟩
    · simp [callMap, getPlatformMemoryMap, ensurePlatformMemoryMapLoaded, h, hok]

end Call

/-! ## Whole runs -/

section Run

variable {platform : Platform}

/-- From settled statics every event leaves them alone and every call gives the one reply. -/
theorem runEvents_settled {loadStatus status : EfiStatus} {map : List Descriptor} :
    ∀ (events : List Event) {s : Session}, s.map.Settled platform loadStatus status map →
      ∃ rs s', runEvents platform events s = some (rs, s') ∧ s'.map = s.map ∧
        ∀ r ∈ rs, r = ⟨none, status, map⟩
  | [], s, _ => ⟨[], s, rfl, rfl, by simp⟩
  | .configure config :: events, s, h => runEvents_settled (s := ⟨config, s.map⟩) events h
  | .getPlatformMemoryMap :: events, s, h => by
    obtain ⟨rs, s', hrun, hmap, hall⟩ := runEvents_settled events h
    refine ⟨⟨none, status, map⟩ :: rs, s', ?_, hmap, ?_⟩
    · simp only [runEvents, h.call, hrun, Option.map_some]
    · intro r hr
      rcases List.mem_cons.1 hr with rfl | hr
      · rfl
      · exact hall r hr

/-- A run from fresh statics ends fresh, with loads that all found nothing, or settled by one of its
loads. -/
theorem runEvents_fresh (platform : Platform) :
    ∀ (events : List Event) {s : Session}, s.map.Fresh →
      ∃ rs s', runEvents platform events s = some (rs, s') ∧
        (s'.map.Fresh ∧ (∀ r ∈ rs, r.load = some .notFound) ∨
          ∃ r₀ ∈ rs, ∃ status, r₀.load = some status ∧ status ≠ .notFound ∧
            s'.map.Settled platform status r₀.status r₀.map ∧
            ∀ r ∈ rs, r = r₀ ∨ r.load = some .notFound ∨ r.load = none)
  | [], s, h => ⟨[], s, rfl, .inl ⟨h, by simp⟩⟩
  | .configure config :: events, s, h => runEvents_fresh platform (s := ⟨config, s.map⟩) events h
  | .getPlatformMemoryMap :: events, s, h => by
    obtain ⟨status, r, g, hcall, hload, -, hagain, hsettled⟩ := callMap_fresh_spec platform s.config h
    by_cases hstatus : status = .notFound
    · subst hstatus
      obtain ⟨rs, s', hrun, hend⟩ := runEvents_fresh platform (s := ⟨s.config, g⟩) events (hagain rfl)
      refine ⟨r :: rs, s', by simp only [runEvents, hcall, hrun, Option.map_some], ?_⟩
      rcases hend with ⟨hfresh, hall⟩ | ⟨r₀, hr₀, status, hl, hne, hset, hall⟩
      · refine .inl ⟨hfresh, ?_⟩
        intro q hq
        rcases List.mem_cons.1 hq with rfl | hq
        · exact hload
        · exact hall q hq
      · refine .inr ⟨r₀, by simp [hr₀], status, hl, hne, hset, ?_⟩
        intro q hq
        rcases List.mem_cons.1 hq with rfl | hq
        · exact .inr (.inl hload)
        · exact hall q hq
    · obtain ⟨rs, s', hrun, hmap, hall⟩ := runEvents_settled (s := ⟨s.config, g⟩) events (hsettled hstatus)
      refine ⟨r :: rs, s', by simp only [runEvents, hcall, hrun, Option.map_some], .inr ⟨r, by simp, status,
        hload, hstatus, by rw [hmap]; exact hsettled hstatus, ?_⟩⟩
      intro q hq
      rcases List.mem_cons.1 hq with rfl | hq
      · exact .inl rfl
      · rw [hall q hq]
        exact .inr (.inr rfl)

/-- **The lazily loaded map is stable, and early failures do not poison it.** In every run, as long as
each load found nothing the next call loads again and replies what a first call would with the
configuration of the moment. From the first load with another status on, that status and the array of
configured descriptors stay, and every later call gives the reply of that load, entry by entry. -/
theorem getPlatformMemoryMap_stable (platform : Platform) (config : BootConfig) (events later : List Event) :
    ∃ rs s, runEvents platform events ⟨config, .initial⟩ = some (rs, s) ∧
      ((∀ r ∈ rs, ∀ status, r.load = some status → status = .notFound) →
        ∃ r g g₀, callMap platform s.config s.map = some (r, g) ∧ r.load ≠ none ∧
          callMap platform s.config .initial = some (r, g₀)) ∧
      ∀ r ∈ rs, ∀ status, r.load = some status → status ≠ .notFound →
        s.map.memoryMapLoadStatus = status ∧
        ∃ rs' s', runEvents platform later s = some (rs', s') ∧
          s'.map.memoryMapLoadStatus = status ∧ s'.map.device = s.map.device ∧
          ∀ r' ∈ rs', r'.load = none ∧ r'.status = r.status ∧ r'.map = r.map := by
  obtain ⟨rs, s, hrun, hend⟩ := runEvents_fresh platform events (s := ⟨config, .initial⟩)
    MapGlobals.fresh_initial
  refine ⟨rs, s, hrun, ?_, ?_⟩
  · intro hall
    rcases hend with ⟨hfresh, -⟩ | ⟨r₀, hr₀, status, hl, hne, -, -⟩
    · obtain ⟨status, r, g, hcall, hload, ⟨g₀, hfirst⟩, -, -⟩ :=
        callMap_fresh_spec platform s.config hfresh
      exact ⟨r, g, g₀, hcall, by simp [hload], hfirst⟩
    · exact absurd (hall r₀ hr₀ status hl) hne
  · intro r hr status hload hstatus
    rcases hend with ⟨-, hall⟩ | ⟨r₀, hr₀, status₀, hl, hne, hset, hall⟩
    · rw [hall r hr] at hload
      exact absurd (Option.some.inj hload).symm hstatus
    · rcases hall r hr with rfl | h | h
      · rw [hl] at hload
        obtain rfl := Option.some.inj hload
        obtain ⟨rs', s', hrun', hmap, hall'⟩ := runEvents_settled later hset
        refine ⟨hset.loadStatus_eq, rs', s', hrun', by rw [hmap]; exact hset.loadStatus_eq, by rw [hmap],
          fun r' hr' => ?_⟩
        rw [hall' r' hr']
        exact ⟨rfl, rfl, rfl⟩
      · rw [h] at hload
        exact absurd (Option.some.inj hload).symm hstatus
      · simp [h] at hload

end Run

end Andromeda
