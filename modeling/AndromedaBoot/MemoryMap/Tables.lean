import AndromedaBoot.MemoryMap.Platform

/-!
# The MMU tables (MemoryInitPeiLib.c, ArmPlatformLibMem.c)

Two functions turn the platform map into a table for the MMU. `MemoryPeim` builds it on the stack and
reports HOBs on the way; `ArmPlatformGetVirtualMemoryMap` builds it once in a global array. Both walk the
map to its terminator and skip the entries that only want a HOB.

| here | there |
| --- | --- |
| `addHob` | `AddHob` (MemoryInitPeiLib.c:41) |
| `memoryPeimLoop`, `memoryPeim` | :88-117 and `MemoryPeim` (:73) |
| `virtualMapLoop`, `armPlatformGetVirtualMemoryMap` | ArmPlatformLibMem.c:43-58 and :29 |
| `Boot` | the statics of the map library, and `MemoryTable` and `Index` (ArmPlatformLibMem.c:14-16) |
| `Reachable` | any sequence of calls in a boot with one configuration |

What `InitMmu` does with the table is outside the repository; `MemoryPeim` does not use its arguments.
-/

namespace Andromeda

open Fill

/-- `ARM_MEMORY_REGION_DESCRIPTOR`. -/
structure MmuEntry where
  physicalBase : UInt64
  virtualBase : UInt64
  length : UInt64
  attributes : ArmAttributes
deriving DecidableEq, Repr

/-- The entry that ends a table; `Attributes = 0` is `UNCACHED_UNBUFFERED`. -/
def zeroEntry : MmuEntry := ⟨0, 0, 0, .uncachedUnbuffered⟩

/-- The entry for a descriptor: mapped to its own address. -/
def identityEntry (d : Descriptor) : MmuEntry := ⟨d.address, d.address, d.length, d.armAttributes⟩

/-- The HOBs that `MemoryPeim` builds. -/
inductive Hob
  | resourceDescriptor (resourceType : ResourceType) (resourceAttribute : ResourceAttribute) (address length : UInt64)
  | memoryAllocation (address length : UInt64) (memoryType : MemoryType)
  | memoryTypeInformation
deriving DecidableEq, Repr

/-- What stops the firmware here: `ASSERT` of the memory size or of an index into the table, or an access outside an
array. The map that cannot be loaded trips `ASSERT_EFI_ERROR` of `GetPlatformMemoryMap` as well, which is no case of
this: a build without it goes on with the terminator. -/
inductive Halt
  | assertSystemMemorySize
  | assertIndex
  | outOfBounds
deriving DecidableEq, Repr

/-- `AddHob` (MemoryInitPeiLib.c:41). -/
def addHob (d : Descriptor) : List Hob :=
  (if d.hobOption ≠ .allocOnly then [.resourceDescriptor d.resourceType d.resourceAttribute d.address d.length] else []) ++
  (if d.resourceType = .systemMemory ∨ d.memoryType = .runtimeServicesData then
    [.memoryAllocation d.address d.length d.memoryType] else [])

/-- `ASSERT (Index < MAX_ARM_MEMORY_REGION_DESCRIPTOR_COUNT)` and the assignments to `MemoryTable[Index]`. -/
def setEntry (memoryTable : List MmuEntry) (index : Nat) (entry : MmuEntry) :
    Except Halt (List MmuEntry) :=
  if index < maxDescriptorCount then
    match write memoryTable index entry with
    | none => .error .outOfBounds
    | some memoryTable => .ok memoryTable
  else .error .assertIndex

/-- The loop of `MemoryPeim` (:88-117) from a place in the map on. `goto update` leaves out the check
for `HobOnlyNoCacheSetting`, which an entry with `NoHob` fails anyway. -/
def memoryPeimLoop :
    List Descriptor → Nat → List MmuEntry → List Hob → Except Halt (Nat × List MmuEntry × List Hob)
  | [], _, _, _ => .error .outOfBounds
  | descriptor :: rest, index, memoryTable, hobs =>
    if descriptor.length = 0 then .ok (index, memoryTable, hobs)
    else
      let hobs := match descriptor.hobOption with
        | .addMem | .addDev | .hobOnlyNoCacheSetting | .allocOnly => hobs ++ addHob descriptor
        | .noHob => hobs
      if descriptor.hobOption = .hobOnlyNoCacheSetting then memoryPeimLoop rest index memoryTable hobs
      else
        match setEntry memoryTable index (identityEntry descriptor) with
        | .error halt => .error halt
        | .ok memoryTable => memoryPeimLoop rest (index + 1) memoryTable hobs

/-- The PCDs `MemoryPeim` reads. -/
structure MemoryPcds where
  systemMemorySize : UInt64
  prePiProduceMemoryTypeInformationHob : Bool
deriving DecidableEq, Repr

section Code

variable (platform : Platform) (st : BootConfig)

/-- `MemoryPeim` (MemoryInitPeiLib.c:73) with what is on the stack where its table will be: the statics
behind it, the table it passes to `InitMmu`, and the HOBs in the order they are built. -/
def memoryPeim (pcds : MemoryPcds) (g : MapGlobals) (stack : List MmuEntry) :
    Except Halt (MapGlobals × List MmuEntry × List Hob) :=
  match getPlatformMemoryMap platform st g with
  | none => .error .outOfBounds
  | some (_, map, g) =>
    if pcds.systemMemorySize = 0 then .error .assertSystemMemorySize
    else
      match memoryPeimLoop map 0 stack [] with
      | .error halt => .error halt
      | .ok (index, memoryTable, hobs) =>
        match setEntry memoryTable index zeroEntry with
        | .error halt => .error halt
        | .ok memoryTable =>
          .ok (g, memoryTable,
            hobs ++ if pcds.prePiProduceMemoryTypeInformationHob then [.memoryTypeInformation] else [])

/-- The loop of `ArmPlatformGetVirtualMemoryMap` (ArmPlatformLibMem.c:43-58). -/
def virtualMapLoop : List Descriptor → Nat → List MmuEntry → Except Halt (Nat × List MmuEntry)
  | [], _, _ => .error .outOfBounds
  | descriptor :: rest, index, memoryTable =>
    if descriptor.length = 0 then .ok (index, memoryTable)
    else if descriptor.hobOption = .hobOnlyNoCacheSetting then virtualMapLoop rest index memoryTable
    else
      match setEntry memoryTable index (identityEntry descriptor) with
      | .error halt => .error halt
      | .ok memoryTable => virtualMapLoop rest (index + 1) memoryTable

/-- The statics of a boot. -/
structure Boot where
  map : MapGlobals
  memoryTable : List MmuEntry
  index : Nat

def Boot.initial : Boot := ⟨.initial, List.replicate maxDescriptorCount zeroEntry, 0⟩

/-- `ArmPlatformGetVirtualMemoryMap` (ArmPlatformLibMem.c:29); what it returns is `memoryTable`. -/
def armPlatformGetVirtualMemoryMap (boot : Boot) : Except Halt Boot :=
  match getPlatformMemoryMap platform st boot.map with
  | none => .error .outOfBounds
  | some (_, map, g) =>
    if boot.index ≠ 0 then .ok { boot with map := g }
    else
      match virtualMapLoop map boot.index boot.memoryTable with
      | .error halt => .error halt
      | .ok (index, memoryTable) =>
        match setEntry memoryTable index zeroEntry with
        | .error halt => .error halt
        | .ok memoryTable => .ok ⟨g, memoryTable, index⟩

/-- The states of a boot that calls the three functions in any order. -/
inductive Reachable (pcds : MemoryPcds) : Boot → Prop
  | initial : Reachable pcds .initial
  | getPlatformMemoryMap {boot : Boot} {status : EfiStatus} {map : List Descriptor} {g : MapGlobals} :
      Reachable pcds boot → Andromeda.getPlatformMemoryMap platform st boot.map = some (status, map, g) →
      Reachable pcds { boot with map := g }
  | memoryPeim {boot : Boot} {stack table : List MmuEntry} {hobs : List Hob} {g : MapGlobals} :
      Reachable pcds boot → stack.length = maxDescriptorCount →
      Andromeda.memoryPeim platform st pcds boot.map stack = .ok (g, table, hobs) →
        Reachable pcds { boot with map := g }
  | armPlatformGetVirtualMemoryMap {boot boot' : Boot} : Reachable pcds boot →
      Andromeda.armPlatformGetVirtualMemoryMap platform st boot = .ok boot' → Reachable pcds boot'

end Code

/-! ## What the loops build -/

/-- The table for a map: identity mapped, without the entries that only want a HOB. -/
def mmuEntries (map : List Descriptor) : List MmuEntry :=
  (map.filter fun d => d.hobOption ≠ .hobOnlyNoCacheSetting).map identityEntry

theorem setEntry_eq {memoryTable : List MmuEntry} (hlen : memoryTable.length = maxDescriptorCount)
    {index : Nat} (h : index < maxDescriptorCount)
    (entry : MmuEntry) : setEntry memoryTable index entry = .ok (memoryTable.set index entry) := by
  have hlt : index < memoryTable.length := by omega
  simp only [setEntry, h, ↓reduceIte, write, hlt]

theorem mmuEntries_cons_hobOnly {d : Descriptor} (h : d.hobOption = .hobOnlyNoCacheSetting)
    (ds : List Descriptor) :
    mmuEntries (d :: ds) = mmuEntries ds := by
  rw [mmuEntries, List.filter_cons_of_neg (by simp [h]), mmuEntries]

theorem mmuEntries_cons {d : Descriptor} (h : d.hobOption ≠ .hobOnlyNoCacheSetting)
    (ds : List Descriptor) :
    mmuEntries (d :: ds) = identityEntry d :: mmuEntries ds := by
  rw [mmuEntries, List.filter_cons_of_pos (by simp [h]), List.map_cons, mmuEntries]

/-- The HOBs of one entry of the map. -/
def hobsFor (d : Descriptor) : List Hob := if d.hobOption = .noHob then [] else addHob d

section Loops

variable {t : Descriptor} (ht : t.length = 0) (rest : List Descriptor)

include ht

/-- The loop of `MemoryPeim` writes the table from `index` on. -/
theorem memoryPeimLoop_spec :
    ∀ (ds : List Descriptor) (index : Nat) (table : List MmuEntry) (hobs : List Hob),
    (∀ d ∈ ds, d.length ≠ 0) → table.length = maxDescriptorCount →
    index + (mmuEntries ds).length ≤ maxDescriptorCount →
    memoryPeimLoop (ds ++ t :: rest) index table hobs =
      .ok (index + (mmuEntries ds).length, overwrite table index (mmuEntries ds), hobs ++ ds.flatMap hobsFor)
  | [], index, table, hobs, _, _, _ => by simp [memoryPeimLoop, ht, mmuEntries]
  | d :: ds, index, table, hobs, hlive, hlen, hfit => by
    have hd := hlive d (by simp)
    have hrest := fun e he => hlive e (List.mem_cons_of_mem _ he)
    have hhobs : (match d.hobOption with
        | .addMem | .addDev | .hobOnlyNoCacheSetting | .allocOnly => hobs ++ addHob d
        | .noHob => hobs) = hobs ++ hobsFor d := by
      unfold hobsFor
      cases d.hobOption <;> simp
    simp only [List.cons_append, memoryPeimLoop, hd, ↓reduceIte, hhobs]
    rw [List.flatMap_cons, ← List.append_assoc]
    by_cases hskip : d.hobOption = .hobOnlyNoCacheSetting
    · rw [mmuEntries_cons_hobOnly hskip] at hfit ⊢
      simp only [hskip, ↓reduceIte]
      exact memoryPeimLoop_spec ds index table _ hrest hlen hfit
    · rw [mmuEntries_cons hskip, List.length_cons] at hfit ⊢
      have hlt : index < maxDescriptorCount := by omega
      simp only [hskip, ↓reduceIte, setEntry_eq hlen hlt]
      rw [memoryPeimLoop_spec ds (index + 1) (table.set index (identityEntry d)) _ hrest (by rw [List.length_set, hlen])
        (by omega), overwrite_cons (by omega), Nat.add_assoc, Nat.add_comm 1]

/-- So does that of `ArmPlatformGetVirtualMemoryMap`. -/
theorem virtualMapLoop_spec : ∀ (ds : List Descriptor) (index : Nat) (table : List MmuEntry),
    (∀ d ∈ ds, d.length ≠ 0) → table.length = maxDescriptorCount →
    index + (mmuEntries ds).length ≤ maxDescriptorCount →
    virtualMapLoop (ds ++ t :: rest) index table =
      .ok (index + (mmuEntries ds).length, overwrite table index (mmuEntries ds))
  | [], index, table, _, _, _ => by simp [virtualMapLoop, ht, mmuEntries]
  | d :: ds, index, table, hlive, hlen, hfit => by
    have hd := hlive d (by simp)
    have hrest := fun e he => hlive e (List.mem_cons_of_mem _ he)
    simp only [List.cons_append, virtualMapLoop, hd, ↓reduceIte]
    by_cases hskip : d.hobOption = .hobOnlyNoCacheSetting
    · rw [mmuEntries_cons_hobOnly hskip] at hfit ⊢
      simp only [hskip, ↓reduceIte]
      exact virtualMapLoop_spec ds index table hrest hlen hfit
    · rw [mmuEntries_cons hskip, List.length_cons] at hfit ⊢
      have hlt : index < maxDescriptorCount := by omega
      simp only [hskip, ↓reduceIte, setEntry_eq hlen hlt]
      rw [virtualMapLoop_spec ds (index + 1) (table.set index (identityEntry d)) hrest (by rw [List.length_set, hlen])
        (by omega), overwrite_cons (by omega), Nat.add_assoc, Nat.add_comm 1]

end Loops

/-! ## The tables of a boot -/

/-- A whole table for a map: its entries, closed by an all-zero entry. -/
structure TableFor (map : List Descriptor) (table : List MmuEntry) : Prop where
  whole : table.length = maxDescriptorCount
  closed : ∃ rest, table = mmuEntries map ++ zeroEntry :: rest

theorem length_mmuEntries_le (map : List Descriptor) : (mmuEntries map).length ≤ map.length := by
  rw [mmuEntries, List.length_map]
  exact List.length_filter_le _ _

/-- Writing the entries and then the end gives a table. -/
theorem tableFor_overwrite {map : List Descriptor} {table : List MmuEntry}
    (hlen : table.length = maxDescriptorCount) (hfit : (mmuEntries map).length < maxDescriptorCount) :
    TableFor map ((overwrite table 0 (mmuEntries map)).set (mmuEntries map).length zeroEntry) := by
  have hroom : 0 + (mmuEntries map).length < table.length := by omega
  have hset := set_overwrite hroom zeroEntry
  rw [Nat.zero_add] at hset
  rw [hset]
  refine ⟨?_, table.drop ((mmuEntries map).length + 1), ?_⟩
  · rw [length_overwrite (by rw [List.length_append, List.length_singleton]; omega), hlen]
  · simp [overwrite]

/-- The statics of a boot: those of the map library, and the table once it is built. -/
structure Boot.Sound (platform : Platform) (ds : List Descriptor) (boot : Boot) : Prop where
  map : boot.map.Sound ds
  whole : boot.memoryTable.length = maxDescriptorCount
  built : boot.index ≠ 0 → TableFor (mergedMap platform.ddrBankRegions ds) boot.memoryTable

section Serves

variable {platform : Platform} {st : BootConfig} {ds : List Descriptor}

theorem Serves.length_mmuEntries_lt (h : Serves platform st ds) :
    (mmuEntries (mergedMap platform.ddrBankRegions ds)).length < maxDescriptorCount := by
  have h1 := length_mmuEntries_le (mergedMap platform.ddrBankRegions ds)
  have h2 := h.fits
  have hmax : maxDescriptorCount = 128 := rfl
  omega

/-- **`MemoryPeim`** stops only where no system memory is configured, and then before it touches its
table. It builds the HOBs of the entries in order. -/
theorem memoryPeim_spec (h : Serves platform st ds) {g : MapGlobals} (hg : g.Sound ds)
    (pcds : MemoryPcds) {stack : List MmuEntry} (hstack : stack.length = maxDescriptorCount) :
    if pcds.systemMemorySize = 0 then memoryPeim platform st pcds g stack = .error .assertSystemMemorySize
    else ∃ g' table, memoryPeim platform st pcds g stack =
        .ok (g', table, (mergedMap platform.ddrBankRegions ds).flatMap hobsFor ++
          if pcds.prePiProduceMemoryTypeInformationHob then [.memoryTypeInformation] else []) ∧
      g'.Sound ds ∧ TableFor (mergedMap platform.ddrBankRegions ds) table := by
  obtain ⟨g', hget, hg', -, hterm⟩ := getPlatformMemoryMap_spec h hg
  have hfit := h.length_mmuEntries_lt
  obtain ⟨⟨t, rest, hmerged, ht⟩, hlive⟩ := hterm
  rw [hmerged] at hget
  by_cases hsize : pcds.systemMemorySize = 0
  · simp only [memoryPeim, hget, hsize, ↓reduceIte]
  · rw [if_neg hsize]
    have hloop := memoryPeimLoop_spec ht rest (mergedMap platform.ddrBankRegions ds) 0 stack [] hlive hstack (by omega)
    rw [Nat.zero_add, List.nil_append] at hloop
    have hlen : (overwrite stack 0 (mmuEntries (mergedMap platform.ddrBankRegions ds))).length = maxDescriptorCount := by
      rw [length_overwrite (by omega), hstack]
    refine ⟨g', _, ?_, hg', tableFor_overwrite hstack hfit⟩
    simp only [memoryPeim, hget, hsize, ↓reduceIte, hloop, setEntry_eq hlen hfit]

/-- **`ArmPlatformGetVirtualMemoryMap`** returns the table, building it when there is none. -/
theorem armPlatformGetVirtualMemoryMap_spec (h : Serves platform st ds) {boot : Boot}
    (hboot : boot.Sound platform ds) :
    ∃ boot', armPlatformGetVirtualMemoryMap platform st boot = .ok boot' ∧ boot'.Sound platform ds ∧
      TableFor (mergedMap platform.ddrBankRegions ds) boot'.memoryTable := by
  obtain ⟨g', hget, hg', -, hterm⟩ := getPlatformMemoryMap_spec h hboot.map
  have hfit := h.length_mmuEntries_lt
  by_cases hindex : boot.index = 0
  · obtain ⟨⟨t, rest, hmerged, ht⟩, hlive⟩ := hterm
    rw [hmerged] at hget
    have hloop := virtualMapLoop_spec ht rest (mergedMap platform.ddrBankRegions ds) 0 boot.memoryTable
      hlive hboot.whole (by omega)
    rw [Nat.zero_add] at hloop
    have hlen : (overwrite boot.memoryTable 0 (mmuEntries (mergedMap platform.ddrBankRegions ds))).length =
        maxDescriptorCount := by
      rw [length_overwrite (by rw [hboot.whole]; omega), hboot.whole]
    have htable := tableFor_overwrite hboot.whole hfit
    refine ⟨⟨g', _, (mmuEntries (mergedMap platform.ddrBankRegions ds)).length⟩, ?_,
      ⟨hg', htable.whole, fun _ => htable⟩,
      htable⟩
    simp only [armPlatformGetVirtualMemoryMap, hget, hindex, ne_eq, not_true_eq_false, ↓reduceIte,
      hloop,
      setEntry_eq hlen hfit]
  · refine ⟨{ boot with map := g' }, ?_, ⟨hg', hboot.whole, hboot.built⟩, hboot.built hindex⟩
    simp only [armPlatformGetVirtualMemoryMap, hget, ne_eq, hindex, not_false_eq_true, ↓reduceIte]

/-- The statics are sound in every reachable state. -/
theorem Reachable.sound (h : Serves platform st ds) {pcds : MemoryPcds} {boot : Boot}
    (hreach : Reachable platform st pcds boot) : boot.Sound platform ds := by
  induction hreach with
  | initial => exact ⟨MapGlobals.sound_initial ds, List.length_replicate, fun h => absurd rfl h⟩
  | getPlatformMemoryMap _ hcall ih =>
    obtain ⟨g', hget, hg', -⟩ := getPlatformMemoryMap_spec h ih.map
    rw [hcall] at hget
    simp only [Option.some.injEq, Prod.mk.injEq] at hget
    obtain ⟨-, -, rfl⟩ := hget
    exact ⟨hg', ih.whole, ih.built⟩
  | memoryPeim _ hstack hcall ih =>
    have hspec := memoryPeim_spec h ih.map pcds hstack
    by_cases hsize : pcds.systemMemorySize = 0
    · rw [if_pos hsize, hcall] at hspec
      simp at hspec
    · rw [if_neg hsize] at hspec
      obtain ⟨g', table, hrun, hg', -⟩ := hspec
      rw [hcall] at hrun
      simp only [Except.ok.injEq, Prod.mk.injEq] at hrun
      obtain ⟨rfl, -, -⟩ := hrun
      exact ⟨hg', ih.whole, ih.built⟩
  | armPlatformGetVirtualMemoryMap _ hcall ih =>
    obtain ⟨boot', hrun, hsound, -⟩ := armPlatformGetVirtualMemoryMap_spec h ih
    rw [hcall] at hrun
    obtain rfl := Except.ok.inj hrun
    exact hsound

end Serves

/-- **Arrays and tables stay in bounds and agree.** When the first `GetPlatformMemoryMap` of a boot returns
a merged map, then in every state the boot can reach by calls of the three functions: a call returns the
same merged map; it and the configured map have at most 127 entries in front of a terminator, none of
length 0; neither table builder fails an assertion on its index or leaves an array; and the tables both
return are the merged map in order without the entries that only want a HOB, identity mapped, closed by
an all-zero entry. -/
theorem memory_tables_agree (platform : Platform) (st : BootConfig) (pcds : MemoryPcds)
    (hmap : ∃ map g, getPlatformMemoryMap platform st .initial = some (.success, map, g)) :
    ∃ ds live : List Descriptor, ds.length ≤ maxDescriptorCount - 1 ∧
      live.length ≤ maxDescriptorCount - 1 ∧
      ∀ boot, Reachable platform st pcds boot →
        (∃ g, getPlatformMemoryMap platform st boot.map = some (.success, g.merged, g) ∧
          g.device.length = maxDescriptorCount ∧ Terminated g.device ds ∧
          g.merged.length = maxDescriptorCount ∧ Terminated g.merged live) ∧
        (∀ stack : List MmuEntry, stack.length = maxDescriptorCount →
          if pcds.systemMemorySize = 0 then memoryPeim platform st pcds boot.map stack = .error .assertSystemMemorySize
          else ∃ g table hobs, memoryPeim platform st pcds boot.map stack = .ok (g, table, hobs) ∧ TableFor live table) ∧
        ∃ boot', armPlatformGetVirtualMemoryMap platform st boot = .ok boot' ∧
          TableFor live boot'.memoryTable := by
  obtain ⟨map, g, hfirst⟩ := hmap
  obtain ⟨ds, h⟩ := serves_of_first_call hfirst
  refine ⟨ds, mergedMap platform.ddrBankRegions ds, (h.loads.accepted rfl).length_le, h.fits, ?_⟩
  intro boot hreach
  have hboot := hreach.sound h
  refine ⟨?_, ?_, ?_⟩
  · obtain ⟨g', hget, hg', hdevice, hmerged⟩ := getPlatformMemoryMap_spec h hboot.map
    exact ⟨g', hget, hg'.device, hdevice, hg'.merged, hmerged⟩
  · intro stack hstack
    have hspec := memoryPeim_spec h hboot.map pcds hstack
    by_cases hsize : pcds.systemMemorySize = 0
    · rwa [if_pos hsize] at hspec ⊢
    · rw [if_neg hsize] at hspec ⊢
      obtain ⟨g', table, hrun, -, htable⟩ := hspec
      exact ⟨g', table, _, hrun, htable⟩
  · obtain ⟨boot', hrun, -, htable⟩ := armPlatformGetVirtualMemoryMap_spec h hboot
    exact ⟨boot', hrun, htable⟩

/-- A record in a bank that only wants a HOB, and one outside. -/
theorem memory_tables_agree_hob_only :
    let st : BootConfig := ⟨some (ascii "[MemoryMap]\n4096,256,a,HobOnlyNoCacheSetting,SYS_MEM,TESTED,Conv,DEVICE\n" ++
      ascii "[RegisterMap]\n1,9,c,NoHob,IO,TESTED,Conv,DEVICE"), none⟩
    let platform : Platform := ⟨false, [⟨0x800, 0x4000⟩]⟩
    ∃ live g table hobs boot, memoryPeim platform st ⟨1, true⟩ .initial (List.replicate maxDescriptorCount zeroEntry) =
        .ok (g, table, hobs) ∧ TableFor live table ∧
      armPlatformGetVirtualMemoryMap platform st .initial = .ok boot ∧
        TableFor live boot.memoryTable := by
  intro st platform
  have hfirst : (getPlatformMemoryMap platform st .initial).map Prod.fst = some .success := by decide +kernel
  obtain ⟨⟨status, map, g⟩, hget, rfl⟩ := Option.map_eq_some_iff.1 hfirst
  obtain ⟨ds, live, -, -, hall⟩ := memory_tables_agree platform st ⟨1, true⟩ ⟨map, g, hget⟩
  obtain ⟨-, hpeim, boot, hrun, htable⟩ := hall .initial .initial
  obtain ⟨g, table, hobs, hpeim, htable'⟩ := hpeim (List.replicate maxDescriptorCount zeroEntry) List.length_replicate
  exact ⟨live, g, table, hobs, boot, hpeim, htable', hrun, htable⟩

end Andromeda
