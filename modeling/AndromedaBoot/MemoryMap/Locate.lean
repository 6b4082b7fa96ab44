import AndromedaBoot.MemoryMap.Lazy
import Mathlib.Data.List.Pairwise

/-!
# Finding a region of the map (QcomUefiPlatMemoryMapHelperLib.c)

Drivers ask for a region by its name or by its address. Both functions walk the merged map to its
terminator and copy out the first entry that fits.

| here | there |
| --- | --- |
| `locateLoop` | the loop of both (:17-24, :37-44) |
| `qcomLocateMemoryMapAreaByName` | :12 |
| `qcomLocateMemoryMapAreaByAddress` | :30 |

`qcomLocateMemoryMapAreaByName_record` follows a record from the text of the configuration through the
parser, the PStore overlay and the merge to the driver that asks for it.
-/

namespace Andromeda

open Fill

section Code

variable (platform : Platform) (config : BootConfig)

/-- The walk over the map: the first entry that fits, or `some none` at the terminator; `none` when the
walk ran past the array. -/
def locateLoop (fits : Descriptor → Bool) : List Descriptor → Option (Option Descriptor)
  | [] => none
  | d :: rest =>
    if d.length = 0 then some none
    else if fits d then some (some d)
    else locateLoop fits rest

/-- Both lookups: `memoryDescriptor` is what the caller's descriptor holds. -/
def locateArea (fits : Descriptor → Bool) (memoryDescriptor : Descriptor) (g : MapGlobals) :
    Option (EfiStatus × Descriptor × MapGlobals) :=
  match getPlatformMemoryMap platform config g with
  | none => none
  | some (_, map, g) =>
    (locateLoop fits map).map fun
      | some d => (.success, d, g)
      | none => (.notFound, memoryDescriptor, g)

/-- `QcomLocateMemoryMapAreaByName` (:12). -/
def qcomLocateMemoryMapAreaByName (memoryMapAreaName : CStr) :
    Descriptor → MapGlobals → Option (EfiStatus × Descriptor × MapGlobals) :=
  locateArea platform config fun d => asciiStriCmp memoryMapAreaName.bytes d.name.bytes == 0

/-- `QcomLocateMemoryMapAreaByAddress` (:30). -/
def qcomLocateMemoryMapAreaByAddress (memoryMapAreaAddress : UInt64) :
    Descriptor → MapGlobals → Option (EfiStatus × Descriptor × MapGlobals) :=
  locateArea platform config fun d => d.address == memoryMapAreaAddress

end Code

theorem locateLoop_of_terminated (fits : Descriptor → Bool) {slots ds : List Descriptor}
    (h : Terminated slots ds) : locateLoop fits slots = some (ds.find? fits) := by
  obtain ⟨⟨t, rest, rfl, ht⟩, hlive⟩ := h
  induction ds with
  | nil => simp [locateLoop, ht]
  | cons d ds ih =>
    have hd := hlive d (by simp)
    simp only [List.cons_append, locateLoop, hd, ↓reduceIte, List.find?_cons]
    cases fits d with
    | true => simp
    | false => simpa using ih fun e he => hlive e (by simp [he])

/-- **A lookup in a map that is served** gives the first entry of the merged map that fits. -/
theorem locateArea_spec {platform : Platform} {config : BootConfig} {ds : List Descriptor}
    (h : Serves platform config ds) (fits : Descriptor → Bool) (out : Descriptor) {g : MapGlobals}
    (hg : g.Sound ds) :
    ∃ g', g'.Sound ds ∧ locateArea platform config fits out g =
      some (match (mergedMap platform.ddrBankRegions ds).find? fits with
        | some d => (.success, d, g')
        | none => (.notFound, out, g')) := by
  obtain ⟨g', hget, hg', -, hterm⟩ := getPlatformMemoryMap_spec h hg
  refine ⟨g', hg', ?_⟩
  simp only [locateArea, hget, locateLoop_of_terminated fits hterm, Option.map_some]

/-! ## Names -/

/-- The same name in some letter case. -/
def SameName (a b : Bytes) : Prop := a.map asciiCharToUpper = b.map asciiCharToUpper

instance (a b : Bytes) : Decidable (SameName a b) := inferInstanceAs (Decidable (_ = _))

/-- The name of the entries that fill the banks. -/
def ramPartitionName : Bytes := ascii "RAM Partition"

theorem fits_name_iff (name : CStr) (d : Descriptor) :
    (asciiStriCmp name.bytes d.name.bytes == 0) = true ↔ SameName name.bytes d.name.bytes := by
  rw [beq_iff_eq, asciiStriCmp_eq_zero_iff name.noNul d.name.noNul]
  rfl

/-! ## From the records to the configured map -/

/-- What an accepted configuration says: the descriptors of its two sections, the PStore region when
there is one, and the map they make. -/
structure Configured (platform : Platform) (c : ConfigText) (ds : List Descriptor) : Prop where
  sections : ∃ ms rs,
    (records memoryMapSection.bytes c.bytes).map memoryMapConfigParseDescriptor = ms.map .ok ∧
    (records registerMapSection.bytes c.bytes).map memoryMapConfigParseDescriptor = rs.map .ok ∧
    ((platform.useMemoryForSerialOutput = false ∧ ds = ms ++ rs) ∨
      platform.useMemoryForSerialOutput = true ∧ ∃ p, memoryMapConfigLoadPStoreDescriptor c.installed = .ok p ∧
        ds = carve p ms false ++ rs)

/-- A section that loads adds its records, parsed. -/
theorem loadSection_parsed {c : ConfigText} {section_ : CStr} {ds : List Descriptor}
    (hds : ds.length ≤ maxDescriptorCount - 1) {s s' : Buf Descriptor × List Descriptor} (hs : Holds s ds)
    (h : loadSection c.installed section_ s = some (.success, s')) :
    ∃ rs, (records section_.bytes c.bytes).map memoryMapConfigParseDescriptor = rs.map .ok ∧
      Holds s' (ds ++ rs) ∧ (ds ++ rs).length ≤ maxDescriptorCount - 1 ∧ ∀ d ∈ rs, d.Valid := by
  obtain ⟨status, rs, hrun, hfit, hreads, hend⟩ := loadLoop_spec c.installed section_ ds.length
    (maxDescriptorCount - 1 + 1) 0 ds.length hds (by omega)
  have hmax : maxDescriptorCount = 128 := rfl
  obtain ⟨⟨slots, n⟩, workspace⟩ := s
  obtain ⟨hslots, hws, rfl, hinUse⟩ := hs
  simp only at hslots hws hinUse
  rw [loadSection, memoryMapConfigLoadDescriptorSection, hrun slots (by omega)] at h
  simp only [Option.map_some, Option.some.injEq, Prod.mk.injEq] at h
  obtain ⟨rfl, rfl⟩ := h
  rw [Nat.zero_add] at hend
  obtain ⟨-, -, hmap⟩ := hend.parsed_of_success hreads rfl
  refine ⟨rs, (parse_of_map_recordDescriptor hmap).2, ⟨?_, hws, List.length_append.symm, ?_⟩,
    by rwa [List.length_append], hreads.valid⟩
  · exact (length_overwrite (by omega)).trans hslots
  · change (overwrite slots ds.length rs).take (ds.length + rs.length) = ds ++ rs
    rw [take_overwrite (by omega), hinUse]

/-- The configured map is made of the parsed records. -/
theorem loadPlatformMemoryMap_configured {platform : Platform} {c : ConfigText} {device workspace : List Descriptor}
    (hdevice : device.length = maxDescriptorCount) (hworkspace : workspace.length = maxDescriptorCount)
    {s : Buf Descriptor × List Descriptor}
    (hload : loadPlatformMemoryMap platform c.installed device workspace = some (.success, s)) :
    Configured platform c (liveEntries s.1.slots) := by
  obtain ⟨s₁, h₁, hload⟩ := andThen_eq_ok.1 hload
  obtain ⟨s₂, h₂, hload⟩ := andThen_eq_ok.1 hload
  obtain ⟨s₃, h₃, h₄⟩ := andThen_eq_ok.1 hload
  obtain ⟨ms, hms, hholds₁, hlen₁, hvalid₁⟩ := loadSection_parsed (Nat.zero_le _)
    (⟨hdevice, hworkspace, rfl, rfl⟩ : Holds (⟨device, 0⟩, workspace) []) h₁
  rw [List.nil_append] at hholds₁ hlen₁
  obtain ⟨es, hes, hholds₂, hlen₂, hvalid₂⟩ : ∃ es, ((platform.useMemoryForSerialOutput = false ∧ es = ms) ∨
      platform.useMemoryForSerialOutput = true ∧ ∃ p, memoryMapConfigLoadPStoreDescriptor c.installed = .ok p ∧
        es = carve p ms false) ∧ Holds s₂ es ∧ es.length ≤ maxDescriptorCount - 1 ∧ ∀ d ∈ es, d.Valid := by
    cases hserial : platform.useMemoryForSerialOutput with
    | false =>
      simp only [hserial, Bool.false_eq_true, ↓reduceIte, Option.some.injEq, Prod.mk.injEq, true_and] at h₂
      exact ⟨ms, .inl ⟨rfl, rfl⟩, h₂ ▸ hholds₁, hlen₁, hvalid₁⟩
    | true =>
      simp only [hserial, ↓reduceIte] at h₂
      obtain ⟨status, es, hends, hlen, hok⟩ := overlayPStore_spec c.installed hlen₁
      obtain ⟨s', hs', hholds⟩ := hends s₁ hholds₁
      rw [h₂] at hs'
      simp only [Option.some.injEq, Prod.mk.injEq] at hs'
      obtain ⟨rfl, rfl⟩ := hs'
      obtain ⟨p, hp, rfl⟩ := hok rfl
      exact ⟨_, .inr ⟨rfl, p, hp, rfl⟩, hholds, hlen,
        carve_valid (memoryMapConfigLoadPStoreDescriptor_ok hp).1 hvalid₁⟩
  obtain ⟨rs, hrs, hholds₃, hlen₃, hvalid₃⟩ := loadSection_parsed hlen₂ hholds₂ h₃
  have hlive : liveEntries s.1.slots = es ++ rs := by
    have hne : es ++ rs ≠ [] := by
      intro hnil
      have hcount : s₃.1.count = 0 := by rw [hholds₃.count, hnil]; rfl
      rw [terminateMap, if_pos hcount] at h₄
      simp at h₄
    have hvalid : ∀ d ∈ es ++ rs, d.Valid := fun d hd => (List.mem_append.1 hd).elim (hvalid₂ d) (hvalid₃ d)
    obtain ⟨s', hs', -, hterm⟩ := terminateMap_spec platform hlen₃ hvalid hne s₃ hholds₃
    rw [h₄] at hs'
    simp only [Option.some.injEq, Prod.mk.injEq] at hs'
    obtain ⟨-, rfl⟩ := hs'
    exact liveEntries_of_terminated hterm
  refine ⟨ms, rs, hms, hrs, ?_⟩
  rw [hlive]
  rcases hes with ⟨hserial, rfl⟩ | ⟨hserial, p, hp, rfl⟩
  · exact .inl ⟨hserial, rfl⟩
  · exact .inr ⟨hserial, p, hp, rfl⟩

/-! ## A record is found as it is written -/

/-- A descriptor beside the overlay stays in the list, and only the overlay is new. -/
theorem mem_carve_of_clear {overlay e : Descriptor} (hov : overlay.Valid) :
    ∀ (ds : List Descriptor) (inserted : Bool), (∀ d ∈ ds, d.Valid) →
    (∀ d ∈ ds, d.hi ≤ overlay.lo ∨ overlay.hi ≤ d.lo) →
    (e ∈ carve overlay ds inserted → e = overlay ∨ e ∈ ds) ∧ (e ∈ ds → e ∈ carve overlay ds inserted)
  | [], _, _, _ => ⟨fun h => .inl (mem_optional.1 h).2, fun h => by simp at h⟩
  | d :: ds, inserted, hvalid, hclear => by
    have hno : ¬ (decide (d.address < overlay.end_) && decide (overlay.address < d.end_)) = true := by
      have h1 := hov.toNat_end
      have h2 := (hvalid d (by simp)).toNat_end
      have h3 := hclear d (by simp)
      simp only [Bool.and_eq_true, decide_eq_true_eq, UInt64.lt_iff_toNat_lt, not_and]
      simp only [Descriptor.lo] at h3
      omega
    have ih : ∀ b, (e ∈ carve overlay ds b → e = overlay ∨ e ∈ ds) ∧ (e ∈ ds → e ∈ carve overlay ds b) := fun b =>
      mem_carve_of_clear hov ds b (fun x hx => hvalid x (by simp [hx])) (fun x hx => hclear x (by simp [hx]))
    simp only [carve, hno, Bool.false_eq_true, ↓reduceIte, List.mem_append, mem_optional, List.mem_cons]
    constructor
    · rintro (⟨-, rfl⟩ | rfl | h)
      · exact .inl rfl
      · exact .inr (.inl rfl)
      · exact ((ih _).1 h).imp_right .inr
    · rintro (rfl | h)
      · exact .inr (.inl rfl)
      · exact .inr (.inr ((ih _).2 h))

/-- Where the first entry that fits a name comes from, when all that fit are one. -/
theorem find?_eq_some_of_unique {α : Type} {p : α → Bool} {xs : List α} {x : α} (hx : x ∈ xs) (hp : p x = true)
    (huniq : ∀ y ∈ xs, p y = true → y = x) : xs.find? p = some x := by
  cases h : xs.find? p with
  | none => exact absurd hp (by simpa using List.find?_eq_none.1 h x hx)
  | some y => rw [huniq y (List.mem_of_find?_eq_some h) (List.find?_some h)]

/-- The entries of a merged map: the configured descriptors, and "RAM Partition" entries. -/
theorem mem_mergedMap {banks : List DdrBankRegion} {ds : List Descriptor} {e : Descriptor} :
    (e ∈ mergedMap banks ds → e ∈ ds ∨ e.name.bytes = ramPartitionName) ∧ (e ∈ ds → e ∈ mergedMap banks ds) := by
  constructor
  · intro h
    obtain ⟨p, hp, rfl⟩ := List.mem_map.1 h
    cases p with
    | seg d => exact .inl (seg_mem_mergedPieces.1 hp)
    | gap a b => exact .inr rfl
  · exact fun h => List.mem_map.2 ⟨.seg e, seg_mem_mergedPieces.2 h, rfl⟩

/-- The records of both sections, in the order they are loaded. -/
def configuredRecords (c : ConfigText) : List Bytes :=
  records memoryMapSection.bytes c.bytes ++ records registerMapSection.bytes c.bytes

/-- The configurations for which a lookup by name is unambiguous. -/
structure NamesApart (platform : Platform) (c : ConfigText) : Prop where
  distinct : (configuredRecords c).Pairwise fun e e' => ∀ d d', memoryMapConfigParseDescriptor e = .ok d →
    memoryMapConfigParseDescriptor e' = .ok d' → ¬ SameName d.name.bytes d'.name.bytes
  notReserved : ∀ e ∈ configuredRecords c, ∀ d, memoryMapConfigParseDescriptor e = .ok d →
    ¬ SameName d.name.bytes ramPartitionName ∧ ¬ SameName d.name.bytes pStoreName.bytes
  clear : ∀ p, platform.useMemoryForSerialOutput = true → memoryMapConfigLoadPStoreDescriptor c.installed = .ok p →
    ∀ e ∈ configuredRecords c, ∀ d, memoryMapConfigParseDescriptor e = .ok d → d.hi ≤ p.lo ∨ p.hi ≤ d.lo

/-- When no record overlaps the PStore region, the configured map has the descriptors of the records and
nothing else but the PStore entry. -/
theorem Configured.mem {platform : Platform} {c : ConfigText} {ds : List Descriptor}
    (h : Configured platform c ds) (hapart : NamesApart platform c) (d : Descriptor) :
    (d ∈ ds → d.name = pStoreName ∨ ∃ e ∈ configuredRecords c, memoryMapConfigParseDescriptor e = .ok d) ∧
      ∀ e ∈ configuredRecords c, ∃ d, memoryMapConfigParseDescriptor e = .ok d ∧ d ∈ ds := by
  obtain ⟨ms, rs, hms, hrs, hds⟩ := h.sections
  have hof : ∀ {texts : List Bytes} {xs : List Descriptor},
      texts.map memoryMapConfigParseDescriptor = xs.map .ok →
      (∀ x ∈ xs, ∃ e ∈ texts, memoryMapConfigParseDescriptor e = .ok x) ∧
        ∀ e ∈ texts, ∃ x ∈ xs, memoryMapConfigParseDescriptor e = .ok x := by
    intro texts xs hmap
    constructor
    · intro x hx
      have : Except.ok x ∈ texts.map memoryMapConfigParseDescriptor := hmap ▸ List.mem_map_of_mem hx
      exact List.mem_map.1 this
    · intro e he
      have : memoryMapConfigParseDescriptor e ∈ xs.map Except.ok := hmap ▸ List.mem_map_of_mem he
      obtain ⟨x, hx, heq⟩ := List.mem_map.1 this
      exact ⟨x, hx, heq.symm⟩
  have hboth : (configuredRecords c).map memoryMapConfigParseDescriptor = (ms ++ rs).map .ok := by
    rw [configuredRecords, List.map_append, hms, hrs, List.map_append]
  obtain ⟨hback, hforth⟩ := hof hboth
  have hmem : ∀ x, (x ∈ ds → x.name = pStoreName ∨ x ∈ ms ++ rs) ∧ (x ∈ ms ++ rs → x ∈ ds) := by
    intro x
    rcases hds with ⟨-, rfl⟩ | ⟨hserial, p, hp, rfl⟩
    · exact ⟨.inr, id⟩
    · obtain ⟨hpvalid, hpname⟩ := memoryMapConfigLoadPStoreDescriptor_ok hp
      have hvalid : ∀ y ∈ ms, y.Valid := by
        intro y hy
        obtain ⟨e, -, he⟩ := (hof hms).1 y hy
        exact memoryMapConfigParseDescriptor_valid he
      have hclear : ∀ y ∈ ms, y.hi ≤ p.lo ∨ p.hi ≤ y.lo := by
        intro y hy
        obtain ⟨e, he, hparse⟩ := hback y (List.mem_append_left _ hy)
        exact hapart.clear p hserial hp e he y hparse
      obtain ⟨h1, h2⟩ := mem_carve_of_clear (e := x) hpvalid ms false hvalid hclear
      simp only [List.mem_append]
      constructor
      · rintro (h | h)
        · rcases h1 h with rfl | h
          · exact .inl hpname
          · exact .inr (.inl h)
        · exact .inr (.inr h)
      · rintro (h | h)
        · exact .inl (h2 h)
        · exact .inr h
  constructor
  · intro hd
    rcases (hmem d).1 hd with h | h
    · exact .inl h
    · exact .inr (hback d h)
  · intro e he
    obtain ⟨x, hx, hparse⟩ := hforth e he
    exact ⟨x, hparse, (hmem x).2 hx⟩

/-- Two records with one name are one record. -/
theorem NamesApart.eq_of_sameName {platform : Platform} {c : ConfigText} (h : NamesApart platform c)
    {e e' : Bytes} (he : e ∈ configuredRecords c) (he' : e' ∈ configuredRecords c) {d d' : Descriptor}
    (hd : memoryMapConfigParseDescriptor e = .ok d) (hd' : memoryMapConfigParseDescriptor e' = .ok d')
    (hname : SameName d.name.bytes d'.name.bytes) : d = d' := by
  by_cases heq : e = e'
  · subst heq
    rw [hd] at hd'
    exact Except.ok.inj hd'
  · have hsymm : Std.Symm fun e e' => ∀ d d', memoryMapConfigParseDescriptor e = .ok d →
        memoryMapConfigParseDescriptor e' = .ok d' → ¬ SameName d.name.bytes d'.name.bytes :=
      ⟨fun x y hxy d d' h1 h2 h3 => hxy d' d h2 h1 h3.symm⟩
    exact absurd hname (h.distinct.forall he he' heq d d' hd hd')

/-- What loads and merges is served from then on. -/
theorem serves_of_load_of_merge {platform : Platform} {config : BootConfig} {s : Buf Descriptor × List Descriptor}
    (hload : loadPlatformMemoryMap platform config emptySlots emptySlots = some (.success, s)) {m : Buf Descriptor}
    (hmerge : mergeDdrBankRegions s.1.slots platform.ddrBankRegions emptySlots = some (.success, m)) :
    Serves platform config (liveEntries s.1.slots) := by
  obtain ⟨status, ds, hloads⟩ := loadPlatformMemoryMap_spec platform config
  obtain ⟨s', hs', -, -, hterm⟩ := hloads.run emptySlots emptySlots List.length_replicate List.length_replicate
  rw [hload] at hs'
  simp only [Option.some.injEq, Prod.mk.injEq] at hs'
  obtain ⟨rfl, rfl⟩ := hs'
  rw [liveEntries_of_terminated (hterm rfl)]
  refine ⟨hloads, ?_⟩
  have hlen : emptySlots.length = maxDescriptorCount := List.length_replicate
  obtain ⟨status, m', hm', -, hok, -⟩ :=
    mergeDdrBankRegions_spec (hterm rfl) (hloads.accepted rfl).valid platform.ddrBankRegions hlen
  rw [hmerge] at hm'
  simp only [Option.some.injEq, Prod.mk.injEq] at hm'
  exact hok.1 hm'.1.symm

/-- Calls keep what they serve. -/
theorem runEvents_serves {platform : Platform} {config : BootConfig} {ds : List Descriptor}
    (h : Serves platform config ds) : ∀ (n : Nat) {g : MapGlobals}, g.Sound ds →
      ∃ rs g', runEvents platform (List.replicate n .getPlatformMemoryMap) ⟨config, g⟩ = some (rs, ⟨config, g'⟩) ∧
        g'.Sound ds
  | 0, g, hg => ⟨[], g, rfl, hg⟩
  | n + 1, g, hg => by
    obtain ⟨g₁, hget, hg₁, -, -⟩ := getPlatformMemoryMap_spec h hg
    obtain ⟨rs, g', hrun, hg'⟩ := runEvents_serves h n hg₁
    refine ⟨⟨if g.memoryMapLoaded then none else some g₁.memoryMapLoadStatus, .success, g₁.merged⟩ :: rs, g', ?_, hg'⟩
    simp only [List.replicate_succ, runEvents, callMap, hget, Option.map_some, hrun]

/-- **A lookup by name returns what the file says.** Take a configuration that loads and merges, whose
records have names that differ in more than letter case, none of them a name the firmware gives itself,
and none overlapping the PStore region. After any number of calls, the name of a record in any letter
case gives the descriptor parsed from that record; any other name that is not one of the firmware's own
is not found, and the caller's descriptor stays as it was. -/
theorem qcomLocateMemoryMapAreaByName_record (platform : Platform) (c : ConfigText)
    {s : Buf Descriptor × List Descriptor}
    (hload : loadPlatformMemoryMap platform c.installed emptySlots emptySlots = some (.success, s)) {m : Buf Descriptor}
    (hmerge : mergeDdrBankRegions s.1.slots platform.ddrBankRegions emptySlots = some (.success, m))
    (hapart : NamesApart platform c) (n : Nat) (name : CStr) (memoryDescriptor : Descriptor) :
    ∃ rs g, runEvents platform (List.replicate n .getPlatformMemoryMap) ⟨c.installed, .initial⟩ =
        some (rs, ⟨c.installed, g⟩) ∧
      (∀ e ∈ configuredRecords c, ∃ d, memoryMapConfigParseDescriptor e = .ok d ∧
        (SameName name.bytes d.name.bytes →
          ∃ g', qcomLocateMemoryMapAreaByName platform c.installed name memoryDescriptor g = some (.success, d, g'))) ∧
      ((∀ e ∈ configuredRecords c, ∀ d, memoryMapConfigParseDescriptor e = .ok d → ¬ SameName name.bytes d.name.bytes) →
        ¬ SameName name.bytes ramPartitionName → ¬ SameName name.bytes pStoreName.bytes →
        ∃ g', qcomLocateMemoryMapAreaByName platform c.installed name memoryDescriptor g =
          some (.notFound, memoryDescriptor, g')) := by
  have hserves := serves_of_load_of_merge hload hmerge
  have hconf := loadPlatformMemoryMap_configured List.length_replicate List.length_replicate hload
  generalize liveEntries s.1.slots = ds at hserves hconf
  obtain ⟨rs, g, hrun, hg⟩ := runEvents_serves hserves n (MapGlobals.sound_initial ds)
  obtain ⟨g', -, hlocate⟩ := locateArea_spec hserves (fun d => asciiStriCmp name.bytes d.name.bytes == 0)
    memoryDescriptor hg
  refine ⟨rs, g, hrun, ?_, fun hother hram hpstore => ⟨g', ?_⟩⟩
  · intro e he
    obtain ⟨d, hparse, hd⟩ := (hconf.mem hapart zeroDescriptor).2 e he
    refine ⟨d, hparse, fun hname => ⟨g', ?_⟩⟩
    obtain ⟨hram, hpstore⟩ := hapart.notReserved e he d hparse
    -- whatever bears the name in the merged map is this record's descriptor
    have huniq : ∀ y ∈ mergedMap platform.ddrBankRegions ds,
        (asciiStriCmp name.bytes y.name.bytes == 0) = true → y = d := by
      intro y hy hfits
      have hsame : SameName d.name.bytes y.name.bytes := hname.symm.trans ((fits_name_iff name y).1 hfits)
      rcases mem_mergedMap.1 hy with hy | hy
      · rcases (hconf.mem hapart y).1 hy with hy | ⟨e', he', hparse'⟩
        · rw [hy] at hsame
          exact absurd hsame hpstore
        · exact (hapart.eq_of_sameName he he' hparse hparse' hsame).symm
      · rw [hy] at hsame
        exact absurd hsame hram
    rw [find?_eq_some_of_unique (mem_mergedMap.2 hd) ((fits_name_iff name d).2 hname) huniq] at hlocate
    exact hlocate
  · have hnone : (mergedMap platform.ddrBankRegions ds).find?
        (fun d => asciiStriCmp name.bytes d.name.bytes == 0) = none := by
      rw [List.find?_eq_none]
      intro y hy hfits
      have hsame := (fits_name_iff name y).1 hfits
      rcases mem_mergedMap.1 hy with hy | hy
      · rcases (hconf.mem hapart y).1 hy with hy | ⟨e', he', hparse'⟩
        · rw [hy] at hsame
          exact hpstore hsame
        · exact hother e' he' y hparse' hsame
      · rw [hy] at hsame
        exact hram hsame
    rw [hnone] at hlocate
    exact hlocate

/-- A record of each section beside a PStore region; the register block is asked for in another letter
case. -/
theorem qcomLocateMemoryMapAreaByName_record_other_case :
    let c : ConfigText := ⟨ascii "[AndromedaUefi]\nPStoreAddress=4096\nPStoreSize=16\n[MemoryMap]\n" ++
      ascii "8192,64,a,AddMem,SYS_MEM,TESTED,Conv,DEVICE\n[RegisterMap]\n1,9,Gic,NoHob,IO,TESTED,Conv,DEVICE",
      by decide, by decide +kernel, by decide +kernel⟩
    ∃ g, qcomLocateMemoryMapAreaByName ⟨true, [⟨0x800, 0x2000⟩]⟩ c.installed ⟨ascii "gIC", by decide⟩ zeroDescriptor
      .initial = some (.success,
        ⟨⟨⟨ascii "Gic", by decide⟩, by decide⟩, 1, 9, .noHob, .io, .tested, .conventionalMemory, .device⟩, g) := by
  intro c
  let a : Descriptor :=
    ⟨⟨⟨ascii "a", by decide⟩, by decide⟩, 8192, 64, .addMem, .systemMemory, .tested, .conventionalMemory, .device⟩
  let gic : Descriptor :=
    ⟨⟨⟨ascii "Gic", by decide⟩, by decide⟩, 1, 9, .noHob, .io, .tested, .conventionalMemory, .device⟩
  have hrecords : configuredRecords c = [ascii "8192,64,a,AddMem,SYS_MEM,TESTED,Conv,DEVICE",
      ascii "1,9,Gic,NoHob,IO,TESTED,Conv,DEVICE"] := by decide +kernel
  have ha : memoryMapConfigParseDescriptor (ascii "8192,64,a,AddMem,SYS_MEM,TESTED,Conv,DEVICE") = .ok a := by
    decide +kernel
  have hgic : memoryMapConfigParseDescriptor (ascii "1,9,Gic,NoHob,IO,TESTED,Conv,DEVICE") = .ok gic := by
    decide +kernel
  obtain ⟨s, m, hload, hmerge, -⟩ := steps_of_eval EfiStatus.success
    (loadPlatformMemoryMap ⟨true, [⟨0x800, 0x2000⟩]⟩ c.installed emptySlots emptySlots)
    (fun s => mergeDdrBankRegions s.1.slots [⟨0x800, 0x2000⟩] emptySlots) (fun _ _ => true) (by decide +kernel)
  have hapart : NamesApart ⟨true, [⟨0x800, 0x2000⟩]⟩ c := by
    constructor
    · rw [hrecords]
      simp only [List.pairwise_cons, List.mem_singleton, forall_eq, List.not_mem_nil, false_imp_iff, implies_true,
        List.Pairwise.nil, and_true, ha, hgic, Except.ok.injEq]
      rintro d d' rfl rfl
      decide
    · rw [hrecords]
      simp only [List.mem_cons, List.not_mem_nil, or_false, forall_eq_or_imp, forall_eq, ha, hgic, Except.ok.injEq,
        forall_eq']
      decide
    · intro p _ hp
      have hspan : p.lo = 4096 ∧ p.hi = 4112 := by
        have hok : (memoryMapConfigLoadPStoreDescriptor c.installed).map (fun p => (p.lo, p.hi)) = .ok (4096, 4112) := by
          decide +kernel
        rw [hp] at hok
        simpa [Except.map] using hok
      rw [hrecords]
      simp only [List.mem_cons, List.not_mem_nil, or_false, forall_eq_or_imp, forall_eq, ha, hgic, Except.ok.injEq,
        forall_eq', hspan.1, hspan.2]
      decide
  obtain ⟨rs, g, hrun, hfound, -⟩ := qcomLocateMemoryMapAreaByName_record ⟨true, [⟨0x800, 0x2000⟩]⟩ c hload hmerge
    hapart 0 ⟨ascii "gIC", by decide⟩ zeroDescriptor
  simp only [List.replicate_zero, runEvents, Option.some.injEq, Prod.mk.injEq, Session.mk.injEq] at hrun
  obtain ⟨-, -, rfl⟩ := hrun
  obtain ⟨d, hd, hlocate⟩ := hfound (ascii "1,9,Gic,NoHob,IO,TESTED,Conv,DEVICE") (by simp [hrecords])
  obtain rfl : gic = d := Except.ok.inj (hgic.symm.trans hd)
  exact hlocate (by decide)

end Andromeda
