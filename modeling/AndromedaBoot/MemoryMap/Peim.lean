import AndromedaBoot.MemoryMap.Accepts
import AndromedaBoot.MemoryMap.Lazy
import AndromedaBoot.MemoryMap.Locate
import AndromedaBoot.MemoryMap.Tables
import AndromedaBoot.MemoryMap.Tiling

/-!
# What the firmware says about an address (MemoryInitPeiLib.c, ArmPlatformLibMem.c)

Two accounts of the platform map leave the firmware: the HOBs, from which DXE makes its map of the memory, and the
table for the MMU. First both are read address by address, beside the lookup by address. Then the table that
`ArmPlatformGetVirtualMemoryMap` keeps is compared with the one that `MemoryPeim` builds anew, while the configuration
changes between the calls.
-/

namespace Andromeda

open Fill GapFill

/-! ## The table as it is read -/

/-- The entries that `ArmConfigureMmu` maps: it stops at the first one with no length. -/
def mappedEntries (table : List MmuEntry) : List MmuEntry := table.takeWhile (·.length ≠ 0)

theorem mappedEntries_of_tableFor {map : List Descriptor} {table : List MmuEntry} (h : TableFor map table)
    (hlive : ∀ d ∈ map, d.length ≠ 0) : mappedEntries table = mmuEntries map := by
  obtain ⟨rest, rfl⟩ := h.closed
  have hpos : ∀ e ∈ mmuEntries map, decide (e.length ≠ 0) = true := by
    intro e he
    obtain ⟨d, hd, rfl⟩ := List.mem_map.1 he
    exact decide_eq_true (hlive d (List.mem_of_mem_filter hd))
  rw [mappedEntries, List.takeWhile_append_of_pos hpos, List.takeWhile_cons_of_neg (by simp [zeroEntry]), List.append_nil]

/-! ## What is said of an address -/

/-- A HOB is about the address. -/
def Hob.Covers (a : Nat) : Hob → Prop
  | .resourceDescriptor _ _ address length => address.toNat ≤ a ∧ a < address.toNat + length.toNat
  | .memoryAllocation address length _ => address.toNat ≤ a ∧ a < address.toNat + length.toNat
  | .memoryTypeInformation => False

instance (a : Nat) : DecidablePred (Hob.Covers a)
  | .resourceDescriptor .. => inferInstanceAs (Decidable (_ ∧ _))
  | .memoryAllocation .. => inferInstanceAs (Decidable (_ ∧ _))
  | .memoryTypeInformation => inferInstanceAs (Decidable False)

/-- The entry translates the virtual address. -/
def MmuEntry.Translates (a : Nat) (e : MmuEntry) : Prop :=
  e.virtualBase.toNat ≤ a ∧ a < e.virtualBase.toNat + e.length.toNat

instance (a : Nat) : DecidablePred (MmuEntry.Translates a) := fun _ => inferInstanceAs (Decidable (_ ∧ _))

/-- The entries of the table for one entry of the map. -/
def entriesFor (d : Descriptor) : List MmuEntry := if d.hobOption = .hobOnlyNoCacheSetting then [] else [identityEntry d]

theorem mmuEntries_eq_flatMap (map : List Descriptor) : mmuEntries map = map.flatMap entriesFor := by
  induction map with
  | nil => rfl
  | cons d ds ih =>
    rw [List.flatMap_cons, ← ih, entriesFor]
    split_ifs with hskip
    · rw [mmuEntries_cons_hobOnly hskip, List.nil_append]
    · rw [mmuEntries_cons hskip, List.singleton_append]

/-- What is built from an entry is about its addresses. -/
theorem covers_hobsFor {d : Descriptor} {h : Hob} (hh : h ∈ hobsFor d) (a : Nat) : h.Covers a ↔ d.Covers a := by
  unfold hobsFor addHob at hh
  split_ifs at hh <;> simp at hh
  all_goals rcases hh with rfl | rfl <;> rfl

theorem translates_entriesFor {d : Descriptor} {e : MmuEntry} (he : e ∈ entriesFor d) (a : Nat) :
    e.Translates a ↔ d.Covers a := by
  unfold entriesFor at he
  split_ifs at he
  · cases he
  · obtain rfl := List.mem_singleton.1 he
    rfl

/-- What is built for an address comes from the entries there. -/
theorem filter_flatMap {α β : Type} {p : α → Bool} {q : β → Bool} {f : α → List β}
    (h : ∀ x, ∀ y ∈ f x, q y = p x) (xs : List α) : (xs.flatMap f).filter q = (xs.filter p).flatMap f := by
  induction xs with
  | nil => rfl
  | cons x xs ih =>
    rw [List.flatMap_cons, List.filter_append, ih]
    by_cases hx : p x = true
    · rw [List.filter_cons_of_pos hx, List.flatMap_cons, List.filter_eq_self.2 fun y hy => (h x y hy).trans hx]
    · rw [List.filter_cons_of_neg hx, List.filter_eq_nil_iff.2 fun y hy => by rwa [h x y hy], List.nil_append]

theorem filter_hobs (map : List Descriptor) (a : Nat) :
    (map.flatMap hobsFor).filter (·.Covers a) = (map.filter (·.Covers a)).flatMap hobsFor :=
  filter_flatMap (fun _ _ hy => decide_eq_decide.2 (covers_hobsFor hy a)) map

theorem filter_entries (map : List Descriptor) (a : Nat) :
    (mmuEntries map).filter (·.Translates a) = (map.filter (·.Covers a)).flatMap entriesFor := by
  rw [mmuEntries_eq_flatMap]
  exact filter_flatMap (fun _ _ hy => decide_eq_decide.2 (translates_entriesFor hy a)) map

theorem filter_eq_singleton {α : Type} {p : α → Bool} {l : List α} {x : α} (h : l.countP p = 1) (hx : x ∈ l) (hp : p x = true) :
    l.filter p = [x] := by
  rw [List.countP_eq_length_filter, List.length_eq_one_iff] at h
  obtain ⟨y, hy⟩ := h
  have hmem : x ∈ l.filter p := List.mem_filter.2 ⟨hx, hp⟩
  rw [hy, List.mem_singleton] at hmem
  rw [hy, hmem]

/-- Regions that follow each other have no address in common. -/
theorem eq_of_covers {ds : List Descriptor} (hsorted : ds.Pairwise fun d e => d.hi ≤ e.lo) {d e : Descriptor} (hd : d ∈ ds)
    (he : e ∈ ds) {a : Nat} (hda : d.Covers a) (hea : e.Covers a) : d = e := by
  by_contra hne
  have : Std.Symm (fun d e : Descriptor => d.hi ≤ e.lo ∨ e.hi ≤ d.lo) := ⟨fun _ _ h => h.symm⟩
  have hdisj : ds.Pairwise fun d e => d.hi ≤ e.lo ∨ e.hi ≤ d.lo := hsorted.imp .inl
  have hapart := hdisj.forall hd he hne
  unfold Descriptor.Covers at hda hea
  omega

section Tiling

variable {ds : List Descriptor} (hvalid : ∀ d ∈ ds, d.Valid) (hsorted : ds.Pairwise fun d e => d.hi ≤ e.lo)
  (banks : DdrBanks) (hone : ∀ d ∈ ds, (banks.regions.filter (descriptorOverlapsRegion d)).length ≤ 1)

include hvalid

/-- What covers an address is configured, or a RAM partition of a bank with that address. -/
theorem configured_or_bank {e : Descriptor} (he : e ∈ mergedMap banks.regions ds) {a : Nat} (hcov : e.Covers a) :
    e ∈ ds ∨ ∃ r ∈ banks.regions, r.lo ≤ a ∧ a < r.hi := by
  obtain ⟨p, hp, rfl⟩ := List.mem_map.1 he
  cases p with
  | seg d => exact .inl (seg_mem_mergedPieces.1 hp)
  | gap x y =>
    obtain ⟨r, hr, hgap⟩ := gap_mem_mergedPieces.1 hp
    obtain ⟨hlo, -, hhi⟩ := gap_in_region hvalid hgap
    rw [(banks.valid r hr).top_eq] at hhi
    rw [covers_entry hvalid hp, Piece.covers_gap] at hcov
    exact .inr ⟨r, hr, by omega, by omega⟩

include hsorted hone

/-- The entry at a configured address. -/
theorem filter_covers_configured {d : Descriptor} (hd : d ∈ ds) {a : Nat} (hcov : d.Covers a) :
    (mergedMap banks.regions ds).filter (·.Covers a) = [d] := by
  have hmem : d ∈ mergedMap banks.regions ds := List.mem_map.2 ⟨.seg d, seg_mem_mergedPieces.2 hd, rfl⟩
  refine filter_eq_singleton ?_ hmem (decide_eq_true hcov)
  by_cases hbank : ∃ r ∈ banks.regions, r.lo ≤ a ∧ a < r.hi
  · obtain ⟨r, hr, ha⟩ := hbank
    exact countP_covers_bank hvalid hsorted banks hone hr ha
  · rw [← count_mergedMap hvalid hsorted banks hone hd, List.count]
    refine List.countP_congr fun e he => ?_
    rw [decide_eq_true_eq, beq_iff_eq]
    constructor
    · intro hea
      exact eq_of_covers hsorted ((configured_or_bank hvalid banks he hea).resolve_right hbank) hd hea hcov
    · rintro rfl
      exact hcov

/-- The entry at an address of a bank that nothing is configured for. -/
theorem filter_covers_free {r : DdrBankRegion} (hr : r ∈ banks.regions) {a : Nat} (ha : r.lo ≤ a ∧ a < r.hi)
    (hfree : ∀ d ∈ ds, ¬ d.Covers a) :
    ∃ base length, (mergedMap banks.regions ds).filter (·.Covers a) = [ramPartition base length] ∧
      r.lo ≤ base.toNat ∧ base.toNat + length.toNat ≤ r.hi := by
  have hcount := countP_covers_bank hvalid hsorted banks hone hr ha
  rw [List.countP_eq_length_filter, List.length_eq_one_iff] at hcount
  obtain ⟨e, he⟩ := hcount
  have hmem : e ∈ (mergedMap banks.regions ds).filter (·.Covers a) := he ▸ List.mem_singleton_self e
  obtain ⟨hmem, hcov⟩ := List.mem_filter.1 hmem
  obtain ⟨⟨base, length, rfl⟩, hlo, hhi⟩ :=
    (entry_at hvalid hsorted banks hone hr ha hmem (of_decide_eq_true hcov)).2 hfree
  exact ⟨base, length, he, hlo, hhi⟩

/-- No two entries of the merged map have an address in common. -/
theorem mergedMap_eq_of_covers {e e' : Descriptor} (he : e ∈ mergedMap banks.regions ds) (he' : e' ∈ mergedMap banks.regions ds)
    {a : Nat} (hcov : e.Covers a) (hcov' : e'.Covers a) : e = e' := by
  have hfilter : ∃ x, (mergedMap banks.regions ds).filter (·.Covers a) = [x] := by
    rcases configured_or_bank hvalid banks he hcov with hd | ⟨r, hr, ha⟩
    · exact ⟨e, filter_covers_configured hvalid hsorted banks hone hd hcov⟩
    · have hcount := countP_covers_bank hvalid hsorted banks hone hr ha
      rwa [List.countP_eq_length_filter, List.length_eq_one_iff] at hcount
  obtain ⟨x, hx⟩ := hfilter
  have hmem : e ∈ (mergedMap banks.regions ds).filter (·.Covers a) := List.mem_filter.2 ⟨he, decide_eq_true hcov⟩
  have hmem' : e' ∈ (mergedMap banks.regions ds).filter (·.Covers a) := List.mem_filter.2 ⟨he', decide_eq_true hcov'⟩
  rw [hx, List.mem_singleton] at hmem hmem'
  exact hmem.trans hmem'.symm

/-- **A lookup by address** gives the entry of the map that begins there, of which there is one at most. If there is none,
it is not found, and the caller's descriptor stays as it was. -/
theorem qcomLocateMemoryMapAreaByAddress_spec {platform : Platform} (hbanks : platform.ddrBankRegions = banks.regions)
    {config : BootConfig} (hserves : Serves platform config ds) (memoryMapAreaAddress : UInt64) (memoryDescriptor : Descriptor)
    {g : MapGlobals} (hg : g.Sound ds) :
    ∃ g', g'.Sound ds ∧
      (∀ e ∈ mergedMap banks.regions ds, e.address = memoryMapAreaAddress →
        qcomLocateMemoryMapAreaByAddress platform config memoryMapAreaAddress memoryDescriptor g = some (.success, e, g')) ∧
      ((∀ e ∈ mergedMap banks.regions ds, e.address ≠ memoryMapAreaAddress) →
        qcomLocateMemoryMapAreaByAddress platform config memoryMapAreaAddress memoryDescriptor g =
          some (.notFound, memoryDescriptor, g')) := by
  obtain ⟨g', hg', hlocate⟩ := locateArea_spec hserves (fun d => d.address == memoryMapAreaAddress) memoryDescriptor hg
  rw [hbanks] at hlocate
  refine ⟨g', hg', ?_, ?_⟩
  · intro e he haddress
    have hbegins {y : Descriptor} (hy : y ∈ mergedMap banks.regions ds) (hfits : y.address = memoryMapAreaAddress) :
        y.Covers memoryMapAreaAddress.toNat := by
      have hspan := Descriptor.valid_iff.1 (mergedMap_valid hvalid y hy)
      rw [← hfits]
      exact ⟨le_rfl, hspan.1⟩
    have huniq : ∀ y ∈ mergedMap banks.regions ds, (y.address == memoryMapAreaAddress) = true → y = e := fun y hy hfits =>
      mergedMap_eq_of_covers hvalid hsorted banks hone hy he (hbegins hy (beq_iff_eq.1 hfits)) (hbegins he haddress)
    have hfits : (e.address == memoryMapAreaAddress) = true := beq_iff_eq.2 haddress
    rw [find?_eq_some_of_unique (p := fun d => d.address == memoryMapAreaAddress) he hfits huniq] at hlocate
    exact hlocate
  · intro hnone
    rw [List.find?_eq_none.2 fun y hy => by simpa using hnone y hy] at hlocate
    exact hlocate

end Tiling

/-- **Every address is accounted for once.** Take a configuration that means disjoint descriptors in the order of their
addresses, each in one bank at most. In whatever state of the boot `MemoryPeim` is called: an address of a descriptor
has just the HOBs and the mapping of that descriptor; any other address of a bank is free system memory, mapped to
itself and cached; and for every other address there is neither a HOB nor a mapping. -/
theorem memoryPeim_accounts (platform : Platform) (banks : DdrBanks) (hbanks : platform.ddrBankRegions = banks.regions)
    (c : ConfigText) {ds : List Descriptor} (hmeans : Means platform c ds)
    (hfit : (mergedMap banks.regions ds).length ≤ maxDescriptorCount - 1)
    (hsorted : ds.Pairwise fun d e => d.address ≤ e.address) (hdisj : ds.Pairwise fun d e => d.hi ≤ e.lo ∨ e.hi ≤ d.lo)
    (hone : ∀ d ∈ ds, (banks.regions.filter (descriptorOverlapsRegion d)).length ≤ 1) (pcds : MemoryPcds)
    (hsize : pcds.systemMemorySize ≠ 0) {boot : Boot} (hreach : Reachable platform c.installed pcds boot)
    (stack : List MmuEntry) (hstack : stack.length = maxDescriptorCount) :
    ∃ g table hobs, memoryPeim platform c.installed pcds boot.map stack = .ok (g, table, hobs) ∧
      ∀ a : Nat,
        (∀ d ∈ ds, d.Covers a →
          hobs.filter (·.Covers a) = hobsFor d ∧ (mappedEntries table).filter (·.Translates a) = entriesFor d) ∧
        ((∀ d ∈ ds, ¬ d.Covers a) →
          (∀ r ∈ banks.regions, r.lo ≤ a → a < r.hi → ∃ base length : UInt64,
            r.lo ≤ base.toNat ∧ base.toNat + length.toNat ≤ r.hi ∧
            hobs.filter (·.Covers a) = [.resourceDescriptor .systemMemory .sysMemCap base length,
              .memoryAllocation base length .conventionalMemory] ∧
            (mappedEntries table).filter (·.Translates a) = [⟨base, base, length, .writeBack⟩]) ∧
          ((∀ r ∈ banks.regions, ¬ (r.lo ≤ a ∧ a < r.hi)) →
            hobs.filter (·.Covers a) = [] ∧ (mappedEntries table).filter (·.Translates a) = [])) := by
  have hserves : Serves platform c.installed ds := ⟨hmeans.loads, by rwa [hbanks]⟩
  have hvalid := (hmeans.loads.accepted rfl).valid
  have hpair := pairwise_hi_le_lo hvalid hsorted hdisj
  have hg := (hreach.sound hserves).map
  obtain ⟨-, -, -, -, -, hlive⟩ := getPlatformMemoryMap_spec hserves hg
  have hpeim := memoryPeim_spec hserves hg pcds hstack
  rw [if_neg hsize] at hpeim
  obtain ⟨g, table, hrun, -, htable⟩ := hpeim
  have hmapped := mappedEntries_of_tableFor htable hlive
  rw [hbanks] at hrun hmapped
  refine ⟨g, table, _, hrun, fun a => ?_⟩
  have htype : (if pcds.prePiProduceMemoryTypeInformationHob = true then [Hob.memoryTypeInformation] else []).filter
      (·.Covers a) = [] := by
    rw [List.filter_eq_nil_iff]
    intro hob hmem hcov
    split_ifs at hmem
    · obtain rfl := List.mem_singleton.1 hmem
      exact of_decide_eq_true hcov
    · cases hmem
  rw [hmapped, List.filter_append, htype, List.append_nil, filter_hobs, filter_entries]
  refine ⟨?_, fun hfree => ⟨?_, ?_⟩⟩
  · intro d hd hcov
    rw [filter_covers_configured hvalid hpair banks hone hd hcov, List.flatMap_singleton, List.flatMap_singleton]
    exact ⟨rfl, rfl⟩
  · intro r hr hlo hhi
    obtain ⟨base, length, hfilter, hin⟩ := filter_covers_free hvalid hpair banks hone hr ⟨hlo, hhi⟩ hfree
    rw [hfilter, List.flatMap_singleton, List.flatMap_singleton]
    exact ⟨base, length, hin.1, hin.2, rfl, rfl⟩
  · intro hout
    have hnone : (mergedMap banks.regions ds).filter (·.Covers a) = [] := by
      rw [List.filter_eq_nil_iff]
      intro e he hcov
      rcases configured_or_bank hvalid banks he (of_decide_eq_true hcov) with hd | ⟨r, hr, ha⟩
      · exact hfree e hd (of_decide_eq_true hcov)
      · exact hout r hr ha
    rw [hnone]
    exact ⟨rfl, rfl⟩

/-- A piece of memory inside the only bank and a register block outside. -/
theorem memoryPeim_accounts_two_records :
    let c : ConfigText := ⟨ascii "[MemoryMap]\n8192,64,a,AddMem,SYS_MEM,TESTED,Conv,DEVICE\n" ++
      ascii "[RegisterMap]\n65536,9,Gic,NoHob,IO,TESTED,Conv,DEVICE", by decide, by decide +kernel, by decide +kernel⟩
    ∃ g table hobs, memoryPeim ⟨false, [⟨0x800, 0x2000⟩]⟩ c.installed ⟨0x4000, true⟩ .initial
        (List.replicate maxDescriptorCount zeroEntry) = .ok (g, table, hobs) ∧
      hobs.filter (·.Covers 8192) = [.resourceDescriptor .systemMemory .tested 8192 64,
        .memoryAllocation 8192 64 .conventionalMemory] ∧
      hobs.filter (·.Covers 65536) = [] ∧
      (mappedEntries table).filter (·.Translates 65536) = [⟨65536, 65536, 9, .device⟩] := by
  intro c
  let a : Descriptor :=
    ⟨⟨⟨ascii "a", by decide⟩, by decide⟩, 8192, 64, .addMem, .systemMemory, .tested, .conventionalMemory, .device⟩
  let gic : Descriptor :=
    ⟨⟨⟨ascii "Gic", by decide⟩, by decide⟩, 65536, 9, .noHob, .io, .tested, .conventionalMemory, .device⟩
  let banks : DdrBanks := ⟨[⟨0x800, 0x2000⟩], by
    intro r hr
    obtain rfl := List.mem_singleton.1 hr
    exact ⟨by decide, by decide⟩, by simp⟩
  have hmeans : Means ⟨false, [⟨0x800, 0x2000⟩]⟩ c [a, gic] := by
    refine ⟨[a], [a], [gic], ⟨by decide +kernel, by decide, by decide +kernel⟩, by decide, rfl,
      ⟨by decide +kernel, by decide, by decide +kernel⟩, rfl, by decide, fun h => by simp at h⟩
  obtain ⟨g, table, hobs, hpeim, haccounts⟩ := memoryPeim_accounts ⟨false, [⟨0x800, 0x2000⟩]⟩ banks rfl c
    hmeans (by decide +kernel) (by decide) (by decide) (by decide) ⟨0x4000, true⟩ (by decide) .initial
    (List.replicate maxDescriptorCount zeroEntry) List.length_replicate
  obtain ⟨hobs₁, -⟩ := (haccounts 8192).1 a (by simp) (by decide)
  obtain ⟨hobs₂, hentries⟩ := (haccounts 65536).1 gic (by simp) (by decide)
  exact ⟨g, table, hobs, hpeim, hobs₁, hobs₂, hentries⟩

/-! ## The table that is kept -/

/-- What happens during a boot; the configuration may come late. -/
inductive SetupEvent
  | configure (config : BootConfig)
  | getPlatformMemoryMap
  | memoryPeim (stack : List MmuEntry)
  | armPlatformGetVirtualMemoryMap

/-- The configuration of the moment and the statics. -/
structure SetupState where
  config : BootConfig
  boot : Boot

section Setup

variable (platform : Platform) (pcds : MemoryPcds)

def setupStep : SetupEvent → SetupState → Except Halt SetupState
  | .configure config, s => .ok { s with config := config }
  | .getPlatformMemoryMap, s =>
    match Andromeda.getPlatformMemoryMap platform s.config s.boot.map with
    | none => .error .outOfBounds
    | some (_, _, g) => .ok { s with boot := { s.boot with map := g } }
  | .memoryPeim stack, s =>
    (Andromeda.memoryPeim platform s.config pcds s.boot.map stack).map fun (g, _, _) =>
      { s with boot := { s.boot with map := g } }
  | .armPlatformGetVirtualMemoryMap, s =>
    (Andromeda.armPlatformGetVirtualMemoryMap platform s.config s.boot).map fun boot => { s with boot := boot }

def runSetup : List SetupEvent → SetupState → Except Halt SetupState
  | [], s => .ok s
  | event :: events, s => (setupStep platform pcds event s).bind (runSetup events)

end Setup

section Calls

variable {platform : Platform}

/-- What a call before anything was found points to. -/
theorem callMap_fresh_terminated {config : BootConfig} {g g' : MapGlobals} {r : Reply} (hg : g.Fresh)
    (hcall : callMap platform config g = some (r, g')) :
    ∃ es, Terminated r.map es ∧ es.length ≤ maxDescriptorCount - 1 ∧ (r.load = some .notFound → es = []) := by
  have hnone : Terminated [memoryMapTerminator] [] := ⟨⟨memoryMapTerminator, [], rfl, rfl⟩, by simp⟩
  obtain ⟨status, ds, hloads⟩ := loadPlatformMemoryMap_spec platform config
  obtain ⟨s, hs, -, -, hterm⟩ := hloads.run _ _ hg.device hg.workspace
  rw [callMap_fresh hg hs] at hcall
  by_cases hok : status = .success
  · subst hok
    obtain ⟨mstatus, m, hmerge, -, hfit, hmap⟩ := mergeDdrBankRegions_spec (hterm rfl) (hloads.accepted rfl).valid
      platform.ddrBankRegions (show emptySlots.length = maxDescriptorCount from List.length_replicate)
    rw [if_neg (by decide), hmerge, Option.map_some, Option.some.injEq, Prod.mk.injEq] at hcall
    obtain ⟨rfl, -⟩ := hcall
    by_cases hmerged : mstatus = .success
    · exact ⟨_, by simpa [hmerged] using (hmap hmerged).1, hfit.1 hmerged, fun h => by simp at h⟩
    · exact ⟨[], by simpa [hmerged] using hnone, Nat.zero_le _, fun _ => rfl⟩
  · rw [if_pos hok, Option.some.injEq, Prod.mk.injEq] at hcall
    obtain ⟨rfl, -⟩ := hcall
    exact ⟨[], hnone, Nat.zero_le _, fun _ => rfl⟩

/-- What a call of `GetPlatformMemoryMap` gives, without the load it made. -/
theorem getPlatformMemoryMap_of_callMap {config : BootConfig} {g g' : MapGlobals} {r : Reply}
    (hcall : callMap platform config g = some (r, g')) :
    getPlatformMemoryMap platform config g = some (r.status, r.map, g') := by
  obtain ⟨⟨status, map, g₁⟩, hget, heq⟩ := Option.map_eq_some_iff.1 hcall
  obtain ⟨rfl, rfl⟩ := Prod.mk.inj heq
  exact hget

section Served

variable {config : BootConfig} {g g' : MapGlobals} {r : Reply} {es : List Descriptor}
  (hcall : callMap platform config g = some (r, g')) (hterm : Terminated r.map es)
  (hfit : es.length ≤ maxDescriptorCount - 1)

include hcall hterm hfit

/-- The table that is built anew, from whatever map is served. -/
theorem memoryPeim_of_terminated {pcds : MemoryPcds} (hsize : pcds.systemMemorySize ≠ 0) {stack : List MmuEntry}
    (hstack : stack.length = maxDescriptorCount) :
    ∃ table, memoryPeim platform config pcds g stack = .ok (g', table, es.flatMap hobsFor ++
        if pcds.prePiProduceMemoryTypeInformationHob then [.memoryTypeInformation] else []) ∧ TableFor es table := by
  have hget := getPlatformMemoryMap_of_callMap hcall
  obtain ⟨⟨t, rest, hmap, ht⟩, hlive⟩ := hterm
  rw [hmap] at hget
  have hmax : maxDescriptorCount = 128 := rfl
  have hle := length_mmuEntries_le es
  have hlt : (mmuEntries es).length < maxDescriptorCount := by omega
  have hloop := memoryPeimLoop_spec ht rest es 0 stack [] hlive hstack (by omega)
  rw [Nat.zero_add, List.nil_append] at hloop
  have hlen : (overwrite stack 0 (mmuEntries es)).length = maxDescriptorCount := by
    rw [length_overwrite (by omega), hstack]
  refine ⟨_, ?_, tableFor_overwrite hstack hlt⟩
  simp only [memoryPeim, hget, hsize, ↓reduceIte, hloop, setEntry_eq hlen hlt]

/-- The table that is kept, or filled now. -/
theorem armPlatformGetVirtualMemoryMap_of_terminated {boot : Boot} (hmap : boot.map = g)
    (hwhole : boot.memoryTable.length = maxDescriptorCount) (hbuilt : boot.index ≠ 0 → TableFor es boot.memoryTable) :
    ∃ boot', armPlatformGetVirtualMemoryMap platform config boot = .ok boot' ∧ boot'.map = g' ∧
      TableFor es boot'.memoryTable ∧ (boot'.index ≠ 0 → boot.index = 0 → es ≠ []) ∧
      (boot.index ≠ 0 → boot'.memoryTable = boot.memoryTable ∧ boot'.index = boot.index) := by
  have hget := getPlatformMemoryMap_of_callMap hcall
  obtain ⟨⟨t, rest, hserved, ht⟩, hlive⟩ := hterm
  rw [hserved, ← hmap] at hget
  by_cases hindex : boot.index = 0
  · have hmax : maxDescriptorCount = 128 := rfl
    have hle := length_mmuEntries_le es
    have hlt : (mmuEntries es).length < maxDescriptorCount := by omega
    have hloop := virtualMapLoop_spec ht rest es 0 boot.memoryTable hlive hwhole (by omega)
    rw [Nat.zero_add] at hloop
    have hlen : (overwrite boot.memoryTable 0 (mmuEntries es)).length = maxDescriptorCount := by
      rw [length_overwrite (by omega), hwhole]
    refine ⟨⟨g', _, (mmuEntries es).length⟩, ?_, rfl, tableFor_overwrite hwhole hlt, ?_, fun hne => absurd hindex hne⟩
    · simp only [armPlatformGetVirtualMemoryMap, hget, hindex, ne_eq, not_true_eq_false, ↓reduceIte, hloop,
        setEntry_eq hlen hlt]
    · rintro hne - rfl
      exact hne rfl
  · refine ⟨{ boot with map := g' }, ?_, rfl, hbuilt hindex, fun _ h => absurd h hindex, fun _ => ⟨rfl, rfl⟩⟩
    simp only [armPlatformGetVirtualMemoryMap, hget, ne_eq, hindex, not_false_eq_true, ↓reduceIte]

end Served

/-- The statics agree: as long as nothing was found there is no table, and from then on a table that is kept is that of
the map that stays. -/
inductive Boot.Agrees (platform : Platform) : Boot → Prop
  | fresh {boot : Boot} (hmap : boot.map.Fresh) (hwhole : boot.memoryTable.length = maxDescriptorCount)
      (hindex : boot.index = 0) : Agrees platform boot
  | settled {boot : Boot} {loadStatus status : EfiStatus} {map es : List Descriptor}
      (hmap : boot.map.Settled platform loadStatus status map) (hterm : Terminated map es)
      (hfit : es.length ≤ maxDescriptorCount - 1) (hwhole : boot.memoryTable.length = maxDescriptorCount)
      (hbuilt : boot.index ≠ 0 → TableFor es boot.memoryTable) : Agrees platform boot

theorem Boot.agrees_initial : Boot.initial.Agrees platform :=
  .fresh MapGlobals.fresh_initial List.length_replicate rfl

/-- One call from statics that agree: the entries both tables have, and the statics that agree afterwards. -/
theorem Boot.Agrees.call {boot : Boot} (h : boot.Agrees platform) (config : BootConfig) :
    ∃ r g es, callMap platform config boot.map = some (r, g) ∧ Terminated r.map es ∧ es.length ≤ maxDescriptorCount - 1 ∧
      boot.memoryTable.length = maxDescriptorCount ∧ (boot.index ≠ 0 → TableFor es boot.memoryTable) ∧
      ∀ boot' : Boot, boot'.map = g → boot'.memoryTable.length = maxDescriptorCount →
        (boot'.index ≠ 0 → TableFor es boot'.memoryTable ∧ (boot.index = 0 → es ≠ [])) → boot'.Agrees platform := by
  cases h with
  | fresh hmap hwhole hindex =>
    obtain ⟨status, r, g, hcall, hload, -, hagain, hsettled⟩ := callMap_fresh_spec platform config hmap
    obtain ⟨es, hterm, hfit, hnone⟩ := callMap_fresh_terminated hmap hcall
    refine ⟨r, g, es, hcall, hterm, hfit, hwhole, fun hne => absurd hindex hne, ?_⟩
    rintro boot' rfl hwhole' hbuilt
    by_cases hstatus : status = .notFound
    · refine .fresh (hagain hstatus) hwhole' ?_
      by_contra hne
      exact (hbuilt hne).2 hindex (hnone (by rw [hload, hstatus]))
    · exact .settled (hsettled hstatus) hterm hfit hwhole' fun hne => (hbuilt hne).1
  | settled hmap hterm hfit hwhole hbuilt =>
    refine ⟨_, _, _, hmap.call config, hterm, hfit, hwhole, hbuilt, ?_⟩
    intro boot' hboot' hwhole' hbuilt'
    exact .settled (hboot' ▸ hmap) hterm hfit hwhole' fun hne => (hbuilt' hne).1

section Runs

variable {pcds : MemoryPcds} (hsize : pcds.systemMemorySize ≠ 0)

/-- The stack that `MemoryPeim` finds has the size of its table. -/
def SetupEvent.Whole : SetupEvent → Prop
  | .memoryPeim stack => stack.length = maxDescriptorCount
  | _ => True

include hsize

/-- A step keeps the agreement, and a table once it is filled. -/
theorem Boot.Agrees.step {s : SetupState} (h : s.boot.Agrees platform) {event : SetupEvent} (hevent : event.Whole) :
    ∃ s', setupStep platform pcds event s = .ok s' ∧ s'.boot.Agrees platform ∧
      (s.boot.index ≠ 0 → s'.boot.memoryTable = s.boot.memoryTable ∧ s'.boot.index = s.boot.index) := by
  obtain ⟨r, g, es, hcall, hterm, hfit, hwhole, hbuilt, hnext⟩ := h.call s.config
  -- three of the events leave the table alone
  have hkept : Boot.Agrees platform { s.boot with map := g } :=
    hnext _ rfl hwhole fun hne => ⟨hbuilt hne, fun h0 => absurd h0 hne⟩
  cases event with
  | configure config => exact ⟨_, rfl, h, fun _ => ⟨rfl, rfl⟩⟩
  | getPlatformMemoryMap =>
    refine ⟨{ s with boot := { s.boot with map := g } }, ?_, hkept, fun _ => ⟨rfl, rfl⟩⟩
    rw [setupStep, getPlatformMemoryMap_of_callMap hcall]
  | memoryPeim stack =>
    obtain ⟨table, hpeim, -⟩ := memoryPeim_of_terminated hcall hterm hfit hsize hevent
    refine ⟨{ s with boot := { s.boot with map := g } }, ?_, hkept, fun _ => ⟨rfl, rfl⟩⟩
    rw [setupStep, hpeim]
    rfl
  | armPlatformGetVirtualMemoryMap =>
    obtain ⟨boot', hrun, hmap, htable, hfound, hsame⟩ :=
      armPlatformGetVirtualMemoryMap_of_terminated hcall hterm hfit rfl hwhole hbuilt
    refine ⟨{ s with boot := boot' }, ?_, hnext boot' hmap htable.whole fun hne => ⟨htable, hfound hne⟩, hsame⟩
    rw [setupStep, hrun]
    rfl

theorem Boot.Agrees.run {events : List SetupEvent} (hevents : ∀ event ∈ events, event.Whole) {s : SetupState}
    (h : s.boot.Agrees platform) :
    ∃ s', runSetup platform pcds events s = .ok s' ∧ s'.boot.Agrees platform ∧
      (s.boot.index ≠ 0 → s'.boot.memoryTable = s.boot.memoryTable ∧ s'.boot.index = s.boot.index) := by
  induction events generalizing s with
  | nil => exact ⟨s, rfl, h, fun _ => ⟨rfl, rfl⟩⟩
  | cons event events ih =>
    obtain ⟨s₁, hstep, h₁, hkept₁⟩ := h.step hsize (hevents event List.mem_cons_self)
    obtain ⟨s', hrun, h', hkept'⟩ := ih (fun e he => hevents e (List.mem_cons_of_mem _ he)) h₁
    refine ⟨s', by rw [runSetup, hstep]; exact hrun, h', fun hne => ?_⟩
    obtain ⟨htable₁, hindex₁⟩ := hkept₁ hne
    obtain ⟨htable', hindex'⟩ := hkept' (by rwa [hindex₁])
    exact ⟨htable'.trans htable₁, hindex'.trans hindex₁⟩

end Runs

end Calls

/-- **The kept table is never stale.** In whatever order the configuration changes, the map is asked for, `MemoryPeim`
runs and the table is asked for: nothing leaves an array, no assertion on an index or on the memory size fails, the table
that is returned maps what `MemoryPeim` would map at that moment, and once it has been filled it stays. -/
theorem armPlatformGetVirtualMemoryMap_agrees (platform : Platform) (pcds : MemoryPcds) (hsize : pcds.systemMemorySize ≠ 0)
    (config : BootConfig) (events later : List SetupEvent) (hevents : ∀ event ∈ events, event.Whole)
    (hlater : ∀ event ∈ later, event.Whole) :
    ∃ s, runSetup platform pcds events ⟨config, .initial⟩ = .ok s ∧
      (∀ stack : List MmuEntry, stack.length = maxDescriptorCount →
        ∃ boot' table hobs, armPlatformGetVirtualMemoryMap platform s.config s.boot = .ok boot' ∧
          memoryPeim platform s.config pcds s.boot.map stack = .ok (boot'.map, table, hobs) ∧
          mappedEntries boot'.memoryTable = mappedEntries table) ∧
      ∃ s', runSetup platform pcds later s = .ok s' ∧ (s.boot.index ≠ 0 →
        ∃ boot', armPlatformGetVirtualMemoryMap platform s'.config s'.boot = .ok boot' ∧
          boot'.memoryTable = s.boot.memoryTable) := by
  have hstart : Boot.initial.Agrees platform := Boot.agrees_initial
  obtain ⟨s, hrun, h, -⟩ := hstart.run hsize hevents (s := ⟨config, .initial⟩)
  obtain ⟨s', hrun', h', hkept'⟩ := h.run hsize hlater
  refine ⟨s, hrun, ?_, s', hrun', ?_⟩
  · intro stack hstack
    obtain ⟨r, g, es, hcall, hterm, hfit, hwhole, hbuilt, -⟩ := h.call s.config
    obtain ⟨boot', hget, hmap, htable, -, -⟩ :=
      armPlatformGetVirtualMemoryMap_of_terminated hcall hterm hfit rfl hwhole hbuilt
    obtain ⟨table, hpeim, htable'⟩ := memoryPeim_of_terminated hcall hterm hfit hsize hstack
    refine ⟨boot', table, _, hget, by rw [hmap, hpeim], ?_⟩
    rw [mappedEntries_of_tableFor htable hterm.live, mappedEntries_of_tableFor htable' hterm.live]
  · intro hne
    obtain ⟨htable, hindex⟩ := hkept' hne
    obtain ⟨r, g, es, hcall, hterm, hfit, hwhole, hbuilt, -⟩ := h'.call s'.config
    obtain ⟨boot', hget, -, -, -, hsame⟩ :=
      armPlatformGetVirtualMemoryMap_of_terminated hcall hterm hfit rfl hwhole hbuilt
    exact ⟨boot', hget, (hsame (by rwa [hindex])).1.trans htable⟩

/-- The table is asked for before there is a configuration, and `MemoryPeim` runs when there is one. -/
theorem armPlatformGetVirtualMemoryMap_agrees_late :
    ∃ s, runSetup ⟨false, sm8150DdrBankRegions⟩ ⟨0x4000, true⟩
        [.armPlatformGetVirtualMemoryMap, .configure ⟨some (ascii "[MemoryMap]\n"), none⟩,
          .memoryPeim (List.replicate maxDescriptorCount zeroEntry)] ⟨⟨none, none⟩, .initial⟩ = .ok s := by
  obtain ⟨s, hrun, -⟩ := armPlatformGetVirtualMemoryMap_agrees ⟨false, sm8150DdrBankRegions⟩ ⟨0x4000, true⟩ (by decide)
    ⟨none, none⟩ [.armPlatformGetVirtualMemoryMap, .configure ⟨some (ascii "[MemoryMap]\n"), none⟩,
      .memoryPeim (List.replicate maxDescriptorCount zeroEntry)] [] (by simp [SetupEvent.Whole]) (by simp)
  exact ⟨s, hrun⟩

end Andromeda
