import Mathlib.Data.List.Nodup
import AndromedaBoot.MemoryMap.Platform
import AndromedaBoot.MemoryMap.Tiling

/-!
# The PStore region belongs to nobody else

The early boot code clears the PStore region, so nothing else may lie in it. The overlay puts the region
in front of the first record that starts behind it, the placement check looks at all records once they
are loaded, and the cursor of the merge never emits a gap across the region: what is listed in front of
it starts below it, however the other records are ordered.
-/

namespace Andromeda

open Fill GapFill

/-- A list with a PStore region in it that passed the placement check against valid, disjoint banks. -/
structure Placed (banks : DdrBanks) (pre : List Descriptor) (p : Descriptor) (post : List Descriptor) : Prop where
  valid : ∀ d ∈ pre ++ p :: post, d.Valid
  named : isPStore p = true
  others : ∀ d ∈ pre ++ post, isPStore d = false ∧ (d.hi ≤ p.lo ∨ p.hi ≤ d.lo)
  before : ∀ d ∈ pre, d.lo ≤ p.lo
  bank : ∃ r ∈ banks.regions, r.lo ≤ p.lo ∧ p.hi ≤ r.hi

/-- What an accepted configuration looks like around the PStore region. -/
theorem Accepted.placed {banks : DdrBanks} {st : BootConfig} {ds : List Descriptor}
    (h : Accepted ⟨true, banks.regions⟩ st ds) :
    ∃ pre p post, ds = pre ++ p :: post ∧ memoryMapConfigLoadPStoreDescriptor st = .ok p ∧
      Placed banks pre p post := by
  obtain ⟨p, ms, rs, hp, rfl, hplace⟩ := h.pStore rfl
  obtain ⟨hpvalid, hname⟩ := memoryMapConfigLoadPStoreDescriptor_ok hp
  obtain ⟨pre, post, hsplit, hbefore⟩ := carve_split p ms
  have hds : carve p ms false ++ rs = pre ++ p :: (post ++ rs) := by
    rw [hsplit, List.append_assoc, List.cons_append]
  have hvalid := h.valid
  rw [hds] at hplace hvalid
  have hnamed : isPStore p = true := by
    rw [isPStore, hname]
    decide
  obtain ⟨hothers, r, hr, hlo, hhi⟩ := memoryMapConfigValidatePStorePlacement_success hnamed hplace
  refine ⟨pre, p, post ++ rs, hds, hp, hvalid, hnamed, fun d hd => ⟨(hothers d hd).1, ?_⟩,
    fun d hd => le_of_lt (UInt64.lt_iff_toNat_lt.1 (hbefore d hd)), r, hr, UInt64.le_iff_toNat_le.1 hlo, ?_⟩
  · have hdv : d.Valid := hvalid d (by
      rcases List.mem_append.1 hd with hd | hd
      · exact List.mem_append_left _ hd
      · exact List.mem_append_right _ (List.mem_cons_of_mem _ hd))
    have hno := (hothers d hd).2
    rw [UInt64.lt_iff_toNat_lt, UInt64.lt_iff_toNat_lt, hpvalid.toNat_end, hdv.toNat_end] at hno
    change d.hi ≤ p.address.toNat ∨ p.hi ≤ d.address.toNat
    omega
  · have hle := UInt64.le_iff_toNat_le.1 hhi
    rw [hpvalid.toNat_end] at hle
    rw [← (banks.valid r hr).top_eq]
    exact hle

theorem isPStore_ramPartition (address length : UInt64) :
    isPStore (ramPartition address length) = false := by
  change (asciiStriCmp (ascii "RAM Partition") pStoreName.bytes == 0) = false
  decide

theorem DdrBanks.nodup (banks : DdrBanks) : banks.regions.Nodup := by
  refine banks.disjoint.imp_of_mem ?_
  rintro r s hr - hdisj rfl
  have := (banks.valid r hr).pos
  omega

section Placed

variable {banks : DdrBanks} {pre post : List Descriptor} {p : Descriptor}

theorem Placed.notMem (h : Placed banks pre p post) : p ∉ pre ∧ p ∉ post := by
  have hno : p ∉ pre ++ post := by
    intro hp
    have := (h.others p hp).1
    rw [h.named] at this
    simp at this
  exact ⟨fun hp => hno (List.mem_append_left _ hp), fun hp => hno (List.mem_append_right _ hp)⟩

/-- The PStore region overlaps the bank it lies in, and no other. -/
theorem Placed.overlaps_iff (h : Placed banks pre p post) {r s : DdrBankRegion} (hr : r ∈ banks.regions)
    (hs : s ∈ banks.regions) (hlo : r.lo ≤ p.lo) (hhi : p.hi ≤ r.hi) :
    descriptorOverlapsRegion p s = true ↔ s = r := by
  have hp := h.valid p (by simp)
  have hpos := (Descriptor.valid_iff.1 hp).1
  rw [descriptorOverlapsRegion_iff hp, (banks.valid s hs).top_eq]
  constructor
  · intro hov
    by_contra hne
    have := banks.disjoint_of_ne hr hs (Ne.symm hne)
    omega
  · rintro rfl
    omega

/-- No gap of the merge touches the PStore region. -/
theorem Placed.gap_clear (h : Placed banks pre p post) {s : DdrBankRegion} (hs : s ∈ banks.regions)
    {a b : Nat} (hgap : Piece.gap a b ∈ regionPieces (pre ++ p :: post) s) : b ≤ p.lo ∨ p.hi ≤ a := by
  obtain ⟨r, hr, hlo, hhi⟩ := h.bank
  by_cases hsr : s = r
  · have hov : descriptorOverlapsRegion p s = true := (h.overlaps_iff hr hs hlo hhi).2 hsr
    have hfilter : (pre ++ p :: post).filter (descriptorOverlapsRegion · s) =
        pre.filter (descriptorOverlapsRegion · s) ++ p :: post.filter (descriptorOverlapsRegion · s) := by
      rw [List.filter_append, List.filter_cons, if_pos hov]
    rw [regionPieces, hfilter] at hgap
    refine (gaps_clear_iff (by simp)).2 (clearsGaps_of_before ?_ ?_) a b hgap
    · exact fun hp => h.notMem.2 (List.mem_filter.1 hp).1
    · exact fun i hi => h.before i (List.mem_filter.1 hi).1
  · -- a gap of another bank
    obtain ⟨h1, -, h2⟩ := gap_in_region h.valid hgap
    rw [(banks.valid s hs).top_eq] at h2
    have := banks.disjoint_of_ne hs hr hsr
    omega

theorem Placed.count_eq_one (h : Placed banks pre p post) :
    (mergedMap banks.regions (pre ++ p :: post)).count p = 1 := by
  obtain ⟨r, hr, hlo, hhi⟩ := h.bank
  have hbanks : banks.regions.countP (descriptorOverlapsRegion p) = 1 := by
    have hcongr : banks.regions.countP (descriptorOverlapsRegion p) = banks.regions.count r := by
      refine List.countP_congr ?_
      intro s hs
      rw [h.overlaps_iff hr hs hlo hhi, beq_iff_eq]
    rw [hcongr, List.count_eq_one_of_mem banks.nodup hr]
  have htwins : twins banks.regions (pre ++ p :: post) p = 0 := by
    rw [twins_eq_zero_iff]
    rintro s - a b - heq
    have := isPStore_ramPartition (.ofNat a) (.ofNat (b - a))
    rw [heq, h.named] at this
    simp at this
  rw [count_mergedMap_eq, htwins, hbanks, List.count_append, List.count_cons_self,
    List.count_eq_zero.2 h.notMem.1,
    List.count_eq_zero.2 h.notMem.2]
  rfl

/-- Every entry of the merged map but the PStore region itself has another name and lies elsewhere. -/
theorem Placed.entry_clear (h : Placed banks pre p post) {e : Descriptor}
    (he : e ∈ mergedMap banks.regions (pre ++ p :: post)) (hne : e ≠ p) :
    isPStore e = false ∧ (e.hi ≤ p.lo ∨ p.hi ≤ e.lo) := by
  obtain ⟨x, hx, rfl⟩ := List.mem_map.1 he
  cases x with
  | seg d =>
    have hd := seg_mem_mergedPieces.1 hx
    refine h.others d ?_
    rw [List.mem_append, List.mem_cons] at hd
    rcases hd with hd | hd | hd
    · exact List.mem_append_left _ hd
    · exact absurd hd hne
    · exact List.mem_append_right _ hd
  | gap a b =>
    obtain ⟨s, hs, hgap⟩ := gap_mem_mergedPieces.1 hx
    obtain ⟨-, hab, hb⟩ := gap_in_region h.valid hgap
    have htop := s.top_lt
    obtain ⟨h1, h2⟩ := ramPartition_span hab (by omega)
    refine ⟨isPStore_ramPartition _ _, ?_⟩
    change (ramPartition (.ofNat a) (.ofNat (b - a))).hi ≤ p.lo ∨
      p.hi ≤ (ramPartition (.ofNat a) (.ofNat (b - a))).lo
    rw [h1, h2]
    exact h.gap_clear hs hgap

end Placed

/-- **The PStore region is exclusive.** With the log in memory, whatever the configuration and however its
records are ordered: when the map is loaded and merged, one entry of it bears the name PStore in any
letter case; it is the configured region, it lies inside one bank, and every other entry has another
name and lies in front of it or behind it. -/
theorem mergeDdrBankRegions_pStore_exclusive (banks : DdrBanks) (st : BootConfig)
    (device workspace merged : List Descriptor) (hdevice : device.length = maxDescriptorCount)
    (hworkspace : workspace.length = maxDescriptorCount) (hmerged : merged.length = maxDescriptorCount)
    (s : Buf Descriptor × List Descriptor) (m : Buf Descriptor)
    (hload : loadPlatformMemoryMap ⟨true, banks.regions⟩ st device workspace = some (.success, s))
    (hmerge : mergeDdrBankRegions s.1.slots banks.regions merged = some (.success, m)) :
    ∃ l₁ p l₂, liveEntries m.slots = l₁ ++ p :: l₂ ∧ isPStore p = true ∧
      memoryMapConfigLoadPStoreDescriptor st = .ok p ∧
      (∃ r ∈ banks.regions, r.lo ≤ p.lo ∧ p.hi ≤ r.hi) ∧
      ∀ e ∈ l₁ ++ l₂, isPStore e = false ∧ (e.hi ≤ p.lo ∨ p.hi ≤ e.lo) := by
  obtain ⟨haccepted, hterm⟩ := loadPlatformMemoryMap_liveEntries hdevice hworkspace hload
  obtain ⟨pre, p, post, hds, hp, hplaced⟩ := haccepted.placed
  rw [hds] at hterm
  obtain ⟨status, m', hm', -, -, hmap⟩ := mergeDdrBankRegions_spec hterm hplaced.valid banks.regions hmerged
  rw [hmerge] at hm'
  simp only [Option.some.injEq, Prod.mk.injEq] at hm'
  obtain ⟨rfl, rfl⟩ := hm'
  rw [liveEntries_of_terminated (hmap rfl).1]
  have hcount := hplaced.count_eq_one
  have hmem : p ∈ mergedMap banks.regions (pre ++ p :: post) := by
    rw [← List.count_pos_iff, hcount]
    exact Nat.one_pos
  obtain ⟨l₁, l₂, hsplit⟩ := List.append_of_mem hmem
  rw [hsplit, List.count_append, List.count_cons_self] at hcount
  refine ⟨l₁, p, l₂, hsplit, hplaced.named, hp, hplaced.bank, ?_⟩
  intro e he
  have hentry : e ∈ mergedMap banks.regions (pre ++ p :: post) := by
    rw [hsplit]
    rcases List.mem_append.1 he with he | he
    · exact List.mem_append_left _ he
    · exact List.mem_append_right _ (List.mem_cons_of_mem _ he)
  refine hplaced.entry_clear hentry ?_
  rintro rfl
  rcases List.mem_append.1 he with he | he
  · have := List.count_pos_iff.2 he
    omega
  · have := List.count_pos_iff.2 he
    omega

/-- The PStore region at the start of a configured one, which is cut. -/
theorem mergeDdrBankRegions_pStore_exclusive_at_start :
    let st : BootConfig := ⟨some (ascii "[AndromedaUefi]\nPStoreAddress=4096\nPStoreSize=16\n[MemoryMap]\n" ++
      ascii "4096,64,a,AddMem,SYS_MEM,TESTED,Conv,DEVICE\n[RegisterMap]\n1,9,b,NoHob,IO,TESTED,Conv,DEVICE"), none⟩
    ∃ s m, loadPlatformMemoryMap ⟨true, [⟨0x800, 0x2000⟩]⟩ st emptySlots emptySlots = some (.success, s) ∧
      mergeDdrBankRegions s.1.slots [⟨0x800, 0x2000⟩] emptySlots = some (.success, m) ∧
      ∃ l₁ p l₂, liveEntries m.slots = l₁ ++ p :: l₂ ∧ isPStore p = true ∧
        ∀ e ∈ l₁ ++ l₂, isPStore e = false := by
  intro st
  let banks : DdrBanks := ⟨[⟨0x800, 0x2000⟩], by
    intro r hr
    obtain rfl := List.mem_singleton.1 hr
    exact ⟨by decide, by decide⟩, by simp⟩
  obtain ⟨s, m, hload, hmerge, -⟩ := steps_of_eval EfiStatus.success
    (loadPlatformMemoryMap ⟨true, banks.regions⟩ st emptySlots emptySlots)
    (fun s => mergeDdrBankRegions s.1.slots banks.regions emptySlots) (fun _ _ => true)
    (by decide +kernel)
  obtain ⟨l₁, p, l₂, hsplit, hnamed, -, -, hothers⟩ := mergeDdrBankRegions_pStore_exclusive banks st emptySlots emptySlots
    emptySlots (by simp [emptySlots]) (by simp [emptySlots]) (by simp [emptySlots]) s m hload hmerge
  exact ⟨s, m, hload, hmerge, l₁, p, l₂, hsplit, hnamed, fun e he => (hothers e he).1⟩

end Andromeda
