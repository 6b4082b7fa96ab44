import AndromedaBoot.MemoryMap.Platform

/-!
# Records in any order

The loader accepts records in any order and reaching over the edge of a bank. Two things the merge
should never do then depend on the records: a RAM partition can be appended over a configured region
(`NoReachBack` says when none is), and a configured region can be appended more than once (for every bank
it overlaps, or when a RAM partition looks just like it).
-/

namespace Andromeda

open Fill GapFill

/-! ## RAM partitions over configured regions -/

/-- An entry of the merged map, with the call that appended it. -/
inductive Origin
  | ramPartition (base length : UInt64)
  | descriptor (d : Descriptor)
  | terminator
deriving DecidableEq, Repr

/-- The merge with entries that remember which call appended them. -/
def originKind : EntryKind Origin := ⟨.ramPartition, .descriptor, .terminator⟩

/-- The entry as `gMergedMemoryDescriptorEx` has it. -/
def Origin.toDescriptor : Origin → Descriptor
  | .ramPartition base length => Andromeda.ramPartition base length
  | .descriptor d => d
  | .terminator => memoryMapTerminator

theorem toDescriptor_entry (p : Piece Descriptor Nat) :
    (originKind.entry p).toDescriptor = descriptorKind.entry p := by
  cases p <;> rfl

theorem map_overwrite {α β : Type} (f : α → β) (slots : List α) (i : Nat) (ys : List α) :
    (overwrite slots i ys).map f = overwrite (slots.map f) i (ys.map f) := by
  simp [overwrite]

/-- In each bank: when a record starts behind everything listed before it, what is listed after it starts
no lower, or ends within what was listed before. -/
def NoReachBack (banks : List DdrBankRegion) (ds : List Descriptor) : Prop :=
  ∀ r ∈ banks, ∀ d ∈ ds.filter (descriptorOverlapsRegion · r),
    ClearsGaps Descriptor.lo Descriptor.hi r.lo (ds.filter (descriptorOverlapsRegion · r)) d

section Unordered

variable {ds : List Descriptor} {banks : List DdrBankRegion}

/-- **No gap overlaps a configured region** exactly when no record reaches back. -/
theorem mergedPieces_clear_iff (hvalid : ∀ d ∈ ds, d.Valid) :
    (∀ a b, Piece.gap a b ∈ mergedPieces banks ds → ∀ d ∈ ds, b ≤ d.lo ∨ d.hi ≤ a) ↔
      NoReachBack banks ds := by
  constructor
  · intro h r hr d hd
    have hclear : ∀ a b, Piece.gap a b ∈ regionPieces ds r → b ≤ d.lo ∨ d.hi ≤ a := fun a b hgap =>
      h a b (gap_mem_mergedPieces.2 ⟨r, hr, hgap⟩) d (List.mem_filter.1 hd).1
    exact (gaps_clear_iff hd).1 hclear
  · intro h a b hgap d hd
    obtain ⟨r, hr, hgap⟩ := gap_mem_mergedPieces.1 hgap
    by_cases hov : descriptorOverlapsRegion d r = true
    · have hmem : d ∈ ds.filter (descriptorOverlapsRegion · r) := List.mem_filter.2 ⟨hd, hov⟩
      exact (gaps_clear_iff hmem).2 (h r hr d hmem) a b hgap
    · rw [descriptorOverlapsRegion_iff (hvalid d hd)] at hov
      have := gap_in_region hvalid hgap
      omega

/-- The RAM partitions of the merge are the gaps of the walks. -/
theorem ramPartition_mem_entries {base length : UInt64} :
    Origin.ramPartition base length ∈ (mergedPieces banks ds).map originKind.entry ↔
      ∃ a b, Piece.gap a b ∈ mergedPieces banks ds ∧ base = .ofNat a ∧ length = .ofNat (b - a) := by
  rw [List.mem_map]
  constructor
  · rintro ⟨p, hp, heq⟩
    cases p with
    | gap a b =>
      obtain ⟨rfl, rfl⟩ := Origin.ramPartition.inj heq
      exact ⟨a, b, hp, rfl, rfl⟩
    | seg d => exact absurd heq (by simp [EntryKind.entry, originKind])
  · rintro ⟨a, b, hp, rfl, rfl⟩
    exact ⟨_, hp, rfl⟩

/-- The region of a RAM partition that was appended. -/
theorem ramPartition_entry_span (hvalid : ∀ d ∈ ds, d.Valid) {a b : Nat}
    (h : Piece.gap a b ∈ mergedPieces banks ds) :
    (ramPartition (.ofNat a) (.ofNat (b - a))).lo = a ∧
      (ramPartition (.ofNat a) (.ofNat (b - a))).hi = b := by
  obtain ⟨r, -, hgap⟩ := gap_mem_mergedPieces.1 h
  obtain ⟨-, hab, hb⟩ := gap_in_region hvalid hgap
  have := r.top_lt
  exact ramPartition_span hab (by omega)

theorem entries_clear_iff (hvalid : ∀ d ∈ ds, d.Valid) :
    (∀ base length, Origin.ramPartition base length ∈ (mergedPieces banks ds).map originKind.entry → ∀ d ∈ ds,
      (ramPartition base length).hi ≤ d.lo ∨ d.hi ≤ (ramPartition base length).lo) ↔
        NoReachBack banks ds := by
  rw [← mergedPieces_clear_iff hvalid]
  constructor
  · intro h a b hgap d hd
    have := h _ _ (ramPartition_mem_entries.2 ⟨a, b, hgap, rfl, rfl⟩) d hd
    obtain ⟨h1, h2⟩ := ramPartition_entry_span hvalid hgap
    rwa [h1, h2] at this
  · intro h base length hmem d hd
    obtain ⟨a, b, hgap, rfl, rfl⟩ := ramPartition_mem_entries.1 hmem
    obtain ⟨h1, h2⟩ := ramPartition_entry_span hvalid hgap
    rw [h1, h2]
    exact h a b hgap d hd

/-- The merge with origins is the merge, entry by entry; what it has appended at its end are the entries
of the walks, or the first of them when they do not fit. -/
theorem mergeDdrBankRegionsWith_origin {device : List Descriptor} (hdevice : Terminated device ds)
    (hvalid : ∀ d ∈ ds, d.Valid) (banks : List DdrBankRegion) {merged : List Origin}
    (hlen : merged.length = maxDescriptorCount) :
    ∃ status m, mergeDdrBankRegionsWith originKind device banks merged = some (status, m) ∧
      mergeDdrBankRegions device banks (merged.map Origin.toDescriptor) =
        some (status, ⟨m.slots.map Origin.toDescriptor, m.count⟩) ∧
      (∀ e ∈ m.slots.take m.count, e ∈ (mergedPieces banks ds).map originKind.entry) ∧
      (status = .success → m.slots.take m.count = (mergedPieces banks ds).map originKind.entry) := by
  have hspec := mergeDdrBankRegionsWith_spec originKind hdevice hvalid banks hlen
  have hspec' := mergeDdrBankRegionsWith_spec descriptorKind hdevice hvalid banks
    (show (merged.map Origin.toDescriptor).length = maxDescriptorCount by rw [List.length_map, hlen])
  have hentries : (mergedPieces banks ds).map descriptorKind.entry =
      ((mergedPieces banks ds).map originKind.entry).map Origin.toDescriptor := by
    rw [List.map_map]
    exact List.map_congr_left fun p _ => (toDescriptor_entry p).symm
  rw [hentries] at hspec'
  generalize (mergedPieces banks ds).map originKind.entry = entries at hspec hspec' ⊢
  simp only [List.length_map] at hspec'
  have hmax : maxDescriptorCount = 128 := rfl
  by_cases hfit : entries.length ≤ maxDescriptorCount - 1
  · rw [if_pos hfit] at hspec hspec'
    have htake : (overwrite merged 0 (entries ++ [originKind.terminator])).take entries.length = entries := by
      simp [overwrite]
    refine ⟨_, _, hspec, ?_, fun e he => by rwa [htake] at he, fun _ => htake⟩
    rw [mergeDdrBankRegions, hspec', map_overwrite, List.map_append]
    rfl
  · rw [if_neg hfit] at hspec hspec'
    refine ⟨_, _, hspec, ?_, ?_, fun h => by simp at h⟩
    · rw [mergeDdrBankRegions, hspec', map_overwrite, List.map_take]
    · intro e he
      have htake : (overwrite merged 0 (entries.take (maxDescriptorCount - 1))).take (maxDescriptorCount - 1) =
          entries.take (maxDescriptorCount - 1) := by
        rw [overwrite, List.take_zero, List.nil_append,
          List.take_append_of_le_length (by rw [List.length_take]; omega),
          List.take_of_length_le (by rw [List.length_take]; omega)]
      simp only [htake] at he
      exact List.mem_of_mem_take he

end Unordered

/-- **When RAM is handed out over a configured region.** For every configuration that is loaded and all
banks: run with origins, the merge does what it does; if no record reaches back, no RAM partition it
appends overlaps a configured region; and when it succeeds, that is the only case. -/
theorem mergeDdrBankRegions_clear_iff (platform : Platform) (st : BootConfig)
    (device workspace : List Descriptor) (hdevice : device.length = maxDescriptorCount)
    (hworkspace : workspace.length = maxDescriptorCount) (s : Buf Descriptor × List Descriptor)
    (hload : loadPlatformMemoryMap platform st device workspace = some (.success, s))
    (merged : List Origin) (hmerged : merged.length = maxDescriptorCount) :
    let ds := liveEntries s.1.slots
    let banks := platform.ddrBankRegions
    ∃ status m, mergeDdrBankRegionsWith originKind s.1.slots banks merged = some (status, m) ∧
      mergeDdrBankRegions s.1.slots banks (merged.map Origin.toDescriptor) =
        some (status, ⟨m.slots.map Origin.toDescriptor, m.count⟩) ∧
      (NoReachBack banks ds → ∀ base length, Origin.ramPartition base length ∈ m.slots.take m.count → ∀ d ∈ ds,
        (ramPartition base length).hi ≤ d.lo ∨ d.hi ≤ (ramPartition base length).lo) ∧
      (status = .success →
        ((∀ base length, Origin.ramPartition base length ∈ m.slots.take m.count → ∀ d ∈ ds,
          (ramPartition base length).hi ≤ d.lo ∨ d.hi ≤ (ramPartition base length).lo) ↔
            NoReachBack banks ds)) := by
  intro ds banks
  obtain ⟨haccepted, hterm⟩ := loadPlatformMemoryMap_liveEntries hdevice hworkspace hload
  obtain ⟨status, m, h1, h2, hsub, hall⟩ := mergeDdrBankRegionsWith_origin hterm haccepted.valid banks hmerged
  refine ⟨status, m, h1, h2, ?_, ?_⟩
  · intro hno base length hmem
    exact (entries_clear_iff haccepted.valid).2 hno base length (hsub _ hmem)
  · intro hok
    rw [hall hok]
    exact entries_clear_iff haccepted.valid

/-- Two records in the order of their addresses, with a hole between them. -/
theorem mergeDdrBankRegions_clear_in_order :
    let st : BootConfig := ⟨some (ascii "[MemoryMap]\n0x1000,256,a,AddMem,SYS_MEM,TESTED,Conv,DEVICE\n" ++
      ascii "0x3000,256,b,AddMem,SYS_MEM,TESTED,Conv,DEVICE\n[RegisterMap]\n1,9,c,NoHob,IO,TESTED,Conv,DEVICE"), none⟩
    let platform : Platform := ⟨false, [⟨0x800, 0x4000⟩]⟩
    ∃ s m, loadPlatformMemoryMap platform st emptySlots emptySlots = some (.success, s) ∧
      mergeDdrBankRegionsWith originKind s.1.slots platform.ddrBankRegions
        (List.replicate maxDescriptorCount .terminator) = some (.success, m) ∧
      NoReachBack platform.ddrBankRegions (liveEntries s.1.slots) := by
  intro st platform
  obtain ⟨s, m, hload, hmerge, hclear⟩ := steps_of_eval EfiStatus.success
    (loadPlatformMemoryMap platform st emptySlots emptySlots)
    (fun s => mergeDdrBankRegionsWith originKind s.1.slots platform.ddrBankRegions
      (List.replicate maxDescriptorCount .terminator))
    (fun s m => (m.slots.take m.count).all fun
      | .ramPartition base length => (liveEntries s.1.slots).all fun d =>
        (ramPartition base length).hi ≤ d.lo ∨ d.hi ≤ (ramPartition base length).lo
      | _ => true) (by decide +kernel)
  obtain ⟨status, m', hmerge', -, -, hiff⟩ := mergeDdrBankRegions_clear_iff platform st emptySlots emptySlots
    (by simp [emptySlots]) (by simp [emptySlots]) s hload (List.replicate maxDescriptorCount .terminator) (by simp)
  rw [hmerge] at hmerge'
  simp only [Option.some.injEq, Prod.mk.injEq] at hmerge'
  obtain ⟨rfl, rfl⟩ := hmerge'
  refine ⟨s, m, hload, hmerge, (hiff rfl).1 ?_⟩
  intro base length hmem d hd
  have hentry := List.all_eq_true.1 hclear _ hmem
  simpa using List.all_eq_true.1 hentry d hd

/-- A record listed behind one with a higher address: the RAM partition in front of the latter covers
it. -/
theorem mergeDdrBankRegions_covers_unordered_record :
    let st : BootConfig := ⟨some (ascii "[MemoryMap]\n0x3000,256,a,AddMem,SYS_MEM,TESTED,Conv,DEVICE\n" ++
      ascii "0x1000,256,b,AddMem,SYS_MEM,TESTED,Conv,DEVICE\n[RegisterMap]\n1,9,c,NoHob,IO,TESTED,Conv,DEVICE"), none⟩
    let platform : Platform := ⟨false, [⟨0x800, 0x4000⟩]⟩
    ∃ s m, loadPlatformMemoryMap platform st emptySlots emptySlots = some (.success, s) ∧
      mergeDdrBankRegionsWith originKind s.1.slots platform.ddrBankRegions
        (List.replicate maxDescriptorCount .terminator) = some (.success, m) ∧
      ¬ ∀ base length, Origin.ramPartition base length ∈ m.slots.take m.count →
        ∀ d ∈ liveEntries s.1.slots,
        (ramPartition base length).hi ≤ d.lo ∨ d.hi ≤ (ramPartition base length).lo := by
  intro st platform
  obtain ⟨s, m, hload, hmerge, htest⟩ := steps_of_eval EfiStatus.success
    (loadPlatformMemoryMap platform st emptySlots emptySlots)
    (fun s => mergeDdrBankRegionsWith originKind s.1.slots platform.ddrBankRegions
      (List.replicate maxDescriptorCount .terminator))
    (fun s m => (m.slots.take m.count).contains (.ramPartition 0x800 0x2800) &&
      (liveEntries s.1.slots).any fun d => d.address == 0x1000 && d.length == 256) (by decide +kernel)
  obtain ⟨hram, hd⟩ := Bool.and_eq_true_iff.1 htest
  refine ⟨s, m, hload, hmerge, ?_⟩
  intro hclear
  obtain ⟨d, hmem, hd⟩ := List.any_eq_true.1 hd
  simp only [Bool.and_eq_true, beq_iff_eq] at hd
  have hdisj := hclear 0x800 0x2800 (by simpa using hram) d hmem
  rw [Descriptor.hi, Descriptor.lo, Descriptor.hi, Descriptor.lo, hd.1, hd.2] at hdisj
  exact absurd hdisj (by decide)

/-! ## How often a configured region is appended -/

/-- In each bank: the descriptor is not what a RAM partition in front of a record listed before it looks
like. -/
def NoTwin (banks : List DdrBankRegion) (ds : List Descriptor) (d : Descriptor) : Prop :=
  ∀ r ∈ banks, ∀ pre i post, ds.filter (descriptorOverlapsRegion · r) = pre ++ i :: post → d ∈ post →
    cursor Descriptor.hi r.lo pre < i.lo →
    ramPartition (.ofNat (cursor Descriptor.hi r.lo pre)) (.ofNat (i.lo - cursor Descriptor.hi r.lo pre)) ≠ d

section Count

variable {ds : List Descriptor} {banks : List DdrBankRegion}

theorem twins_eq_zero_iff_noTwin (hvalid : ∀ d ∈ ds, d.Valid) {d : Descriptor} (hd : d ∈ ds) :
    twins banks ds d = 0 ↔ NoTwin banks ds d := by
  rw [twins_eq_zero_iff]
  constructor
  · intro h r hr pre i post heq _ hlt
    exact h r hr _ _ (gap_mem_pieces.2 (.inl ⟨pre, i, post, heq, rfl, rfl, hlt⟩))
  · intro h r hr a b hgap heq
    -- the descriptor lies in the gap, so it is listed behind it
    obtain ⟨hlo, hhi, hov⟩ := overlaps_of_twin hvalid (hvalid d hd) hgap heq
    have hmem : d ∈ ds.filter (descriptorOverlapsRegion · r) := List.mem_filter.2 ⟨hd, hov⟩
    rcases gap_mem_pieces.1 hgap with ⟨pre, i, post, hsplit, rfl, rfl, hlt⟩ | ⟨rfl, rfl, hlt⟩
    · rw [hsplit, List.mem_append, List.mem_cons] at hmem
      rcases hmem with hmem | rfl | hmem
      · have : d.hi ≤ cursor Descriptor.hi r.lo pre := hi_le_cursor hmem
        omega
      · omega
      · exact h r hr pre i post hsplit hmem hlt heq
    · have : d.hi ≤ cursor Descriptor.hi r.lo (ds.filter (descriptorOverlapsRegion · r)) := hi_le_cursor hmem
      omega

theorem count_mergedMap_eq_iff (hvalid : ∀ d ∈ ds, d.Valid) {d : Descriptor} (hd : d ∈ ds) :
    (mergedMap banks ds).count d = ds.count d ↔
      banks.countP (descriptorOverlapsRegion d) ≤ 1 ∧ NoTwin banks ds d := by
  rw [count_mergedMap_eq, ← twins_eq_zero_iff_noTwin hvalid hd]
  have hpos := List.count_pos_iff.2 hd
  by_cases hone : banks.countP (descriptorOverlapsRegion d) ≤ 1
  · rw [Nat.max_eq_right hone]
    omega
  · have hmul := Nat.mul_le_mul_right (ds.count d) (show 2 ≤ max (banks.countP (descriptorOverlapsRegion d)) 1 by omega)
    omega

end Count

/-- **When every configured region is appended as often as it is configured.** For every configuration
that is loaded and all banks it is merged with: exactly when no configured region overlaps two banks and
none looks like a RAM partition in front of a record listed before it. -/
theorem mergeDdrBankRegions_count_iff (platform : Platform) (st : BootConfig)
    (device workspace merged : List Descriptor) (hdevice : device.length = maxDescriptorCount)
    (hworkspace : workspace.length = maxDescriptorCount) (hmerged : merged.length = maxDescriptorCount)
    (s : Buf Descriptor × List Descriptor) (m : Buf Descriptor)
    (hload : loadPlatformMemoryMap platform st device workspace = some (.success, s))
    (hmerge : mergeDdrBankRegions s.1.slots platform.ddrBankRegions merged = some (.success, m)) :
    let ds := liveEntries s.1.slots
    let banks := platform.ddrBankRegions
    (∀ d ∈ ds, (liveEntries m.slots).count d = ds.count d) ↔
      ∀ d ∈ ds, banks.countP (descriptorOverlapsRegion d) ≤ 1 ∧ NoTwin banks ds d := by
  intro ds banks
  obtain ⟨haccepted, hterm⟩ := loadPlatformMemoryMap_liveEntries hdevice hworkspace hload
  obtain ⟨status, m', hm', -, -, hmap⟩ := mergeDdrBankRegions_spec hterm haccepted.valid banks hmerged
  rw [hmerge] at hm'
  simp only [Option.some.injEq, Prod.mk.injEq] at hm'
  obtain ⟨rfl, rfl⟩ := hm'
  rw [liveEntries_of_terminated (hmap rfl).1]
  constructor
  · exact fun h d hd => (count_mergedMap_eq_iff haccepted.valid hd).1 (h d hd)
  · exact fun h d hd => (count_mergedMap_eq_iff haccepted.valid hd).2 (h d hd)

/-- One record in the first bank of SM8150 and one outside the banks. -/
theorem mergeDdrBankRegions_count_in_bank :
    let st : BootConfig := ⟨some (ascii "[MemoryMap]\n0x80001000,256,a,AddMem,SYS_MEM,TESTED,Conv,DEVICE\n" ++
      ascii "[RegisterMap]\n1,9,c,NoHob,IO,TESTED,Conv,DEVICE"), none⟩
    ∃ s m, loadPlatformMemoryMap ⟨false, sm8150DdrBankRegions⟩ st emptySlots emptySlots = some (.success, s) ∧
      mergeDdrBankRegions s.1.slots sm8150DdrBankRegions emptySlots = some (.success, m) ∧
      ∀ d ∈ liveEntries s.1.slots, NoTwin sm8150DdrBankRegions (liveEntries s.1.slots) d := by
  intro st
  obtain ⟨s, m, hload, hmerge, hcount⟩ := steps_of_eval EfiStatus.success
    (loadPlatformMemoryMap ⟨false, sm8150DdrBankRegions⟩ st emptySlots emptySlots)
    (fun s => mergeDdrBankRegions s.1.slots sm8150DdrBankRegions emptySlots)
    (fun s m => (liveEntries s.1.slots).all fun d =>
      (liveEntries m.slots).count d == (liveEntries s.1.slots).count d) (by decide +kernel)
  have hiff := mergeDdrBankRegions_count_iff ⟨false, sm8150DdrBankRegions⟩ st emptySlots emptySlots emptySlots
    (by simp [emptySlots]) (by simp [emptySlots]) (by simp [emptySlots]) s m hload hmerge
  exact ⟨s, m, hload, hmerge, fun d hd => (hiff.1 (by simpa using hcount) d hd).2⟩

/-- A record across the boundary of the adjacent banks 1 and 2 of SM8150 is appended twice. -/
theorem mergeDdrBankRegions_repeats_straddling_record :
    let st : BootConfig := ⟨some (ascii "[MemoryMap]\n0x13FFFF000,0x2000,a,AddMem,SYS_MEM,TESTED,Conv,DEVICE\n" ++
      ascii "[RegisterMap]\n1,9,c,NoHob,IO,TESTED,Conv,DEVICE"), none⟩
    ∃ s m, loadPlatformMemoryMap ⟨false, sm8150DdrBankRegions⟩ st emptySlots emptySlots = some (.success, s) ∧
      mergeDdrBankRegions s.1.slots sm8150DdrBankRegions emptySlots = some (.success, m) ∧
      ∃ d ∈ liveEntries s.1.slots, (liveEntries s.1.slots).count d = 1 ∧
        (liveEntries m.slots).count d = 2 := by
  intro st
  obtain ⟨s, m, hload, hmerge, hcount⟩ := steps_of_eval EfiStatus.success
    (loadPlatformMemoryMap ⟨false, sm8150DdrBankRegions⟩ st emptySlots emptySlots)
    (fun s => mergeDdrBankRegions s.1.slots sm8150DdrBankRegions emptySlots)
    (fun s m => (liveEntries s.1.slots).any fun d =>
      (liveEntries s.1.slots).count d == 1 && (liveEntries m.slots).count d == 2) (by decide +kernel)
  obtain ⟨d, hmem, hd⟩ := List.any_eq_true.1 hcount
  exact ⟨s, m, hload, hmerge, d, hmem, by simpa using hd⟩

end Andromeda
