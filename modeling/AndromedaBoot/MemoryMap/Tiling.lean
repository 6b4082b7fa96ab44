import Mathlib.Data.List.Pairwise
import AndromedaBoot.MemoryMap.Merge

/-!
# The merged map tiles the DDR banks

For a sorted list of disjoint descriptors, none of which reaches into two banks, every address of a bank
is covered by exactly one entry of the merged map: the configured descriptor there, or a RAM partition
inside the bank. No configured descriptor is lost or repeated.
-/

namespace Andromeda

open Fill GapFill

/-- The banks of a platform: not empty, not wrapping, and disjoint. -/
structure DdrBanks where
  regions : List DdrBankRegion
  valid : ∀ r ∈ regions, r.Valid
  disjoint : regions.Pairwise fun r s => r.hi ≤ s.lo ∨ s.hi ≤ r.lo

theorem DdrBanks.disjoint_of_ne (banks : DdrBanks) {r s : DdrBankRegion} (hr : r ∈ banks.regions)
    (hs : s ∈ banks.regions) (hne : r ≠ s) : r.hi ≤ s.lo ∨ s.hi ≤ r.lo :=
  have : Std.Symm (fun r s : DdrBankRegion => r.hi ≤ s.lo ∨ s.hi ≤ r.lo) := ⟨fun _ _ h => h.symm⟩
  banks.disjoint.forall hr hs hne

variable {ds : List Descriptor}

/-- Entries cover what their pieces cover. -/
theorem covers_entry {banks : List DdrBankRegion} (hvalid : ∀ d ∈ ds, d.Valid)
    {p : Piece Descriptor Nat} (hp : p ∈ mergedPieces banks ds) (a : Nat) :
    (descriptorKind.entry p).Covers a ↔ p.Covers Descriptor.lo Descriptor.hi a := by
  cases p with
  | seg d => rfl
  | gap x y =>
    obtain ⟨r, -, hr⟩ := gap_mem_mergedPieces.1 hp
    obtain ⟨-, hxy, hy⟩ := gap_in_region hvalid hr
    have htop := r.top_lt
    obtain ⟨h1, h2⟩ := ramPartition_span hxy (by omega)
    change (ramPartition (.ofNat x) (.ofNat (y - x))).lo ≤ a ∧
      a < (ramPartition (.ofNat x) (.ofNat (y - x))).hi ↔ _
    rw [h1, h2, Piece.covers_gap]

theorem countP_covers_mergedMap {banks : List DdrBankRegion} (hvalid : ∀ d ∈ ds, d.Valid) (a : Nat) :
    (mergedMap banks ds).countP (·.Covers a) =
      (mergedPieces banks ds).countP fun p => p.Covers Descriptor.lo Descriptor.hi a := by
  rw [mergedMap, List.countP_map]
  apply List.countP_congr
  intro p hp
  simpa using covers_entry hvalid hp a

/-- Nothing appended for another bank covers an address of this one. -/
theorem countP_covers_other {a : Nat} {r s : DdrBankRegion} (hvalid : ∀ d ∈ ds, d.Valid) (hr : r.Valid)
    (hs : s.Valid) (hdisj : r.hi ≤ s.lo ∨ s.hi ≤ r.lo) (ha : r.lo ≤ a ∧ a < r.hi)
    (hone : ∀ d ∈ ds, descriptorOverlapsRegion d s = true → descriptorOverlapsRegion d r = false) :
    (regionPieces ds s).countP (fun p => p.Covers Descriptor.lo Descriptor.hi a) = 0 := by
  rw [List.countP_eq_zero]
  intro p hp
  rw [decide_eq_true_eq]
  cases p with
  | gap x y =>
    obtain ⟨h1, -, h2⟩ := gap_in_region hvalid hp
    rw [hs.top_eq] at h2
    rw [Piece.covers_gap]
    omega
  | seg d =>
    obtain ⟨hd, hov⟩ := List.mem_filter.1 (seg_mem_pieces.1 hp)
    have hnot := hone d hd hov
    rw [← Bool.not_eq_true, descriptorOverlapsRegion_iff (hvalid d hd), hr.top_eq] at hnot
    rw [Piece.covers_seg]
    omega

/-- Nothing outside the banks covers an address of a bank. -/
theorem countP_covers_outside {a : Nat} {banks : List DdrBankRegion} {r : DdrBankRegion}
    (hvalid : ∀ d ∈ ds, d.Valid) (hr : r.Valid) (hmem : r ∈ banks) (ha : r.lo ≤ a ∧ a < r.hi) :
    ((outsideBanks banks ds).map Piece.seg).countP (fun p => p.Covers Descriptor.lo Descriptor.hi a) = 0 := by
  rw [List.countP_eq_zero]
  intro p hp
  obtain ⟨d, hd, rfl⟩ := List.mem_map.1 hp
  obtain ⟨hd, hnone⟩ := List.mem_filter.1 hd
  have hnot : ¬ descriptorOverlapsRegion d r = true := by
    intro hov
    have : banks.any (descriptorOverlapsRegion d) = true := List.any_eq_true.2 ⟨r, hmem, hov⟩
    simp [this] at hnone
  rw [descriptorOverlapsRegion_iff (hvalid d hd), hr.top_eq] at hnot
  rw [decide_eq_true_eq, Piece.covers_seg]
  omega

/-- The walk over one bank tiles it. -/
theorem countP_covers_region {a : Nat} {r : DdrBankRegion} (hvalid : ∀ d ∈ ds, d.Valid)
    (hsorted : ds.Pairwise fun d e => d.hi ≤ e.lo) (hr : r.Valid) (ha : r.lo ≤ a ∧ a < r.hi) :
    (regionPieces ds r).countP (fun p => p.Covers Descriptor.lo Descriptor.hi a) = 1 := by
  refine countP_covers_pieces _ _ (hsorted.filter _) ?_ ha.1 (by rw [hr.top_eq]; exact ha.2)
  intro d hd
  obtain ⟨h1, h2⟩ := List.mem_filter.1 hd
  exact ⟨(Descriptor.valid_iff.1 (hvalid d h1)).1,
    ((descriptorOverlapsRegion_iff (hvalid d h1)).1 h2).2⟩

/-- Two descriptors of the list are the same where only one may satisfy the predicate. -/
theorem eq_of_countP_eq_one {α : Type} {p : α → Bool} :
    ∀ {l : List α}, l.countP p = 1 → ∀ {x y : α}, x ∈ l → y ∈ l →
    p x = true → p y = true → x = y := by
  intro l h x y hx hy hpx hpy
  rw [List.countP_eq_length_filter, List.length_eq_one_iff] at h
  obtain ⟨z, hz⟩ := h
  have h1 : x ∈ l.filter p := List.mem_filter.2 ⟨hx, hpx⟩
  have h2 : y ∈ l.filter p := List.mem_filter.2 ⟨hy, hpy⟩
  rw [hz, List.mem_singleton] at h1 h2
  rw [h1, h2]

section Tiling

variable (hvalid : ∀ d ∈ ds, d.Valid) (hsorted : ds.Pairwise fun d e => d.hi ≤ e.lo) (banks : DdrBanks)
  (hone : ∀ d ∈ ds, (banks.regions.filter (descriptorOverlapsRegion d)).length ≤ 1)

include hvalid hsorted hone

/-- **Exactly one entry covers an address of a bank.** -/
theorem countP_covers_bank {r : DdrBankRegion} (hr : r ∈ banks.regions) {a : Nat}
    (ha : r.lo ≤ a ∧ a < r.hi) :
    (mergedMap banks.regions ds).countP (·.Covers a) = 1 := by
  rw [countP_covers_mergedMap hvalid, mergedPieces, List.countP_append,
    countP_covers_outside hvalid (banks.valid r hr) hr ha]
  obtain ⟨pre, post, hsplit⟩ := List.append_of_mem hr
  have hdisj := banks.disjoint
  rw [hsplit] at hdisj
  obtain ⟨-, hpost, hpre⟩ := List.pairwise_append.1 hdisj
  rw [List.pairwise_cons] at hpost
  have hboth : ∀ d ∈ ds, ∀ s ∈ pre ++ post, descriptorOverlapsRegion d s = true →
      descriptorOverlapsRegion d r = false := by
    intro d hd s hs hov
    by_contra hr'
    have hlen := hone d hd
    rw [hsplit, List.filter_append, List.filter_cons, if_pos (by simpa using hr'), List.length_append,
      List.length_cons] at hlen
    have hpos : 0 < ((pre ++ post).filter (descriptorOverlapsRegion d)).length :=
      List.length_pos_of_mem (List.mem_filter.2 ⟨hs, hov⟩)
    rw [List.filter_append, List.length_append] at hpos
    omega
  have hzero : ∀ s ∈ pre ++ post, (regionPieces ds s).countP
      (fun p => p.Covers Descriptor.lo Descriptor.hi a) = 0 := by
    intro s hs
    have hsb : s ∈ banks.regions := by
      rw [hsplit]
      rcases List.mem_append.1 hs with hs | hs <;> simp [hs]
    have hrs : r.hi ≤ s.lo ∨ s.hi ≤ r.lo := by
      rcases List.mem_append.1 hs with hs | hs
      · exact (hpre s hs r (by simp)).symm
      · exact hpost.1 s hs
    exact countP_covers_other hvalid (banks.valid r hr) (banks.valid s hsb) hrs ha fun d hd hov => hboth d hd s hs hov
  have hflat : ∀ l : List DdrBankRegion, (∀ s ∈ l, s ∈ pre ++ post) → (l.flatMap (regionPieces ds)).countP
      (fun p => p.Covers Descriptor.lo Descriptor.hi a) = 0 := by
    intro l hl
    rw [List.countP_eq_zero]
    intro p hp
    obtain ⟨s, hs, hp⟩ := List.mem_flatMap.1 hp
    exact List.countP_eq_zero.1 (hzero s (hl s hs)) p hp
  rw [hsplit, List.flatMap_append, List.flatMap_cons, List.countP_append, List.countP_append,
    hflat pre (fun s hs => by simp [hs]), hflat post (fun s hs => by simp [hs]),
    countP_covers_region hvalid hsorted (banks.valid r hr) ha]

/-- The entry at an address is the configured descriptor there, or a RAM partition inside the bank. -/
theorem entry_at {r : DdrBankRegion} (hr : r ∈ banks.regions) {a : Nat} (ha : r.lo ≤ a ∧ a < r.hi)
    {e : Descriptor} (he : e ∈ mergedMap banks.regions ds) (hcov : e.Covers a) :
    (∀ d ∈ ds, d.Covers a → e = d) ∧
      ((∀ d ∈ ds, ¬ d.Covers a) → (∃ base length, e = ramPartition base length) ∧ r.lo ≤ e.lo ∧ e.hi ≤ r.hi) := by
  have hcount := countP_covers_bank hvalid hsorted banks hone hr ha
  constructor
  · intro d hd hda
    have hmem : d ∈ mergedMap banks.regions ds := List.mem_map.2 ⟨.seg d, seg_mem_mergedPieces.2 hd, rfl⟩
    exact eq_of_countP_eq_one hcount he hmem (by simpa using hcov) (by simpa using hda)
  · intro hnone
    obtain ⟨p, hp, rfl⟩ := List.mem_map.1 he
    cases p with
    | seg d => exact absurd hcov (hnone d (seg_mem_mergedPieces.1 hp))
    | gap x y =>
      obtain ⟨s, hs, hgap⟩ := gap_mem_mergedPieces.1 hp
      obtain ⟨h1, hxy, h2⟩ := gap_in_region hvalid hgap
      rw [(banks.valid s hs).top_eq] at h2
      have hnw := (banks.valid s hs).noWrap
      obtain ⟨h3, h4⟩ := ramPartition_span hxy (by omega)
      rw [covers_entry hvalid hp, Piece.covers_gap] at hcov
      -- the gap covers an address of this bank, so its own bank is this one
      obtain rfl : s = r := by
        by_contra hne
        have hdis := banks.disjoint_of_ne hs hr hne
        omega
      refine ⟨⟨_, _, rfl⟩, ?_, ?_⟩
      · exact h3.symm ▸ h1
      · exact h4.symm ▸ h2

/-- No configured descriptor is lost or repeated. -/
theorem count_mergedMap {d : Descriptor} (hd : d ∈ ds) : (mergedMap banks.regions ds).count d = 1 := by
  have hmem : d ∈ mergedMap banks.regions ds := List.mem_map.2 ⟨.seg d, seg_mem_mergedPieces.2 hd, rfl⟩
  have hge : 0 < (mergedMap banks.regions ds).count d := List.count_pos_iff.2 hmem
  have hdv := Descriptor.valid_iff.1 (hvalid d hd)
  by_cases hov : banks.regions.any (descriptorOverlapsRegion d) = true
  · -- an address of the descriptor in a bank is covered once
    obtain ⟨r, hr, hov⟩ := List.any_eq_true.1 hov
    rw [descriptorOverlapsRegion_iff (hvalid d hd), (banks.valid r hr).top_eq] at hov
    have hpos := (banks.valid r hr).pos
    have ha : r.lo ≤ max d.lo r.lo ∧ max d.lo r.lo < r.hi := by omega
    have hcov : d.Covers (max d.lo r.lo) := by
      constructor <;> omega
    have hle : (mergedMap banks.regions ds).count d ≤ (mergedMap banks.regions ds).countP (·.Covers (max d.lo r.lo)) := by
      apply List.countP_mono_left
      intro e _ he
      obtain rfl : e = d := by simpa using he
      simpa using hcov
    rw [countP_covers_bank hvalid hsorted banks hone hr ha] at hle
    omega
  · -- outside the banks it is appended by the last loop alone
    have hnone : ∀ r ∈ banks.regions, ¬ descriptorOverlapsRegion d r = true := fun r hr h =>
      hov (List.any_eq_true.2 ⟨r, hr, h⟩)
    have htwins : twins banks.regions ds d = 0 := twins_eq_zero_iff.2 fun r hr a b hgap heq =>
      hnone r hr (overlaps_of_twin hvalid (hvalid d hd) hgap heq).2.2
    have hnodup : ds.Nodup := by
      refine List.Pairwise.imp_of_mem ?_ hsorted
      rintro e _ he - hlt rfl
      have := (Descriptor.valid_iff.1 (hvalid e he)).1
      omega
    rw [count_mergedMap_eq, htwins, List.countP_eq_zero.2 hnone, hnodup.count, if_pos hd]
    rfl

end Tiling

/-- Sorted and disjoint regions follow each other. -/
theorem pairwise_hi_le_lo (hvalid : ∀ d ∈ ds, d.Valid)
    (hsorted : ds.Pairwise fun d e => d.address ≤ e.address)
    (hdisj : ds.Pairwise fun d e => d.hi ≤ e.lo ∨ e.hi ≤ d.lo) : ds.Pairwise fun d e => d.hi ≤ e.lo := by
  refine List.Pairwise.imp_of_mem ?_ (hsorted.and hdisj)
  rintro d e - he ⟨hle, hdis⟩
  have hev := (Descriptor.valid_iff.1 (hvalid e he)).1
  have hle' : d.lo ≤ e.lo := UInt64.le_iff_toNat_le.1 hle
  omega

/-- **The merged map tiles the banks.** For configured descriptors that are sorted by address and
disjoint, each overlapping at most one of the banks, a merge that succeeds leaves a map in which every
address of a bank is covered by exactly one entry: the configured descriptor that covers it, or else a
RAM partition that lies in the bank. Every configured descriptor occurs in the map exactly once. -/
theorem mergeDdrBankRegions_tiles (ds : List Descriptor) (hvalid : ∀ d ∈ ds, d.Valid)
    (hsorted : ds.Pairwise fun d e => d.address ≤ e.address)
    (hdisj : ds.Pairwise fun d e => d.hi ≤ e.lo ∨ e.hi ≤ d.lo) (banks : DdrBanks)
    (hone : ∀ d ∈ ds, (banks.regions.filter (descriptorOverlapsRegion d)).length ≤ 1)
    (rest merged : List Descriptor) (hlen : merged.length = maxDescriptorCount) (m : Buf Descriptor)
    (hm : mergeDdrBankRegions (ds ++ memoryMapTerminator :: rest) banks.regions merged = some (.success, m)) :
    let map := liveEntries m.slots
    (∀ r ∈ banks.regions, ∀ a, r.lo ≤ a → a < r.hi →
      map.countP (·.Covers a) = 1 ∧
      ∀ e ∈ map, e.Covers a →
        (∀ d ∈ ds, d.Covers a → e = d) ∧
        ((∀ d ∈ ds, ¬ d.Covers a) → (∃ base length, e = ramPartition base length) ∧ r.lo ≤ e.lo ∧ e.hi ≤ r.hi)) ∧
    ∀ d ∈ ds, map.count d = 1 := by
  have hdevice : Terminated (ds ++ memoryMapTerminator :: rest) ds :=
    ⟨⟨_, _, rfl, rfl⟩, fun d hd => (hvalid d hd).pos⟩
  obtain ⟨status, m', hm', -, -, hmap⟩ := mergeDdrBankRegions_spec hdevice hvalid banks.regions hlen
  obtain ⟨rfl, rfl⟩ : status = .success ∧ m' = m := by simpa using hm'.symm.trans hm
  intro map
  have hlive : map = mergedMap banks.regions ds := liveEntries_of_terminated (hmap rfl).1
  have hpair := pairwise_hi_le_lo hvalid hsorted hdisj
  rw [hlive]
  refine ⟨fun r hr a h1 h2 => ⟨countP_covers_bank hvalid hpair banks hone hr ⟨h1, h2⟩,
    fun e he hcov => ?_⟩,
    fun d hd => count_mergedMap hvalid hpair banks hone hd⟩
  exact entry_at hvalid hpair banks hone hr ⟨h1, h2⟩ he hcov

/-- Two descriptors, one of them outside the only bank. -/
theorem mergeDdrBankRegions_tiles_one_bank :
    let d : Descriptor := { ramPartition 0x1000 0x800 with memoryType := .reservedMemoryType }
    let e : Descriptor := { ramPartition 0x9000 0x10 with memoryType := .memoryMappedIo }
    ∃ m, mergeDdrBankRegions ([d, e] ++ memoryMapTerminator :: []) [⟨0x800, 0x2000⟩]
        (List.replicate maxDescriptorCount zeroDescriptor) = some (.success, m) ∧
      (liveEntries m.slots).countP (·.Covers 0x900) = 1 ∧ (liveEntries m.slots).count e = 1 := by
  intro d e
  let banks : DdrBanks := ⟨[⟨0x800, 0x2000⟩], by
    intro r hr
    obtain rfl := List.mem_singleton.1 hr
    exact ⟨by decide, by decide⟩, by simp⟩
  have hvalid : ∀ x ∈ [d, e], x.Valid := by decide
  have hlen : (List.replicate maxDescriptorCount zeroDescriptor).length = maxDescriptorCount := by simp
  have hdevice : Terminated ([d, e] ++ memoryMapTerminator :: []) [d,
    e] := ⟨⟨_, _, rfl, rfl⟩, by decide⟩
  obtain ⟨status, m, hm, -, hok, -⟩ := mergeDdrBankRegions_spec hdevice hvalid banks.regions hlen
  obtain rfl := hok.2 (by decide +kernel)
  obtain ⟨h1, h2⟩ := mergeDdrBankRegions_tiles [d,
    e] hvalid (by decide) (by decide) banks (by decide) [] _ (by simp) m hm
  exact ⟨m, hm, (h1 ⟨0x800, 0x2000⟩ (by decide) 0x900 (by decide) (by decide)).1, h2 e (by decide)⟩

end Andromeda
