import AndromedaBoot.Lib.Fill
import AndromedaBoot.Lib.GapFill
import AndromedaBoot.MemoryMap.Descriptor

/-!
# Merging the configured map with the DDR banks (AndromedaMemoryMapLib.c:119-249)

Bank by bank the merge walks the configured descriptors with a cursor, appends those that overlap the
bank and fills the space in front of them and at the end of the bank with "RAM Partition" entries; a
last loop appends the descriptors that overlap no bank.

| here | there |
| --- | --- |
| `descriptorOverlapsRegion`, `appendRamPartition`, `appendDescriptor` | :120, :130, :148 |
| `mergeRegionLoop` | the walk over one bank (:181-222) |
| `mergeTailLoop` | the loop over the descriptors outside the banks (:225-244) |
| `mergeDdrBankRegions` | :163 |

The loops are written over what an entry is (`EntryKind`), so that the very same loops also run with
entries that remember which call appended them (`originKind`). `mergeDdrBankRegionsWith_spec` says that
they append `mergedPieces`, the walks of `GapFill` over the banks.
-/

namespace Andromeda

open Fill GapFill

/-- How an entry of the merged map is made: by `AppendRamPartition`, by `AppendDescriptor`, and at the
end of the map. -/
structure EntryKind (α : Type) where
  ramPartition : UInt64 → UInt64 → α
  descriptor : Descriptor → α
  terminator : α

/-- The entries of `gMergedMemoryDescriptorEx`. -/
def descriptorKind : EntryKind Descriptor := ⟨ramPartition, id, memoryMapTerminator⟩

/-- `DescriptorOverlapsRegion` (:120). -/
def descriptorOverlapsRegion (descriptor : Descriptor) (region : DdrBankRegion) : Bool :=
  descriptor.address < region.base + region.length && region.base < descriptor.address + descriptor.length

section Code

variable {α : Type} (kind : EntryKind α)

/-- `AppendRamPartition` (:130). -/
def appendRamPartition (m : Buf α) (base length : UInt64) : Option (EfiStatus × Buf α) :=
  push .success .outOfResources (maxDescriptorCount - 1) m (kind.ramPartition base length)

/-- `AppendDescriptor` (:148). -/
def appendDescriptor (m : Buf α) (descriptor : Descriptor) : Option (EfiStatus × Buf α) :=
  push .success .outOfResources (maxDescriptorCount - 1) m (kind.descriptor descriptor)

/-- The loop over the configured descriptors for one bank and the gap behind it (:181-222); the list is
the rest of `gDeviceMemoryDescriptorEx`, `none` that the loop ran past its end. -/
def mergeRegionLoop (region : DdrBankRegion) :
    List Descriptor → UInt64 → Buf α → Option (EfiStatus × Buf α)
  | [], _, _ => none
  | descriptor :: rest, cursor, m =>
    if descriptor.length = 0 then
      if cursor < region.base + region.length then
        appendRamPartition kind m cursor (region.base + region.length - cursor)
      else some (.success, m)
    else
      let descriptorEnd := descriptor.address + descriptor.length
      if !descriptorOverlapsRegion descriptor region then mergeRegionLoop region rest cursor m
      else
        andThen .success
          (if descriptor.address > cursor then appendRamPartition kind m cursor (descriptor.address - cursor)
            else some (.success, m)) fun m =>
        andThen .success (appendDescriptor kind m descriptor) fun m =>
        mergeRegionLoop region rest (if descriptorEnd > cursor then descriptorEnd else cursor) m

/-- The loop over the descriptors that overlap no bank (:225-244). -/
def mergeTailLoop (ddrBankRegions : List DdrBankRegion) :
    List Descriptor → Buf α → Option (EfiStatus × Buf α)
  | [], _ => none
  | descriptor :: rest, m =>
    if descriptor.length = 0 then some (.success, m)
    else
      let overlapsDdrBank := ddrBankRegions.any (descriptorOverlapsRegion descriptor)
      if !overlapsDdrBank then andThen .success (appendDescriptor kind m descriptor) (mergeTailLoop ddrBankRegions rest)
      else mergeTailLoop ddrBankRegions rest m

/-- `MergeDdrBankRegions` (:163) over the array `device` into the array `merged`. -/
def mergeDdrBankRegionsWith (device : List Descriptor) (ddrBankRegions : List DdrBankRegion)
    (merged : List α) :
    Option (EfiStatus × Buf α) :=
  andThen .success
    (forEach .success (fun region m => mergeRegionLoop kind region device region.base m) ddrBankRegions ⟨merged, 0⟩)
    fun m =>
  andThen .success (mergeTailLoop kind ddrBankRegions device m) fun m =>
  (write m.slots m.count kind.terminator).map fun slots => (.success, ⟨slots, m.count⟩)

end Code

/-- `MergeDdrBankRegions` (:163). -/
def mergeDdrBankRegions :
    List Descriptor → List DdrBankRegion → List Descriptor → Option (EfiStatus × Buf Descriptor) :=
  mergeDdrBankRegionsWith descriptorKind

/-! ## Banks as intervals -/

def DdrBankRegion.lo (r : DdrBankRegion) : Nat := r.base.toNat

def DdrBankRegion.hi (r : DdrBankRegion) : Nat := r.base.toNat + r.length.toNat

/-- `Base + Length` as the source computes it. -/
def DdrBankRegion.top (r : DdrBankRegion) : Nat := (r.base + r.length).toNat

/-- A bank that is not empty and whose end does not wrap. -/
structure DdrBankRegion.Valid (r : DdrBankRegion) : Prop where
  pos : r.lo < r.hi
  noWrap : r.hi < 2 ^ 64

theorem DdrBankRegion.Valid.top_eq {r : DdrBankRegion} (h : r.Valid) : r.top = r.hi := by
  have := h.noWrap
  simp only [DdrBankRegion.top, DdrBankRegion.hi, UInt64.toNat_add] at *
  omega

theorem DdrBankRegion.top_lt (r : DdrBankRegion) : r.top < 2 ^ 64 := UInt64.toNat_lt _

theorem descriptorOverlapsRegion_iff {d : Descriptor} (hd : d.Valid) {r : DdrBankRegion} :
    descriptorOverlapsRegion d r = true ↔ d.lo < r.top ∧ r.lo < d.hi := by
  rw [← hd.toNat_end]
  simp only [descriptorOverlapsRegion, Bool.and_eq_true, decide_eq_true_eq, UInt64.lt_iff_toNat_lt]
  rfl

/-! ## What the merge appends -/

/-- The walk over one bank. -/
def regionPieces (ds : List Descriptor) (r : DdrBankRegion) : List (Piece Descriptor Nat) :=
  pieces Descriptor.lo Descriptor.hi r.top r.lo (ds.filter (descriptorOverlapsRegion · r))

/-- The descriptors outside the banks. -/
def outsideBanks (banks : List DdrBankRegion) (ds : List Descriptor) : List Descriptor :=
  ds.filter fun d => !banks.any (descriptorOverlapsRegion d)

/-- Everything the merge appends, in order. -/
def mergedPieces (banks : List DdrBankRegion) (ds : List Descriptor) : List (Piece Descriptor Nat) :=
  banks.flatMap (regionPieces ds) ++ (outsideBanks banks ds).map .seg

/-- The entry made from a piece. -/
def EntryKind.entry {α : Type} (kind : EntryKind α) : Piece Descriptor Nat → α
  | .gap a b => kind.ramPartition (.ofNat a) (.ofNat (b - a))
  | .seg d => kind.descriptor d

/-- A sentinel-terminated array: the entries in use, an entry of length 0, and whatever follows. -/
structure Terminated (slots ds : List Descriptor) : Prop where
  split : ∃ t rest, slots = ds ++ t :: rest ∧ t.length = 0
  live : ∀ d ∈ ds, d.length ≠ 0

section Spec

variable {α : Type} {kind : EntryKind α}

theorem appendRamPartition_eq (m : Buf α) (base length : UInt64) :
    appendRamPartition kind m base length =
      pushAll .success .outOfResources (maxDescriptorCount - 1) m [kind.ramPartition base length] :=
  (pushAll_singleton _ _ _).symm

/-- The gap the source appends is the gap of the walk. -/
theorem gap_entry {cursor b : UInt64} (m : Buf α) :
    (if b > cursor then appendRamPartition kind m cursor (b - cursor) else some (.success, m)) =
      pushAll .success .outOfResources (maxDescriptorCount - 1) m
        ((gapTo cursor.toNat b.toNat).map kind.entry) := by
  by_cases h : b > cursor
  · have hlt : cursor.toNat < b.toNat := UInt64.lt_iff_toNat_lt.1 h
    have hsub : UInt64.ofNat (b.toNat - cursor.toNat) = b - cursor := by
      rw [← UInt64.toNat_sub_of_le _ _ (UInt64.le_iff_toNat_le.2 (le_of_lt hlt)), UInt64.ofNat_toNat]
    rw [if_pos h, gapTo, if_pos hlt, appendRamPartition_eq, List.map_singleton, EntryKind.entry,
      UInt64.ofNat_toNat, hsub]
  · have hlt : ¬ cursor.toNat < b.toNat := fun h0 => h (UInt64.lt_iff_toNat_lt.2 h0)
    rw [if_neg h, gapTo, if_neg hlt]
    rfl

theorem mergeRegionLoop_spec (region : DdrBankRegion) {t : Descriptor} (ht : t.length = 0)
    (rest : List Descriptor) :
    ∀ (ds : List Descriptor) (cursor : UInt64) (m : Buf α), (∀ d ∈ ds, d.Valid) →
      mergeRegionLoop kind region (ds ++ t :: rest) cursor m =
        pushAll .success .outOfResources (maxDescriptorCount - 1) m
          ((pieces Descriptor.lo Descriptor.hi region.top cursor.toNat
            (ds.filter (descriptorOverlapsRegion · region))).map kind.entry)
  | [], cursor, m, _ => by
    simp only [List.nil_append, mergeRegionLoop, ht, ↓reduceIte, List.filter_nil, pieces]
    exact gap_entry m
  | d :: ds, cursor, m, hvalid => by
    have hd := hvalid d (by simp)
    have ih := fun cursor m => mergeRegionLoop_spec region ht rest ds cursor m
      (fun e he => hvalid e (by simp [he]))
    simp only [List.cons_append, mergeRegionLoop, hd.pos, ↓reduceIte]
    by_cases hov : descriptorOverlapsRegion d region = true
    · have hcursor : (if d.address + d.length > cursor then d.address + d.length else cursor).toNat =
          max cursor.toNat d.hi := by
        rw [← hd.toNat_end, Descriptor.end_]
        split_ifs with h
        · exact (max_eq_right (le_of_lt (UInt64.lt_iff_toNat_lt.1 h))).symm
        · exact (max_eq_left (UInt64.le_iff_toNat_le.1 (UInt64.not_lt.1 h))).symm
      simp only [hov, Bool.not_true, Bool.false_eq_true, ↓reduceIte, gap_entry, ih, hcursor]
      rw [List.filter_cons, if_pos hov, pieces, List.map_append, List.map_cons, pushAll_append]
      rfl
    · simp only [hov, Bool.not_false, ↓reduceIte, ih]
      rw [List.filter_cons, if_neg hov]

theorem mergeTailLoop_spec (banks : List DdrBankRegion) {t : Descriptor} (ht : t.length = 0)
    (rest : List Descriptor) :
    ∀ (ds : List Descriptor) (m : Buf α), (∀ d ∈ ds, d.length ≠ 0) →
      mergeTailLoop kind banks (ds ++ t :: rest) m =
        pushAll .success .outOfResources (maxDescriptorCount - 1) m
          (((outsideBanks banks ds).map .seg).map kind.entry)
  | [], m, _ => by simp [mergeTailLoop, ht, outsideBanks]
  | d :: ds, m, hlive => by
    have hd := hlive d (by simp)
    have ih := fun m => mergeTailLoop_spec banks ht rest ds m (fun e he => hlive e (by simp [he]))
    simp only [List.cons_append, mergeTailLoop, hd, ↓reduceIte]
    by_cases hov : banks.any (descriptorOverlapsRegion d) = true
    · simp only [hov, Bool.not_true, Bool.false_eq_true, ↓reduceIte, ih, outsideBanks]
      rw [List.filter_cons_of_neg (by simp [hov])]
    · simp only [hov, Bool.not_false, ↓reduceIte, outsideBanks]
      rw [List.filter_cons_of_pos (by simp [hov]), List.map_cons, List.map_cons, pushAll_cons]
      exact congrArg _ (funext ih)

/-- **The merge appends the walks over the banks and the descriptors outside them**, and a terminator
when all of them fit. -/
theorem mergeDdrBankRegionsWith_spec {device ds : List Descriptor} (kind : EntryKind α)
    (hdevice : Terminated device ds) (hvalid : ∀ d ∈ ds, d.Valid) (banks : List DdrBankRegion)
    {merged : List α} (hlen : merged.length = maxDescriptorCount) :
    mergeDdrBankRegionsWith kind device banks merged =
      let entries := (mergedPieces banks ds).map kind.entry
      if entries.length ≤ maxDescriptorCount - 1 then
        some (.success, ⟨overwrite merged 0 (entries ++ [kind.terminator]), entries.length⟩)
      else some (.outOfResources, ⟨overwrite merged 0 (entries.take (maxDescriptorCount - 1)),
        maxDescriptorCount - 1⟩) := by
  obtain ⟨⟨t, rest, rfl, ht⟩, hlive⟩ := hdevice
  have hfor : forEach EfiStatus.success (fun region m => mergeRegionLoop kind region (ds ++ t :: rest) region.base m)
      banks ⟨merged, 0⟩ = pushAll .success .outOfResources (maxDescriptorCount - 1) ⟨merged, 0⟩
        (banks.flatMap fun region => (regionPieces ds region).map kind.entry) :=
    forEach_pushAll (fun region _ m => mergeRegionLoop_spec region ht rest ds region.base m hvalid) ⟨merged, 0⟩
  simp only [mergeDdrBankRegionsWith]
  rw [hfor]
  have htail : (fun m => andThen EfiStatus.success (mergeTailLoop kind banks (ds ++ t :: rest) m) fun m =>
        (write m.slots m.count kind.terminator).map fun slots => (EfiStatus.success, (⟨slots, m.count⟩ : Buf α))) =
      fun m => andThen .success (pushAll .success .outOfResources (maxDescriptorCount - 1) m
        (((outsideBanks banks ds).map .seg).map kind.entry)) fun m =>
        (write m.slots m.count kind.terminator).map fun slots => (EfiStatus.success, (⟨slots, m.count⟩ : Buf α)) := by
    funext m
    rw [mergeTailLoop_spec banks ht rest ds m hlive]
  rw [htail, ← andThen_assoc, ← pushAll_append]
  have hentries : (banks.flatMap fun region => (regionPieces ds region).map kind.entry) ++
      ((outsideBanks banks ds).map Piece.seg).map kind.entry = (mergedPieces banks ds).map kind.entry := by
    rw [mergedPieces, List.map_append, List.map_flatMap]
  rw [hentries, pushAll_eq (by decide) _ _ (Nat.zero_le _) (by simp [hlen])]
  generalize (mergedPieces banks ds).map kind.entry = entries
  have hmax : maxDescriptorCount = 128 := rfl
  simp only [Nat.zero_add, Nat.sub_zero]
  by_cases hfit : entries.length ≤ maxDescriptorCount - 1
  · have hroom : 0 + entries.length < merged.length := by omega
    have hset := set_overwrite hroom kind.terminator
    rw [Nat.zero_add] at hset
    simp only [hfit, ↓reduceIte, andThen_ok, List.take_of_length_le hfit, Nat.min_eq_left hfit, write,
      length_overwrite (le_of_lt hroom), hset]
    rw [if_pos (by omega)]
    rfl
  · simp only [hfit, ↓reduceIte, andThen, reduceCtorEq,
      Nat.min_eq_right (by omega : maxDescriptorCount - 1 ≤ entries.length)]

end Spec

/-! ## The merged map -/

/-- What a consumer sees of a map: the entries in front of the first one of length 0. -/
def liveEntries (slots : List Descriptor) : List Descriptor := slots.takeWhile (·.length ≠ 0)

theorem liveEntries_of_terminated {slots ds : List Descriptor} (h : Terminated slots ds) :
    liveEntries slots = ds := by
  obtain ⟨⟨t, rest, rfl, ht⟩, hlive⟩ := h
  rw [liveEntries, List.takeWhile_append_of_pos (fun d hd => by simpa using hlive d hd),
    List.takeWhile_cons_of_neg (by simp [ht]), List.append_nil]

variable {ds : List Descriptor}

/-- The gaps of a bank lie in the bank. -/
theorem gap_in_region {a b : Nat} {r : DdrBankRegion} (hvalid : ∀ d ∈ ds, d.Valid)
    (h : Piece.gap a b ∈ regionPieces ds r) : r.lo ≤ a ∧ a < b ∧ b ≤ r.top := by
  refine gap_bounds ?_ h
  intro d hd
  obtain ⟨h1, h2⟩ := List.mem_filter.1 hd
  exact le_of_lt ((descriptorOverlapsRegion_iff (hvalid d h1)).1 h2).1

theorem gap_mem_mergedPieces {banks : List DdrBankRegion} {a b : Nat} :
    Piece.gap a b ∈ mergedPieces banks ds ↔ ∃ r ∈ banks, Piece.gap a b ∈ regionPieces ds r := by
  simp [mergedPieces]

theorem seg_mem_mergedPieces {banks : List DdrBankRegion} {d : Descriptor} :
    Piece.seg d ∈ mergedPieces banks ds ↔ d ∈ ds := by
  simp only [mergedPieces, List.mem_append, List.mem_flatMap, regionPieces, seg_mem_pieces,
    List.mem_filter,
    List.mem_map, Piece.seg.injEq, exists_eq_right, outsideBanks]
  by_cases h : banks.any (descriptorOverlapsRegion d) = true
  · obtain ⟨r, hr, hov⟩ := List.any_eq_true.1 h
    constructor
    · rintro (⟨_, -, hd, -⟩ | ⟨hd, -⟩)
      · exact hd
      · exact hd
    · exact fun hd => .inl ⟨r, hr, hd, hov⟩
  · constructor
    · rintro (⟨_, -, hd, -⟩ | ⟨hd, -⟩)
      · exact hd
      · exact hd
    · exact fun hd => .inr ⟨hd, by simpa using h⟩

/-- The entry for a gap spans the gap. -/
theorem ramPartition_span {a b : Nat} (hab : a < b) (hb : b < 2 ^ 64) :
    (ramPartition (.ofNat a) (.ofNat (b - a))).lo = a ∧
      (ramPartition (.ofNat a) (.ofNat (b - a))).hi = b := by
  have h1 : (UInt64.ofNat a).toNat = a := UInt64.toNat_ofNat_of_lt' (by simp [UInt64.size]; omega)
  have h2 : (UInt64.ofNat (b - a)).toNat = b - a := UInt64.toNat_ofNat_of_lt' (by simp [UInt64.size]; omega)
  refine ⟨h1, ?_⟩
  change (UInt64.ofNat a).toNat + (UInt64.ofNat (b - a)).toNat = b
  rw [h1, h2]
  omega

/-- Every entry of the merged map is a valid region. -/
theorem entry_valid {banks : List DdrBankRegion} (hvalid : ∀ d ∈ ds, d.Valid) {p : Piece Descriptor Nat}
    (hp : p ∈ mergedPieces banks ds) : (descriptorKind.entry p).Valid := by
  cases p with
  | seg d => exact hvalid d (seg_mem_mergedPieces.1 hp)
  | gap a b =>
    obtain ⟨r, -, hr⟩ := gap_mem_mergedPieces.1 hp
    obtain ⟨-, hab, hb⟩ := gap_in_region hvalid hr
    have htop := r.top_lt
    have hspan := ramPartition_span hab (by omega)
    rw [Descriptor.valid_iff]
    change (ramPartition (.ofNat a) (.ofNat (b - a))).lo < (ramPartition (.ofNat a) (.ofNat (b - a))).hi ∧
      (ramPartition (.ofNat a) (.ofNat (b - a))).hi < 2 ^ 64
    omega

/-- The merged map. -/
def mergedMap (banks : List DdrBankRegion) (ds : List Descriptor) : List Descriptor :=
  (mergedPieces banks ds).map descriptorKind.entry

theorem mergedMap_valid {banks : List DdrBankRegion} (hvalid : ∀ d ∈ ds, d.Valid) :
    ∀ e ∈ mergedMap banks ds, e.Valid := by
  intro e he
  obtain ⟨p, hp, rfl⟩ := List.mem_map.1 he
  exact entry_valid hvalid hp

/-! ## How often a descriptor is appended -/

/-- The configured descriptors as the merge appends them: for every bank they overlap, and once outside
the banks. -/
def copies (banks : List DdrBankRegion) (ds : List Descriptor) : List Descriptor :=
  (banks.flatMap fun r => ds.filter (descriptorOverlapsRegion · r)) ++ outsideBanks banks ds

theorem filter_isSeg_mergedPieces (banks : List DdrBankRegion) (ds : List Descriptor) :
    (mergedPieces banks ds).filter Piece.isSeg = (copies banks ds).map .seg := by
  rw [mergedPieces, copies, List.filter_append, List.map_append]
  congr 1
  · induction banks with
    | nil => rfl
    | cons r banks ih =>
      rw [List.flatMap_cons, List.flatMap_cons, List.filter_append, List.map_append, ih, regionPieces,
        filter_isSeg_pieces]
  · rw [List.filter_eq_self]
    intro p hp
    obtain ⟨d, -, rfl⟩ := List.mem_map.1 hp
    rfl

theorem count_filter_overlaps (r : DdrBankRegion) (d : Descriptor) (ds : List Descriptor) :
    (ds.filter (descriptorOverlapsRegion · r)).count d = if descriptorOverlapsRegion d r then ds.count d else 0 := by
  split_ifs with h
  · exact List.count_filter h
  · rw [List.count_eq_zero, List.mem_filter]
    exact fun hd => h hd.2

/-- A descriptor is appended once for every bank it overlaps, but at least once. -/
theorem count_copies (banks : List DdrBankRegion) (ds : List Descriptor) (d : Descriptor) :
    (copies banks ds).count d = max (banks.countP (descriptorOverlapsRegion d)) 1 * ds.count d := by
  have hbanks : ∀ banks : List DdrBankRegion, (banks.flatMap fun r => ds.filter (descriptorOverlapsRegion · r)).count d =
      banks.countP (descriptorOverlapsRegion d) * ds.count d := by
    intro banks
    induction banks with
    | nil => simp
    | cons r banks ih =>
      rw [List.flatMap_cons, List.count_append, ih, count_filter_overlaps, List.countP_cons,
        Nat.add_mul]
      split_ifs <;> omega
  have houtside : (outsideBanks banks ds).count d =
      if banks.countP (descriptorOverlapsRegion d) = 0 then ds.count d else 0 := by
    have hany : banks.any (descriptorOverlapsRegion d) = false ↔ banks.countP (descriptorOverlapsRegion d) = 0 := by
      rw [List.countP_eq_zero, List.any_eq_false]
    split_ifs with h
    · exact List.count_filter (by rw [hany.2 h]; rfl)
    · rw [List.count_eq_zero, outsideBanks, List.mem_filter]
      exact fun hd => h (hany.1 (by simpa using hd.2))
  rw [copies, List.count_append, hbanks, houtside]
  split_ifs with h
  · simp [h]
  · rw [Nat.max_eq_left (by omega)]
    rfl

/-- The gaps that look like the descriptor. -/
def twins (banks : List DdrBankRegion) (ds : List Descriptor) (d : Descriptor) : Nat :=
  ((mergedPieces banks ds).filter fun p => !p.isSeg).countP fun p => descriptorKind.entry p == d

theorem count_mergedMap_eq (banks : List DdrBankRegion) (ds : List Descriptor) (d : Descriptor) :
    (mergedMap banks ds).count d =
      max (banks.countP (descriptorOverlapsRegion d)) 1 * ds.count d + twins banks ds d := by
  rw [← count_copies, mergedMap, List.count, List.countP_map, twins]
  rw [List.countP_eq_countP_filter_add _ _ Piece.isSeg, filter_isSeg_mergedPieces, List.countP_map]
  rfl

theorem twins_eq_zero_iff {banks : List DdrBankRegion} {d : Descriptor} :
    twins banks ds d = 0 ↔
      ∀ r ∈ banks, ∀ a b, Piece.gap a b ∈ regionPieces ds r →
        ramPartition (.ofNat a) (.ofNat (b - a)) ≠ d := by
  rw [twins, List.countP_eq_zero]
  constructor
  · intro h r hr a b hgap heq
    refine h (.gap a b) (List.mem_filter.2 ⟨gap_mem_mergedPieces.2 ⟨r, hr, hgap⟩, rfl⟩) ?_
    rw [beq_iff_eq]
    exact heq
  · intro h p hp
    obtain ⟨hp, hseg⟩ := List.mem_filter.1 hp
    cases p with
    | seg e => simp [Piece.isSeg] at hseg
    | gap a b =>
      obtain ⟨r, hr, hgap⟩ := gap_mem_mergedPieces.1 hp
      rw [beq_iff_eq]
      exact h r hr a b hgap

/-- A gap that looks like a descriptor lies where the descriptor does, so the descriptor overlaps the
bank. -/
theorem overlaps_of_twin {r : DdrBankRegion} {d : Descriptor} {a b : Nat} (hvalid : ∀ d ∈ ds, d.Valid)
    (hd : d.Valid) (hgap : Piece.gap a b ∈ regionPieces ds r)
    (heq : ramPartition (.ofNat a) (.ofNat (b - a)) = d) :
    d.lo = a ∧ d.hi = b ∧ descriptorOverlapsRegion d r = true := by
  obtain ⟨h1, hab, h2⟩ := gap_in_region hvalid hgap
  have htop := r.top_lt
  obtain ⟨h3, h4⟩ := ramPartition_span hab (by omega)
  rw [heq] at h3 h4
  refine ⟨h3, h4, (descriptorOverlapsRegion_iff hd).2 ?_⟩
  omega

/-- **`MergeDdrBankRegions`**: it never leaves its arrays; it succeeds when the merged map has room for
its terminator, and then leaves that map in the array. -/
theorem mergeDdrBankRegions_spec {device : List Descriptor} (hdevice : Terminated device ds)
    (hvalid : ∀ d ∈ ds, d.Valid) (banks : List DdrBankRegion) {merged : List Descriptor}
    (hlen : merged.length = maxDescriptorCount) :
    ∃ status m, mergeDdrBankRegions device banks merged = some (status, m) ∧
      m.slots.length = maxDescriptorCount ∧
      (status = .success ↔ (mergedMap banks ds).length ≤ maxDescriptorCount - 1) ∧
      (status = .success → Terminated m.slots (mergedMap banks ds) ∧ m.count = (mergedMap banks ds).length) := by
  have hspec := mergeDdrBankRegionsWith_spec descriptorKind hdevice hvalid banks hlen
  have hmax : maxDescriptorCount = 128 := rfl
  simp only [← mergedMap.eq_def] at hspec
  by_cases hfit : (mergedMap banks ds).length ≤ maxDescriptorCount - 1
  · rw [if_pos hfit] at hspec
    have hroom : 0 + (mergedMap banks ds ++ [memoryMapTerminator]).length ≤ merged.length := by
      rw [List.length_append, List.length_singleton]
      omega
    refine ⟨_, _, hspec, (length_overwrite hroom).trans hlen, by simp [hfit], fun _ => ⟨⟨?_, ?_⟩, rfl⟩⟩
    · refine ⟨memoryMapTerminator, merged.drop ((mergedMap banks ds).length + 1), ?_, rfl⟩
      simp [overwrite, descriptorKind]
    · exact fun e he => (mergedMap_valid hvalid e he).pos
  · rw [if_neg hfit] at hspec
    have hroom : 0 + ((mergedMap banks ds).take (maxDescriptorCount - 1)).length ≤ merged.length := by
      rw [List.length_take]
      omega
    exact ⟨_, _, hspec, (length_overwrite hroom).trans hlen, by simp [hfit], fun h => by simp at h⟩

end Andromeda
