import AndromedaBoot.MemoryMap.PStore
import Mathlib.Data.List.Flatten

/-!
# What the overlay leaves of a memory map (QcomUefiPlatMemoryMapLib.c:207-302)

`MemoryMapConfigOverlayDescriptor` walks the descriptors once and has three places at which it may put the overlay into
its output. `remains` says what is left of one descriptor; without the overlay the output is that of all descriptors, in
their order (`carve_eq`), whatever their order was.
-/

namespace Andromeda

open Fill

/-- Some address is in both regions. -/
def Descriptor.Overlaps (d e : Descriptor) : Prop := d.lo < e.hi ∧ e.lo < d.hi

instance (d e : Descriptor) : Decidable (d.Overlaps e) := inferInstanceAs (Decidable (_ ∧ _))

/-- What is left of a descriptor besides the overlay. -/
def remains (overlay d : Descriptor) : List Descriptor :=
  if d.Overlaps overlay then
    (if d.lo < overlay.lo then [leftPart overlay d] else []) ++ (if overlay.hi < d.hi then [rightPart overlay d] else [])
  else [d]

/-- All that is left, and the overlay. -/
def carved (overlay : Descriptor) (ds : List Descriptor) : List Descriptor := overlay :: ds.flatMap (remains overlay)

/-- The fields of a descriptor besides the region. -/
def Descriptor.metadata (d : Descriptor) :
    RegionName × HobOption × ResourceType × ResourceAttribute × MemoryType × ArmAttributes :=
  (d.name, d.hobOption, d.resourceType, d.resourceAttribute, d.memoryType, d.armAttributes)

variable {overlay d e : Descriptor} {ds : List Descriptor}

/-! ## One descriptor -/

theorem overlaps_iff (hov : overlay.Valid) (hd : d.Valid) :
    (decide (d.address < overlay.end_) && decide (overlay.address < d.end_)) = true ↔ d.Overlaps overlay := by
  rw [Bool.and_eq_true, decide_eq_true_eq, decide_eq_true_eq, UInt64.lt_iff_toNat_lt, UInt64.lt_iff_toNat_lt, hov.toNat_end,
    hd.toNat_end]
  rfl

theorem mem_remains (h : e ∈ remains overlay d) :
    (¬ d.Overlaps overlay ∧ e = d) ∨ d.Overlaps overlay ∧
      (d.lo < overlay.lo ∧ e = leftPart overlay d ∨ overlay.hi < d.hi ∧ e = rightPart overlay d) := by
  unfold remains at h
  split_ifs at h with hov hl hr hr
  · simp only [List.mem_append, List.mem_singleton] at h
    rcases h with rfl | rfl
    · exact .inr ⟨hov, .inl ⟨hl, rfl⟩⟩
    · exact .inr ⟨hov, .inr ⟨hr, rfl⟩⟩
  · exact .inr ⟨hov, .inl ⟨hl, by simpa using h⟩⟩
  · exact .inr ⟨hov, .inr ⟨hr, by simpa using h⟩⟩
  · simp at h
  · exact .inl ⟨hov, by simpa using h⟩

theorem left_span (h : d.lo < overlay.lo) : (leftPart overlay d).lo = d.lo ∧ (leftPart overlay d).hi = overlay.lo :=
  leftPart_span (UInt64.lt_iff_toNat_lt.2 h)

theorem right_span (hov : overlay.Valid) (hd : d.Valid) (h : overlay.hi < d.hi) :
    (rightPart overlay d).lo = overlay.hi ∧ (rightPart overlay d).hi = d.hi := by
  refine rightPart_span hov hd (UInt64.lt_iff_toNat_lt.2 ?_)
  rw [hov.toNat_end, hd.toNat_end]
  exact h

/-- What is left of a descriptor is a part of it beside the overlay. -/
theorem remains_span (hov : overlay.Valid) (hd : d.Valid) (h : e ∈ remains overlay d) :
    d.lo ≤ e.lo ∧ e.lo < e.hi ∧ e.hi ≤ d.hi ∧ (e.hi ≤ overlay.lo ∨ overlay.hi ≤ e.lo) := by
  have hdn := Descriptor.valid_iff.1 hd
  have hovn := Descriptor.valid_iff.1 hov
  rcases mem_remains h with ⟨hout, rfl⟩ | ⟨hin, ⟨hl, rfl⟩ | ⟨hr, rfl⟩⟩
  · unfold Descriptor.Overlaps at hout
    omega
  · obtain ⟨h1, h2⟩ := left_span hl
    unfold Descriptor.Overlaps at hin
    omega
  · obtain ⟨h1, h2⟩ := right_span hov hd hr
    unfold Descriptor.Overlaps at hin
    omega

/-- An address outside of the overlay stays with the descriptor it was with. -/
theorem remains_covers (hov : overlay.Valid) (hd : d.Valid) {a : Nat} (ha : ¬ overlay.Covers a) :
    ((remains overlay d).filter fun e => e.Covers a).map Descriptor.metadata =
      ([d].filter fun e => e.Covers a).map Descriptor.metadata := by
  have hovn := Descriptor.valid_iff.1 hov
  have hcovers (e : Descriptor) : e.Covers a ↔ e.lo ≤ a ∧ a < e.hi := Iff.rfl
  rw [hcovers] at ha
  rw [remains]
  split_ifs with hin hl hr hr
  · obtain ⟨h1, h2⟩ := left_span hl
    obtain ⟨h3, h4⟩ := right_span hov hd hr
    unfold Descriptor.Overlaps at hin
    simp only [List.cons_append, List.nil_append, List.filter_cons, List.filter_nil, decide_eq_true_eq, hcovers, h1, h2, h3, h4]
    split_ifs
    all_goals first | omega | rfl
  · obtain ⟨h1, h2⟩ := left_span hl
    unfold Descriptor.Overlaps at hin
    simp only [List.append_nil, List.filter_cons, List.filter_nil, decide_eq_true_eq, hcovers, h1, h2]
    split_ifs
    all_goals first | omega | rfl
  · obtain ⟨h3, h4⟩ := right_span hov hd hr
    unfold Descriptor.Overlaps at hin
    simp only [List.nil_append, List.filter_cons, List.filter_nil, decide_eq_true_eq, hcovers, h3, h4]
    split_ifs
    all_goals first | omega | rfl
  · unfold Descriptor.Overlaps at hin
    simp only [List.nil_append, List.filter_cons, List.filter_nil, decide_eq_true_eq, hcovers]
    split_ifs
    all_goals first | omega | rfl
  · rfl

/-! ## The whole list -/

theorem carve_cons (hov : overlay.Valid) (hd : d.Valid) (inserted : Bool) :
    carve overlay (d :: ds) inserted =
      if inserted = true then remains overlay d ++ carve overlay ds true
      else if overlay.lo ≤ d.lo then overlay :: (remains overlay d ++ carve overlay ds true)
      else if d.Overlaps overlay then
        leftPart overlay d :: overlay :: ((if overlay.hi < d.hi then [rightPart overlay d] else []) ++ carve overlay ds true)
      else d :: carve overlay ds false := by
  have hin := overlaps_iff hov hd
  have hlt : d.address < overlay.address ↔ d.lo < overlay.lo := UInt64.lt_iff_toNat_lt
  have hge : d.address ≥ overlay.address ↔ overlay.lo ≤ d.lo := UInt64.le_iff_toNat_le
  have hend : d.end_ > overlay.end_ ↔ overlay.hi < d.hi := by
    rw [gt_iff_lt, UInt64.lt_iff_toNat_lt, hov.toNat_end, hd.toNat_end]
  rw [carve, remains]
  simp only [optional, hin, hlt, hge, hend, decide_eq_true_eq]
  by_cases hov' : d.Overlaps overlay
  · simp only [hov', if_true]
    cases inserted with
    | true => simp
    | false =>
      by_cases hle : overlay.lo ≤ d.lo
      · simp [hle, Nat.not_lt.2 hle]
      · simp [hle, Nat.not_le.1 hle]
  · simp only [hov', if_false]
    cases inserted with
    | true => simp
    | false =>
      by_cases hle : overlay.lo ≤ d.lo
      · simp [hle]
      · simp [hle]

/-- Behind the overlay there is only what remains. -/
theorem carve_true (hov : overlay.Valid) (hds : ∀ d ∈ ds, d.Valid) : carve overlay ds true = ds.flatMap (remains overlay) := by
  induction ds with
  | nil => rfl
  | cons d ds ih =>
    obtain ⟨hd, hds⟩ := List.forall_mem_cons.1 hds
    rw [carve_cons hov hd, if_pos rfl, ih hds, List.flatMap_cons]

/-- Each region ends where the next one begins, or before. -/
def Ordered (ds : List Descriptor) : Prop := ds.Pairwise fun d e => d.hi ≤ e.lo

/-- The overlay stands somewhere in what remains: behind regions that begin below it, and in a list that was in order
also in front of those that do not. -/
theorem carve_eq (hov : overlay.Valid) (hds : ∀ d ∈ ds, d.Valid) :
    ∃ pre post, carve overlay ds false = pre ++ overlay :: post ∧ pre ++ post = ds.flatMap (remains overlay) ∧
      (∀ e ∈ pre, e.lo < overlay.lo) ∧ (Ordered ds → ∀ e ∈ post, overlay.lo ≤ e.lo) := by
  have hovn := Descriptor.valid_iff.1 hov
  induction ds with
  | nil => exact ⟨[], [], rfl, rfl, by simp, by simp⟩
  | cons d ds ih =>
    obtain ⟨hd, hds⟩ := List.forall_mem_cons.1 hds
    have hdn := Descriptor.valid_iff.1 hd
    -- in an ordered list what is left of the rest begins behind `d`
    have hrest (hordered : Ordered (d :: ds)) : ∀ e ∈ ds.flatMap (remains overlay), d.hi ≤ e.lo := by
      intro e he
      obtain ⟨x, hx, hex⟩ := List.mem_flatMap.1 he
      have hspan := remains_span hov (hds x hx) hex
      have hdx := (List.pairwise_cons.1 hordered).1 x hx
      omega
    rw [carve_cons hov hd, if_neg (by decide), carve_true hov hds, List.flatMap_cons]
    split_ifs with hle hin hr
    · refine ⟨[], _, rfl, rfl, by simp, ?_⟩
      intro hordered e he
      rcases List.mem_append.1 he with he | he
      · have hspan := remains_span hov hd he
        omega
      · have hfar := hrest hordered e he
        omega
    · have hlt := Nat.not_le.1 hle
      refine ⟨[leftPart overlay d], _, rfl, ?_, ?_, ?_⟩
      · simp [remains, hin, hlt, hr]
      · simpa [(left_span hlt).1] using hlt
      · intro hordered e he
        unfold Descriptor.Overlaps at hin
        rcases List.mem_append.1 he with he | he
        · rw [List.mem_singleton.1 he, (right_span hov hd hr).1]
          omega
        · have hfar := hrest hordered e he
          omega
    · have hlt := Nat.not_le.1 hle
      refine ⟨[leftPart overlay d], _, rfl, ?_, ?_, ?_⟩
      · simp [remains, hin, hlt, hr]
      · simpa [(left_span hlt).1] using hlt
      · intro hordered e he
        unfold Descriptor.Overlaps at hin
        have hfar := hrest hordered e he
        omega
    · obtain ⟨pre, post, hcarve, happend, hpre, hpost⟩ := ih hds
      refine ⟨d :: pre, post, by rw [hcarve, List.cons_append], ?_, ?_, fun hordered => hpost (List.pairwise_cons.1 hordered).2⟩
      · rw [List.cons_append, happend, remains, if_neg hin, List.singleton_append]
      · exact List.forall_mem_cons.2 ⟨Nat.not_le.1 hle, hpre⟩

theorem ordered_iff (hds : ∀ d ∈ ds, d.Valid) :
    ds.Pairwise (fun d e => d.address ≤ e.address) ∧ ds.Pairwise (fun d e => ¬ d.Overlaps e) ↔ Ordered ds := by
  rw [← List.pairwise_and_iff]
  refine List.Pairwise.iff_of_mem ?_
  intro d e hd he
  have hdn := Descriptor.valid_iff.1 (hds d hd)
  have hen := Descriptor.valid_iff.1 (hds e he)
  rw [UInt64.le_iff_toNat_le, show d.address.toNat = d.lo from rfl, show e.address.toNat = e.lo from rfl]
  unfold Descriptor.Overlaps
  omega

theorem ordered_remains (hov : overlay.Valid) (hds : ∀ d ∈ ds, d.Valid) (hordered : Ordered ds) :
    Ordered (ds.flatMap (remains overlay)) := by
  refine List.pairwise_flatMap.2 ⟨?_, ?_⟩
  · intro d hd
    rw [remains]
    split_ifs with hin hl hr hr
    · obtain ⟨h1, h2⟩ := left_span hl
      obtain ⟨h3, h4⟩ := right_span hov (hds d hd) hr
      have hovn := Descriptor.valid_iff.1 hov
      refine List.pairwise_pair.2 ?_
      omega
    · exact List.pairwise_singleton _ _
    · exact List.pairwise_singleton _ _
    · exact List.Pairwise.nil
    · exact List.pairwise_singleton _ _
  · refine List.Pairwise.imp_of_mem (fun {d e} hd he hde x hx y hy => ?_) hordered
    have hxs := remains_span hov (hds d hd) hx
    have hys := remains_span hov (hds e he) hy
    omega

theorem ordered_carve (hov : overlay.Valid) (hds : ∀ d ∈ ds, d.Valid) (hordered : Ordered ds) :
    Ordered (carve overlay ds false) := by
  obtain ⟨pre, post, hcarve, happend, hpre, hpost⟩ := carve_eq hov hds
  have hremains := ordered_remains hov hds hordered
  have hside : ∀ e ∈ pre ++ post, e.lo < e.hi ∧ (e.hi ≤ overlay.lo ∨ overlay.hi ≤ e.lo) := by
    intro e he
    rw [happend] at he
    obtain ⟨x, hx, hex⟩ := List.mem_flatMap.1 he
    have hspan := remains_span hov (hds x hx) hex
    exact ⟨hspan.2.1, hspan.2.2.2⟩
  have hovn := Descriptor.valid_iff.1 hov
  rw [← happend] at hremains
  obtain ⟨hpre', hpost', hcross⟩ := List.pairwise_append.1 hremains
  rw [hcarve]
  refine List.pairwise_append.2 ⟨hpre', List.pairwise_cons.2 ⟨?_, hpost'⟩, ?_⟩
  · intro e he
    have hlow := hpost hordered e he
    have hsides := hside e (List.mem_append_right _ he)
    omega
  · intro d hd e he
    rcases List.mem_cons.1 he with rfl | he
    · have hlow := hpre d hd
      have hsides := hside d (List.mem_append_left _ hd)
      omega
    · exact hcross d hd e he

/-! ## `MemoryMapConfigOverlayDescriptor` -/

/-- What the overlay makes of a list of descriptors: itself, and outside of it the descriptors that were there. -/
structure IsCarved (overlay : Descriptor) (ds out : List Descriptor) : Prop where
  once : ∃ pre post, out = pre ++ overlay :: post ∧ overlay ∉ pre ++ post ∧ ∀ e ∈ pre ++ post, ¬ e.Overlaps overlay
  pos : ∀ e ∈ out, e.length ≠ 0
  covers : ∀ a, ¬ overlay.Covers a → (out.filter fun e => e.Covers a).map Descriptor.metadata =
    (ds.filter fun e => e.Covers a).map Descriptor.metadata
  sorted : ds.Pairwise (fun d e => d.address ≤ e.address) ∧ ds.Pairwise (fun d e => ¬ d.Overlaps e) →
    out.Pairwise (fun d e => d.address ≤ e.address) ∧ out.Pairwise (fun d e => ¬ d.Overlaps e)

theorem flatMap_covers (hov : overlay.Valid) (hds : ∀ d ∈ ds, d.Valid) {a : Nat} (ha : ¬ overlay.Covers a) :
    ((ds.flatMap (remains overlay)).filter fun e => e.Covers a).map Descriptor.metadata =
      (ds.filter fun e => e.Covers a).map Descriptor.metadata := by
  induction ds with
  | nil => rfl
  | cons d ds ih =>
    obtain ⟨hd, hds⟩ := List.forall_mem_cons.1 hds
    rw [List.flatMap_cons, List.filter_append, List.map_append, remains_covers hov hd ha, ih hds, ← List.map_append,
      ← List.filter_append, List.singleton_append]

theorem isCarved_carve (hov : overlay.Valid) (hds : ∀ d ∈ ds, d.Valid) : IsCarved overlay ds (carve overlay ds false) := by
  have hvalid : ∀ e ∈ carve overlay ds false, e.Valid := carve_valid hov hds
  have hordered := ordered_carve hov hds
  obtain ⟨pre, post, hcarve, happend, -, -⟩ := carve_eq hov hds
  have hbeside : ∀ e ∈ pre ++ post, ¬ e.Overlaps overlay := by
    intro e he
    rw [happend] at he
    obtain ⟨d, hd, hed⟩ := List.mem_flatMap.1 he
    have hspan := remains_span hov (hds d hd) hed
    unfold Descriptor.Overlaps
    omega
  refine ⟨⟨pre, post, hcarve, ?_, hbeside⟩, fun e he => (hvalid e he).pos, ?_, ?_⟩
  · intro hmem
    have hovn := Descriptor.valid_iff.1 hov
    exact hbeside overlay hmem ⟨hovn.1, hovn.1⟩
  · intro a ha
    rw [hcarve, List.filter_append, List.filter_cons_of_neg (by simpa using ha), ← List.filter_append, happend,
      flatMap_covers hov hds ha]
  · intro h
    exact (ordered_iff hvalid).2 (hordered ((ordered_iff hds).1 h))

/-- **The overlay carves itself out of the descriptors**, and nothing else. -/
theorem overlayDescriptor_carves (cap : Nat) (overlay : Descriptor) (b : Buf Descriptor) (workspace : List Descriptor)
    (hcap : cap ≤ b.slots.length) (hws : cap ≤ workspace.length) (hds : ∀ d ∈ b.slots.take b.count, d.Valid)
    (hov : overlay.Valid) {b' : Buf Descriptor} {ws : List Descriptor}
    (h : memoryMapConfigOverlayDescriptor cap overlay b workspace = some (.success, (b', ws))) :
    IsCarved overlay (b.slots.take b.count) (b'.slots.take b'.count) := by
  have hb : b.count ≤ cap := by
    by_contra hmany
    rw [memoryMapConfigOverlayDescriptor, if_pos (by omega)] at h
    simp at h
  rw [memoryMapConfigOverlayDescriptor_eq b workspace hb hcap hws hov.noWrap rfl] at h
  split_ifs at h with hfit
  · obtain ⟨rfl, -⟩ : ⟨overwrite b.slots 0 (carve overlay (b.slots.take b.count) false), _⟩ = b' ∧ _ = ws := by
      simpa using h
    have htake : (overwrite b.slots 0 (carve overlay (b.slots.take b.count) false)).take
        (carve overlay (b.slots.take b.count) false).length = carve overlay (b.slots.take b.count) false := by
      simp [overwrite]
    rw [htake]
    exact isCarved_carve hov hds
  · simp at h

/-- A region in the middle of a page range of four. -/
def middlePage : Descriptor := { ramPartition 0x2000 0x1000 with name := pStoreName }

theorem overlayDescriptor_carves_middle : IsCarved middlePage [ramPartition 0x1000 0x4000]
    [ramPartition 0x1000 0x1000, middlePage, ramPartition 0x3000 0x2000] := by
  have hrun : memoryMapConfigOverlayDescriptor 3 middlePage
      ⟨[ramPartition 0x1000 0x4000, zeroDescriptor, zeroDescriptor], 1⟩ [zeroDescriptor, zeroDescriptor, zeroDescriptor] =
      some (.success, (⟨[ramPartition 0x1000 0x1000, middlePage, ramPartition 0x3000 0x2000], 3⟩,
        [ramPartition 0x1000 0x1000, middlePage, ramPartition 0x3000 0x2000])) := by decide +kernel
  exact overlayDescriptor_carves 3 middlePage _ _ (by decide) (by decide) (by decide +kernel) (by decide +kernel) hrun

theorem length_carve (hov : overlay.Valid) (hds : ∀ d ∈ ds, d.Valid) :
    (carve overlay ds false).length = (carved overlay ds).length := by
  obtain ⟨pre, post, hcarve, happend, -, -⟩ := carve_eq hov hds
  rw [hcarve, carved, List.length_cons, ← happend, List.length_append, List.length_append, List.length_cons]
  omega

/-- **The overlay is refused** only if it wraps or what it leaves has no room; then the descriptors are as they were.
The workspace is not written from the capacity on. -/
theorem overlayDescriptor_atomic (cap : Nat) (overlay : Descriptor) (b : Buf Descriptor) (workspace : List Descriptor)
    (hb : b.count ≤ cap) (hcap : cap ≤ b.slots.length) (hws : cap ≤ workspace.length)
    (hds : ∀ d ∈ b.slots.take b.count, d.Valid) (hpos : overlay.length ≠ 0) :
    ∃ status b' ws, memoryMapConfigOverlayDescriptor cap overlay b workspace = some (status, (b', ws)) ∧
      (status = .compromisedData ↔ 2 ^ 64 ≤ overlay.hi) ∧
      (overlay.hi < 2 ^ 64 →
        (status = .outOfResources ↔ cap < (carved overlay (b.slots.take b.count)).length) ∧
        (status = .success ↔ (carved overlay (b.slots.take b.count)).length ≤ cap)) ∧
      (status ≠ .success → b' = b) ∧ ws.length = workspace.length ∧ ∀ k, cap ≤ k → ws[k]? = workspace[k]? := by
  have hwraps : overlay.address ≤ 0xFFFFFFFFFFFFFFFF - overlay.length ↔ overlay.hi < 2 ^ 64 := by
    constructor
    · intro h
      exact (Descriptor.valid_iff.1 ⟨hpos, h⟩).2
    · intro h
      refine (Descriptor.valid_iff.2 ⟨?_, h⟩).noWrap
      have hne : overlay.length.toNat ≠ 0 := fun h0 => hpos (UInt64.toNat_inj.1 h0)
      unfold Descriptor.lo Descriptor.hi
      omega
  by_cases hwrap : overlay.address ≤ 0xFFFFFFFFFFFFFFFF - overlay.length
  · have hov : overlay.Valid := ⟨hpos, hwrap⟩
    have hfits := hwraps.1 hwrap
    rw [memoryMapConfigOverlayDescriptor_eq b workspace hb hcap hws hwrap rfl, ← length_carve hov hds]
    generalize carve overlay (b.slots.take b.count) false = out
    by_cases hfit : out.length ≤ cap
    · rw [if_pos hfit]
      refine ⟨_, _, _, rfl, ?_, fun _ => ⟨?_, ?_⟩, fun h => absurd rfl h, length_overwrite (by omega), ?_⟩
      · simpa using hfits
      · simpa using hfit
      · simpa using hfit
      · intro k hk
        exact getElem?_overwrite_of_outside (by omega) (.inr (by omega))
    · rw [if_neg hfit]
      have hlen : (out.take cap).length = cap := by
        rw [List.length_take]
        omega
      refine ⟨_, _, _, rfl, ?_, fun _ => ⟨?_, ?_⟩, fun _ => rfl, length_overwrite (by omega), ?_⟩
      · simpa using hfits
      · simpa using hfit
      · simpa using hfit
      · intro k hk
        exact getElem?_overwrite_of_outside (by omega) (.inr (by omega))
  · have hover : 2 ^ 64 ≤ overlay.hi := Nat.le_of_not_lt fun h => hwrap (hwraps.2 h)
    refine ⟨.compromisedData, b, workspace, ?_, ?_, fun h => absurd h (by omega), fun _ => rfl, rfl, fun _ _ => rfl⟩
    · rw [memoryMapConfigOverlayDescriptor, if_neg (by omega), if_pos (UInt64.not_le.1 hwrap)]
    · simpa using hover

/-- The same with room for two. -/
theorem overlayDescriptor_atomic_two :
    ∃ b' ws, memoryMapConfigOverlayDescriptor 2 middlePage ⟨[ramPartition 0x1000 0x4000, zeroDescriptor], 1⟩
        [zeroDescriptor, zeroDescriptor] = some (.outOfResources, (b', ws)) ∧
      b' = ⟨[ramPartition 0x1000 0x4000, zeroDescriptor], 1⟩ := by
  obtain ⟨status, b', ws, hrun, -, hstatus, hsame, -⟩ := overlayDescriptor_atomic 2 middlePage
    ⟨[ramPartition 0x1000 0x4000, zeroDescriptor], 1⟩ [zeroDescriptor, zeroDescriptor] (by decide) (by decide) (by decide)
    (by decide +kernel) (by decide)
  obtain rfl : status = .outOfResources := (hstatus (by decide)).1.2 (by decide +kernel)
  exact ⟨b', ws, hrun, hsame (by decide)⟩

end Andromeda
