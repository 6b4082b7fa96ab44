import AndromedaBoot.BootConfig.Reader
import AndromedaBoot.Lib.Fill
import AndromedaBoot.MemoryMap.Descriptor

/-!
# The PStore region (QcomUefiPlatMemoryMapLib.c:156-370)

With `USE_MEMORY_FOR_SERIAL_OUTPUT` the log region named by `PStoreAddress` and `PStoreSize` is carved
out of the configured map, and its placement is checked once the whole map is loaded.

| here | there |
| --- | --- |
| `memoryMapConfigLoadPStoreDescriptor` | :158 |
| `overlayLoop`, `memoryMapConfigOverlayDescriptor` | :208-302 |
| `memoryMapConfigValidatePStorePlacement` | :305-370 |

`overlayLoop_spec` says that the overlay appends `carve`, a list, to the workspace.
-/

namespace Andromeda

open Fill

/-! ## `MemoryMapConfigLoadPStoreDescriptor` -/

def pStoreName : RegionName := ⟨⟨ascii "PStore", by decide⟩, by decide⟩

/-- `MemoryMapConfigLoadPStoreDescriptor` (:158). `EFI_PHYSICAL_ADDRESS` has 64 bits, so the check that
the address survived the conversion (:180) cannot fail. -/
def memoryMapConfigLoadPStoreDescriptor (st : BootConfig) : Except EfiStatus Descriptor :=
  let section_ : CStr := ⟨ascii "AndromedaUefi", by decide⟩
  match getAndromedaBootConfigUint64 st (some section_) (some ⟨ascii "PStoreAddress", by decide⟩) (some 0) with
  | (.success, some address) =>
    match getAndromedaBootConfigUint64 st (some section_) (some ⟨ascii "PStoreSize", by decide⟩) (some 0) with
    | (.success, some length) =>
      if length = 0 ∨ address > 0xFFFFFFFFFFFFFFFF - length then .error .compromisedData
      else
        .ok {
          name := pStoreName
          address := address
          length := length
          hobOption := .addMem
          resourceType := .memoryReserved
          resourceAttribute := .sysMemCap
          memoryType := .reservedMemoryType
          armAttributes := .writeThrough }
    | (status, _) => .error status
  | (status, _) => .error status

/-! ## `MemoryMapConfigOverlayDescriptor` -/

/-- `Workspace[OutputCount++] = …`, under the capacity check that precedes each of them. -/
def emit (descriptorCapacity : Nat) (condition : Bool) (w : Buf Descriptor) (descriptor : Descriptor) :
    Option (EfiStatus × Buf Descriptor) :=
  if condition then push .success .outOfResources descriptorCapacity w descriptor else some (.success, w)

/-- The loop over the descriptors and the insertion behind it (:239-297). -/
def overlayLoop (descriptorCapacity : Nat) (overlay : Descriptor) :
    List Descriptor → Bool → Buf Descriptor → Option (EfiStatus × Buf Descriptor)
  | [], overlayInserted, w => emit descriptorCapacity (!overlayInserted) w overlay
  | descriptor :: rest, overlayInserted, w =>
    let overlayEnd := overlay.end_
    let descriptorEnd := descriptor.end_
    let insert := !overlayInserted && descriptor.address ≥ overlay.address
    let overlayInserted := overlayInserted || insert
    andThen .success (emit descriptorCapacity insert w overlay) fun w =>
    if descriptor.address < overlayEnd && overlay.address < descriptorEnd then
      andThen .success (emit descriptorCapacity (descriptor.address < overlay.address) w
        { descriptor with length := overlay.address - descriptor.address }) fun w =>
      andThen .success (emit descriptorCapacity (!overlayInserted) w overlay) fun w =>
      andThen .success (emit descriptorCapacity (descriptorEnd > overlayEnd) w
        { descriptor with address := overlayEnd, length := descriptorEnd - overlayEnd }) fun w =>
      overlayLoop descriptorCapacity overlay rest true w
    else
      andThen .success (push .success .outOfResources descriptorCapacity w descriptor) fun w =>
      overlayLoop descriptorCapacity overlay rest overlayInserted w

/-- `MemoryMapConfigOverlayDescriptor` (:208) on the array `b` and the array `workspace`, which are two
arrays and not shorter than the capacity. -/
def memoryMapConfigOverlayDescriptor (descriptorCapacity : Nat) (overlay : Descriptor)
    (b : Buf Descriptor) (workspace : List Descriptor) :
    Option (EfiStatus × (Buf Descriptor × List Descriptor)) :=
  if b.count > descriptorCapacity then some (.invalidParameter, (b, workspace))
  else if overlay.address > 0xFFFFFFFFFFFFFFFF - overlay.length then some (.compromisedData, (b, workspace))
  else
    match overlayLoop descriptorCapacity overlay (b.slots.take b.count) false ⟨workspace, 0⟩ with
    | none => none
    | some (status, w) =>
      if status ≠ .success then some (status, (b, w.slots))
      -- CopyMem (Descriptors, Workspace, OutputCount * sizeof (*Descriptors))
      else if w.count ≤ b.slots.length then
        some (.success, (⟨overwrite b.slots 0 (w.slots.take w.count), w.count⟩, w.slots))
      else none

/-! ## `MemoryMapConfigValidatePStorePlacement` -/

/-- `AsciiStriCmp (Descriptor->Name, "PStore") == 0`. -/
def isPStore (descriptor : Descriptor) : Bool :=
  asciiStriCmp descriptor.name.bytes pStoreName.bytes == 0

/-- The counting loop (:326-333): the last index with the name, and how many there are. -/
def findPStore : List Descriptor → Nat → Option Nat → Nat → Option Nat × Nat
  | [], _, pStore, pStoreCount => (pStore, pStoreCount)
  | descriptor :: rest, index, pStore, pStoreCount =>
    if isPStore descriptor then findPStore rest (index + 1) (some index) (pStoreCount + 1)
    else findPStore rest (index + 1) pStore pStoreCount

/-- `MemoryMapConfigValidatePStorePlacement` (:305). -/
def memoryMapConfigValidatePStorePlacement (descriptors : List Descriptor)
    (ddrBankRegions : List DdrBankRegion) :
    EfiStatus :=
  match findPStore descriptors 0 none 0 with
  | (some pStoreIndex, 1) =>
    let pStore := descriptors.getD pStoreIndex zeroDescriptor
    let pStoreEnd := pStore.address + pStore.length
    let pStoreInDdrBank := ddrBankRegions.any fun region =>
      pStore.address ≥ region.base && pStoreEnd ≤ region.base + region.length
    if !pStoreInDdrBank then .compromisedData
    else if descriptors.zipIdx.any fun (descriptor, index) =>
        index != pStoreIndex && descriptor.address < pStoreEnd &&
          pStore.address < descriptor.address + descriptor.length then .compromisedData
    else .success
  | _ => .compromisedData

/-! ## The PStore descriptor -/

/-- The PStore descriptor is a valid region, and it bears the name. -/
theorem memoryMapConfigLoadPStoreDescriptor_ok {st : BootConfig} {p : Descriptor}
    (h : memoryMapConfigLoadPStoreDescriptor st = .ok p) : p.Valid ∧ p.name = pStoreName := by
  simp only [memoryMapConfigLoadPStoreDescriptor] at h
  split at h
  · split at h
    · split_ifs at h with hbad
      obtain ⟨hpos, hwrap⟩ := not_or.1 hbad
      obtain rfl := Except.ok.inj h
      exact ⟨⟨hpos, UInt64.not_lt.1 hwrap⟩, rfl⟩
    · simp at h
  · simp at h

theorem getAndromedaBootConfigUint64_success {st : BootConfig} {section_ key : Option CStr} {v : UInt64}
    {r : Option UInt64} (h : getAndromedaBootConfigUint64 st section_ key (some v) = (.success, r)) : ∃ w, r = some w := by
  simp only [getAndromedaBootConfigUint64, reduceCtorEq, ↓reduceIte] at h
  split_ifs at h with h1 h2
  · exact absurd (congrArg Prod.fst h) h1
  · simp at h
  · split at h
    · simp at h
    · simp only [Prod.mk.injEq, true_and] at h
      exact ⟨_, h.symm⟩

/-- A failure of the PStore reader is a failure. -/
theorem memoryMapConfigLoadPStoreDescriptor_error {st : BootConfig} {s : EfiStatus}
    (h : memoryMapConfigLoadPStoreDescriptor st = .error s) : s ≠ .success := by
  rintro rfl
  simp only [memoryMapConfigLoadPStoreDescriptor] at h
  split at h
  · split at h
    · split_ifs at h
      simp at h
    · rename_i r hne heq
      obtain rfl := Except.error.inj h
      obtain ⟨v, rfl⟩ := getAndromedaBootConfigUint64_success heq
      exact hne v rfl rfl
  · rename_i r hne heq
    obtain rfl := Except.error.inj h
    obtain ⟨v, rfl⟩ := getAndromedaBootConfigUint64_success heq
    exact hne v rfl rfl

/-! ## What the overlay appends -/

/-- A list of one descriptor, or of none. -/
def optional (condition : Bool) (d : Descriptor) : List Descriptor := if condition then [d] else []

/-- The part of a descriptor in front of the overlay. -/
def leftPart (overlay d : Descriptor) : Descriptor := { d with length := overlay.address - d.address }

/-- The part of a descriptor behind the overlay. -/
def rightPart (overlay d : Descriptor) : Descriptor :=
  { d with address := overlay.end_, length := d.end_ - overlay.end_ }

/-- What the overlay makes of a list of descriptors. -/
def carve (overlay : Descriptor) : List Descriptor → Bool → List Descriptor
  | [], inserted => optional (!inserted) overlay
  | d :: ds, inserted =>
    let insert := !inserted && d.address ≥ overlay.address
    optional insert overlay ++
    if d.address < overlay.end_ && overlay.address < d.end_ then
      optional (d.address < overlay.address) (leftPart overlay d) ++ (optional (!(inserted || insert)) overlay ++
        (optional (d.end_ > overlay.end_) (rightPart overlay d) ++ carve overlay ds true))
    else d :: carve overlay ds (inserted || insert)

theorem emit_eq (cap : Nat) (c : Bool) (w : Buf Descriptor) (d : Descriptor) :
    emit cap c w d = pushAll .success .outOfResources cap w (optional c d) := by
  unfold emit optional
  split_ifs
  · exact (pushAll_singleton cap w d).symm
  · rfl

/-- The overlay appends the carved list to the workspace. -/
theorem overlayLoop_spec (cap : Nat) (overlay : Descriptor) : ∀ (ds : List Descriptor) (inserted : Bool)
    (w : Buf Descriptor), overlayLoop cap overlay ds inserted w =
      pushAll .success .outOfResources cap w (carve overlay ds inserted)
  | [], inserted, w => emit_eq cap (!inserted) w overlay
  | d :: ds, inserted, w => by
    have ih := overlayLoop_spec cap overlay ds
    simp only [overlayLoop, emit_eq, ih, carve, pushAll_append, leftPart, rightPart]
    congr 1
    funext w'
    by_cases hov : (decide (d.address < overlay.end_) && decide (overlay.address < d.end_)) = true
    · simp only [hov, ↓reduceIte, pushAll_append]
    · simp only [hov, Bool.false_eq_true, ↓reduceIte]
      rfl

/-- **`MemoryMapConfigOverlayDescriptor`** on arrays that are as long as the capacity asks: the carved list replaces the
descriptors when it fits. The workspace holds as much of it as fits. -/
theorem memoryMapConfigOverlayDescriptor_eq {cap : Nat} {overlay : Descriptor} (b : Buf Descriptor)
    (workspace : List Descriptor) (hb : b.count ≤ cap) (hcap : cap ≤ b.slots.length) (hws : cap ≤ workspace.length)
    (hwrap : overlay.address ≤ 0xFFFFFFFFFFFFFFFF - overlay.length) {out : List Descriptor}
    (hout : carve overlay (b.slots.take b.count) false = out) : memoryMapConfigOverlayDescriptor cap overlay b workspace =
      if out.length ≤ cap then some (.success, (⟨overwrite b.slots 0 out, out.length⟩, overwrite workspace 0 out))
      else some (.outOfResources, (b, overwrite workspace 0 (out.take cap))) := by
  have hno : ¬ overlay.address > 0xFFFFFFFFFFFFFFFF - overlay.length := UInt64.not_lt.2 hwrap
  simp only [memoryMapConfigOverlayDescriptor, overlayLoop_spec]
  rw [if_neg (by omega), if_neg hno, pushAll_eq (by decide) _ _ (Nat.zero_le _) hws, hout]
  simp only [Nat.zero_add, Nat.sub_zero]
  by_cases hfit : out.length ≤ cap
  · have htake : (overwrite workspace 0 out).take out.length = out := by simp [overwrite]
    have hroom : out.length ≤ b.slots.length := by omega
    simp only [hfit, ↓reduceIte, List.take_of_length_le hfit, Nat.min_eq_left hfit, ne_eq, not_true_eq_false, hroom, htake]
  · simp only [hfit, ↓reduceIte, ne_eq, reduceCtorEq, not_false_eq_true]

theorem memoryMapConfigOverlayDescriptor_spec {cap : Nat} {overlay : Descriptor} (b : Buf Descriptor)
    (workspace : List Descriptor) (hb : b.count ≤ cap) (hcap : cap ≤ b.slots.length)
    (hws : cap ≤ workspace.length) (hoverlay : overlay.Valid) :
    let out := carve overlay (b.slots.take b.count) false
    ∃ b' ws, memoryMapConfigOverlayDescriptor cap overlay b workspace =
        some (if out.length ≤ cap then .success else .outOfResources, (b', ws)) ∧
      ws.length = workspace.length ∧ b'.slots.length = b.slots.length ∧
      (out.length ≤ cap → b'.slots.take b'.count = out ∧ b'.count = out.length) ∧
      (¬ out.length ≤ cap → b' = b) := by
  intro out
  have heq := memoryMapConfigOverlayDescriptor_eq b workspace hb hcap hws hoverlay.noWrap (show _ = out from rfl)
  by_cases hfit : out.length ≤ cap
  · rw [if_pos hfit] at heq ⊢
    refine ⟨_, _, heq, length_overwrite (by omega), length_overwrite (by omega), fun _ => ⟨?_, rfl⟩, fun h => absurd hfit h⟩
    simp [overwrite, out]
  · rw [if_neg hfit] at heq ⊢
    exact ⟨_, _, heq, length_overwrite (by rw [List.length_take]; omega), rfl, fun h => absurd h hfit, fun _ => rfl⟩

/-! ## Descriptors around the overlay -/

/-- The first place for the overlay: what stands in front of it starts below it. -/
theorem carve_split (overlay : Descriptor) : ∀ ds : List Descriptor,
    ∃ pre post, carve overlay ds false = pre ++ overlay :: post ∧ ∀ d ∈ pre, d.address < overlay.address
  | [] => ⟨[], [], rfl, by simp⟩
  | d :: ds => by
    by_cases hins : d.address ≥ overlay.address
    · simp only [carve, Bool.not_false, hins, decide_true, Bool.and_true, optional, ↓reduceIte]
      exact ⟨[], _, rfl, by simp⟩
    · have hlt : d.address < overlay.address := UInt64.not_le.1 hins
      by_cases hov : (decide (d.address < overlay.end_) && decide (overlay.address < d.end_)) = true
      · simp only [carve, hov, hins, hlt, optional, decide_true, decide_false, Bool.not_false,
          Bool.and_false, Bool.or_false,
          Bool.false_eq_true, ↓reduceIte, List.nil_append]
        exact ⟨[leftPart overlay d], _, rfl, by simp [leftPart, hlt]⟩
      · obtain ⟨pre, post, h1, h2⟩ := carve_split overlay ds
        simp only [carve, hov, hins, optional, decide_false, Bool.and_false, Bool.or_false,
          Bool.false_eq_true, ↓reduceIte, List.nil_append]
        refine ⟨d :: pre, post, by rw [h1]; rfl, ?_⟩
        intro e he
        rcases List.mem_cons.1 he with rfl | he
        · exact hlt
        · exact h2 e he

theorem leftPart_span {overlay d : Descriptor} (h : d.address < overlay.address) :
    (leftPart overlay d).lo = d.lo ∧ (leftPart overlay d).hi = overlay.lo := by
  have hlt := UInt64.lt_iff_toNat_lt.1 h
  refine ⟨rfl, ?_⟩
  change d.address.toNat + (overlay.address - d.address).toNat = overlay.address.toNat
  rw [UInt64.toNat_sub_of_le _ _ (UInt64.le_iff_toNat_le.2 (by omega))]
  omega

theorem rightPart_span {overlay d : Descriptor} (hov : overlay.Valid) (hd : d.Valid)
    (h : overlay.end_ < d.end_) :
    (rightPart overlay d).lo = overlay.hi ∧ (rightPart overlay d).hi = d.hi := by
  have hlt := UInt64.lt_iff_toNat_lt.1 h
  refine ⟨hov.toNat_end, ?_⟩
  change overlay.end_.toNat + (d.end_ - overlay.end_).toNat = d.hi
  rw [UInt64.toNat_sub_of_le _ _ (UInt64.le_iff_toNat_le.2 (by omega)), ← hd.toNat_end]
  omega

theorem mem_optional {c : Bool} {d e : Descriptor} : e ∈ optional c d ↔ c = true ∧ e = d := by
  cases c <;> simp [optional]

/-- An entry of the carved list is the overlay, an untouched descriptor, or what is left of one on either
side of the overlay. -/
theorem mem_carve {overlay e : Descriptor} :
    ∀ {ds : List Descriptor} {inserted : Bool}, e ∈ carve overlay ds inserted →
    e = overlay ∨ ∃ d ∈ ds, e = d ∨ (d.address < overlay.address ∧ e = leftPart overlay d) ∨
      (overlay.end_ < d.end_ ∧ e = rightPart overlay d)
  | [], inserted, h => .inl (mem_optional.1 h).2
  | d :: ds, inserted, h => by
    have hrest : ∀ {inserted}, e ∈ carve overlay ds inserted → e = overlay ∨ ∃ x ∈ d :: ds, e = x ∨
        (x.address < overlay.address ∧ e = leftPart overlay x) ∨
          (overlay.end_ < x.end_ ∧ e = rightPart overlay x) := by
      intro inserted h
      rcases mem_carve h with h | ⟨x, hx, h⟩
      · exact .inl h
      · exact .inr ⟨x, List.mem_cons_of_mem _ hx, h⟩
    by_cases hov : (decide (d.address < overlay.end_) && decide (overlay.address < d.end_)) = true
    · simp only [carve, hov, ↓reduceIte, List.mem_append, mem_optional, decide_eq_true_eq] at h
      rcases h with ⟨-, h⟩ | ⟨hl, h⟩ | ⟨-, h⟩ | ⟨hr, h⟩ | h
      · exact .inl h
      · exact .inr ⟨d, by simp, .inr (.inl ⟨hl, h⟩)⟩
      · exact .inl h
      · exact .inr ⟨d, by simp, .inr (.inr ⟨hr, h⟩)⟩
      · exact hrest h
    · simp only [carve, hov, Bool.false_eq_true, ↓reduceIte, List.mem_append, mem_optional,
        List.mem_cons] at h
      rcases h with ⟨-, h⟩ | h | h
      · exact .inl h
      · exact .inr ⟨d, by simp, .inl h⟩
      · exact hrest h

/-- Everything the overlay leaves is a valid region. -/
theorem carve_valid {overlay : Descriptor} (hov : overlay.Valid) {ds : List Descriptor}
    {inserted : Bool} (hds : ∀ d ∈ ds, d.Valid) : ∀ e ∈ carve overlay ds inserted, e.Valid := by
  intro e he
  have hovn := Descriptor.valid_iff.1 hov
  rcases mem_carve he with rfl | ⟨d, hd, rfl | ⟨hl, rfl⟩ | ⟨hr, rfl⟩⟩
  · exact hov
  · exact hds e hd
  · obtain ⟨h1, h2⟩ := leftPart_span hl
    have hlt : d.lo < overlay.lo := UInt64.lt_iff_toNat_lt.1 hl
    rw [Descriptor.valid_iff]
    omega
  · have hdn := Descriptor.valid_iff.1 (hds d hd)
    obtain ⟨h1, h2⟩ := rightPart_span hov (hds d hd) hr
    have hlt := UInt64.lt_iff_toNat_lt.1 hr
    rw [hov.toNat_end, (hds d hd).toNat_end] at hlt
    rw [Descriptor.valid_iff]
    omega

/-! ## The placement check -/

theorem findPStore_append (xs ys : List Descriptor) (i : Nat) (pStore : Option Nat) (n : Nat) :
    findPStore (xs ++ ys) i pStore n =
      findPStore ys (i + xs.length) (findPStore xs i pStore n).1 (findPStore xs i pStore n).2 := by
  induction xs generalizing i pStore n with
  | nil => rfl
  | cons x xs ih =>
    simp only [List.cons_append, findPStore, List.length_cons]
    split_ifs
    · rw [ih, Nat.add_assoc, Nat.add_comm 1]
    · rw [ih, Nat.add_assoc, Nat.add_comm 1]

theorem findPStore_count (xs : List Descriptor) (i : Nat) (pStore : Option Nat) (n : Nat) :
    (findPStore xs i pStore n).2 = n + xs.countP isPStore := by
  induction xs generalizing i pStore n with
  | nil => rfl
  | cons x xs ih =>
    simp only [findPStore, List.countP_cons]
    split_ifs
    · rw [ih]
      omega
    · rw [ih]
      rfl

theorem findPStore_none {xs : List Descriptor} (h : ∀ d ∈ xs, isPStore d = false) (i : Nat)
    (pStore : Option Nat) (n : Nat) : findPStore xs i pStore n = (pStore, n) := by
  induction xs generalizing i with
  | nil => rfl
  | cons x xs ih =>
    simp only [findPStore, h x (by simp), Bool.false_eq_true, ↓reduceIte]
    exact ih (fun d hd => h d (by simp [hd])) (i + 1)

/-- **What the placement check guarantees** of a list with a PStore region in it: no other region has the
name or overlaps it, and it lies inside a bank. -/
theorem memoryMapConfigValidatePStorePlacement_success {pre post : List Descriptor} {p : Descriptor}
    {banks : List DdrBankRegion} (hp : isPStore p = true)
    (h : memoryMapConfigValidatePStorePlacement (pre ++ p :: post) banks = .success) :
    (∀ d ∈ pre ++ post, isPStore d = false ∧ ¬ (d.address < p.end_ ∧ p.address < d.end_)) ∧
      ∃ r ∈ banks, r.base ≤ p.address ∧ p.end_ ≤ r.base + r.length := by
  have hone : (findPStore (pre ++ p :: post) 0 none 0).2 = 1 := by
    unfold memoryMapConfigValidatePStorePlacement at h
    split at h
    · rename_i heq
      rw [heq]
    · simp at h
  rw [findPStore_count, List.countP_append, List.countP_cons_of_pos hp] at hone
  have hpre : ∀ d ∈ pre, isPStore d = false := by
    have := List.countP_eq_zero.1 (show pre.countP isPStore = 0 by omega)
    exact fun d hd => Bool.eq_false_iff.2 (this d hd)
  have hpost : ∀ d ∈ post, isPStore d = false := by
    have := List.countP_eq_zero.1 (show post.countP isPStore = 0 by omega)
    exact fun d hd => Bool.eq_false_iff.2 (this d hd)
  have hfind : findPStore (pre ++ p :: post) 0 none 0 = (some pre.length, 1) := by
    rw [findPStore_append, findPStore_none hpre, findPStore, if_pos hp, findPStore_none hpost,
      Nat.zero_add]
  have hget : (pre ++ p :: post).getD pre.length zeroDescriptor = p := by simp
  simp only [memoryMapConfigValidatePStorePlacement, hfind, hget] at h
  split_ifs at h with hbank hoverlap
  refine ⟨fun d hd => ⟨?_, fun hov => hoverlap ?_⟩, ?_⟩
  · rcases List.mem_append.1 hd with hd | hd
    · exact hpre d hd
    · exact hpost d hd
  · -- the index of `d` is not that of the PStore region
    rw [List.any_eq_true]
    rcases List.mem_append.1 hd with hd | hd
    · obtain ⟨k, hk, rfl⟩ := List.mem_iff_getElem.1 hd
      refine ⟨(pre[k], k), List.mem_zipIdx_iff_getElem?.2 ?_, ?_⟩
      · rw [List.getElem?_append_left hk, List.getElem?_eq_getElem hk]
      · have hne : (k != pre.length) = true := by
          rw [bne_iff_ne]
          omega
        simpa [hne, Descriptor.end_] using hov
    · obtain ⟨k, hk, rfl⟩ := List.mem_iff_getElem.1 hd
      refine ⟨(post[k], pre.length + 1 + k), List.mem_zipIdx_iff_getElem?.2 ?_, ?_⟩
      · rw [List.getElem?_append_right (by omega),
          show pre.length + 1 + k - pre.length = k + 1 by omega,
          List.getElem?_cons_succ, List.getElem?_eq_getElem hk]
      · have hne : (pre.length + 1 + k != pre.length) = true := by
          rw [bne_iff_ne]
          omega
        simpa [hne, Descriptor.end_] using hov
  · simp only [Bool.not_eq_true', Bool.not_eq_false] at hbank
    obtain ⟨r, hr, hin⟩ := List.any_eq_true.1 hbank
    simp only [ge_iff_le, Bool.and_eq_true, decide_eq_true_eq] at hin
    exact ⟨r, hr, hin⟩

end Andromeda
