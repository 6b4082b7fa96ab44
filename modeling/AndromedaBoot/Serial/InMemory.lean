import AndromedaBoot.Lib.ByteMemory
import AndromedaBoot.MemoryMap.PStore

/-!
# The console in memory (InMemorySerialPortLib.c)

The log is a ring in the PStore region. The last word of the region holds the offset of the next byte, and the ring is
what is in front of it.

| here | there |
| --- | --- |
| `ringSize`, `offsetWord` | `size` and `offset`, :45-47 |
| `memPutchar` | `mem_putchar`, :43 |
| `serialPortWrite` | `SerialPortWrite`, :76 |

A remainder by zero ends a run (`none`). The functions also give the stores they make, so that a store of what stands
there already counts. Interrupts and caches are not modelled.
-/

namespace Andromeda

open ByteMemory

/-- Bytes stored from an address on. -/
structure Store where
  address : BitVec 64
  size : Nat
deriving DecidableEq

/-- `PStore.Length - sizeof(UINTN)`. -/
def ringSize (pStore : Descriptor) : BitVec 64 := pStore.length.toBitVec - 8#64

/-- The address of the offset. -/
def offsetWord (pStore : Descriptor) : BitVec 64 := pStore.address.toBitVec + ringSize pStore

/-- `mem_putchar` (:43). -/
def memPutchar (pStore : Descriptor) (m : ByteMemory) (c : BitVec 8) : Option (ByteMemory × List Store) :=
  if ringSize pStore = 0 then none
  else
    let m₁ := m.write64 (offsetWord pStore) (m.read64 (offsetWord pStore) % ringSize pStore)
    let byte := pStore.address.toBitVec + m₁.read64 (offsetWord pStore)
    let m₂ := m₁.writeBytes byte [c]
    let m₃ := m₂.write64 (offsetWord pStore) ((m₂.read64 (offsetWord pStore) + 1) % ringSize pStore)
    some (m₃, [⟨offsetWord pStore, 8⟩, ⟨byte, 1⟩, ⟨offsetWord pStore, 8⟩])

/-- `SerialPortWrite` (:76). -/
def serialPortWrite (pStore : Descriptor) : List (BitVec 8) → ByteMemory → Option (ByteMemory × List Store)
  | [], m => some (m, [])
  | c :: buffer, m => do
    let (m, stores) ← memPutchar pStore m c
    let (m, rest) ← serialPortWrite pStore buffer m
    some (m, stores ++ rest)

/-- One call after the other. -/
def serialPortWrites (pStore : Descriptor) : List (List (BitVec 8)) → ByteMemory → Option (ByteMemory × List Store)
  | [], m => some (m, [])
  | buffer :: calls, m => do
    let (m, stores) ← serialPortWrite pStore buffer m
    let (m, rest) ← serialPortWrites pStore calls m
    some (m, stores ++ rest)

/-- The stored bytes are all of the region. -/
def Store.Within (pStore : Descriptor) (s : Store) : Prop :=
  ∀ i < s.size, pStore.Covers (s.address + BitVec.ofNat 64 i).toNat

/-- A run goes through without a remainder by zero and stores in the region only. -/
def StaysWithin (pStore : Descriptor) (run : Option (ByteMemory × List Store)) : Prop :=
  ∃ m stores, run = some (m, stores) ∧ ∀ s ∈ stores, s.Within pStore

variable {p : Descriptor} {m : ByteMemory} {c : BitVec 8} {buffer : List (BitVec 8)} {calls : List (List (BitVec 8))}

/-! ## One byte -/

theorem toNat_ringSize (h : 8 < p.length.toNat) : (ringSize p).toNat = p.length.toNat - 8 := by
  unfold ringSize
  have hlen : p.length.toBitVec.toNat = p.length.toNat := rfl
  bv_omega

/-- With room for a byte in front of the offset, a byte is stored in the region. -/
theorem memPutchar_stays (hp : p.Valid) (h : 8 < p.length.toNat) (m : ByteMemory) (c : BitVec 8) :
    StaysWithin p (memPutchar p m c) := by
  have hsize := toNat_ringSize h
  have hspan := Descriptor.valid_iff.1 hp
  have haddress : p.address.toBitVec.toNat = p.lo := rfl
  have hhi : p.hi = p.lo + p.length.toNat := rfl
  have hword : (⟨offsetWord p, 8⟩ : Store).Within p := by
    intro i hi
    unfold Descriptor.Covers offsetWord
    simp only at hi
    bv_omega
  rw [memPutchar, if_neg (by bv_omega)]
  refine ⟨_, _, rfl, List.forall_mem_cons.2 ⟨hword, List.forall_mem_cons.2 ⟨?_, List.forall_mem_singleton.2 hword⟩⟩⟩
  -- the offset is reduced before it is used
  rw [read64_write64]
  have hmod : (m.read64 (offsetWord p) % ringSize p).toNat < (ringSize p).toNat := by
    rw [BitVec.toNat_umod]
    exact Nat.mod_lt _ (by omega)
  intro i hi
  unfold Descriptor.Covers
  simp only at hi
  bv_omega

/-- Without it, the first byte is a remainder by zero or a store in front of the region. -/
theorem memPutchar_leaves (hp : p.Valid) (h : ¬ 8 < p.length.toNat) (m : ByteMemory) (c : BitVec 8) {m' : ByteMemory}
    {stores : List Store} (hput : memPutchar p m c = some (m', stores)) : ∃ s ∈ stores, ¬ s.Within p := by
  rw [memPutchar] at hput
  split_ifs at hput with hzero
  obtain ⟨-, rfl⟩ := Prod.mk.inj (Option.some.inj hput)
  refine ⟨⟨offsetWord p, 8⟩, List.mem_cons_self, fun hwithin => hzero ?_⟩
  have hspan := Descriptor.valid_iff.1 hp
  have haddress : p.address.toBitVec.toNat = p.lo := rfl
  have hlen : p.length.toBitVec.toNat = p.length.toNat := rfl
  have hhi : p.hi = p.lo + p.length.toNat := rfl
  have hfirst := hwithin 0 (show 0 < 8 by decide)
  have hlast := hwithin 7 (show 7 < 8 by decide)
  unfold Descriptor.Covers offsetWord ringSize at hfirst hlast
  unfold ringSize
  bv_omega

/-! ## Whole runs -/

/-- Two parts of a run. -/
theorem staysWithin_bind {run : Option (ByteMemory × List Store)} {next : ByteMemory → Option (ByteMemory × List Store)} :
    StaysWithin p (do
      let (m, stores) ← run
      let (m, rest) ← next m
      some (m, stores ++ rest)) ↔
    ∃ m stores, run = some (m, stores) ∧ (∀ s ∈ stores, s.Within p) ∧ StaysWithin p (next m) := by
  constructor
  · rintro ⟨m', stores, hrun, hwithin⟩
    obtain ⟨⟨m, first⟩, hfirst, hrun⟩ := Option.bind_eq_some_iff.1 hrun
    obtain ⟨⟨m₂, rest⟩, hrest, hrun⟩ := Option.bind_eq_some_iff.1 hrun
    obtain ⟨rfl, rfl⟩ := Prod.mk.inj (Option.some.inj hrun)
    obtain ⟨hwithin₁, hwithin₂⟩ := List.forall_mem_append.1 hwithin
    exact ⟨m, first, hfirst, hwithin₁, m₂, rest, hrest, hwithin₂⟩
  · rintro ⟨m, first, rfl, hwithin₁, m₂, rest, hrest, hwithin₂⟩
    exact ⟨m₂, first ++ rest, by simp [hrest], List.forall_mem_append.2 ⟨hwithin₁, hwithin₂⟩⟩

theorem serialPortWrite_stays_iff (hp : p.Valid) (buffer : List (BitVec 8)) (m : ByteMemory) :
    StaysWithin p (serialPortWrite p buffer m) ↔ 8 < p.length.toNat ∨ buffer = [] := by
  induction buffer generalizing m with
  | nil => exact ⟨fun _ => .inr rfl, fun _ => ⟨m, [], rfl, by simp⟩⟩
  | cons c buffer ih =>
    rw [serialPortWrite, staysWithin_bind]
    constructor
    · rintro ⟨m', stores, hput, hwithin, -⟩
      refine .inl ?_
      by_contra hshort
      obtain ⟨s, hs, hout⟩ := memPutchar_leaves hp hshort m c hput
      exact hout (hwithin s hs)
    · rintro (hroom | hnil)
      · obtain ⟨m', stores, hput, hwithin⟩ := memPutchar_stays hp hroom m c
        exact ⟨m', stores, hput, hwithin, (ih m').2 (.inl hroom)⟩
      · cases hnil

/-- Any calls one after the other, from any memory. -/
theorem serialPortWrites_stays_iff (hp : p.Valid) (calls : List (List (BitVec 8))) (m : ByteMemory) :
    StaysWithin p (serialPortWrites p calls m) ↔ 8 < p.length.toNat ∨ ∀ buffer ∈ calls, buffer = [] := by
  induction calls generalizing m with
  | nil => exact ⟨fun _ => .inr (by simp), fun _ => ⟨m, [], rfl, by simp⟩⟩
  | cons buffer calls ih =>
    rw [serialPortWrites, staysWithin_bind]
    constructor
    · rintro ⟨m', stores, hwrite, hwithin, hrest⟩
      rcases (serialPortWrite_stays_iff hp buffer m).1 ⟨m', stores, hwrite, hwithin⟩ with hroom | hnil
      · exact .inl hroom
      · rcases (ih m').1 hrest with hroom | hempty
        · exact .inl hroom
        · exact .inr (List.forall_mem_cons.2 ⟨hnil, hempty⟩)
    · intro h
      have hfirst : 8 < p.length.toNat ∨ buffer = [] := h.imp_right fun hall => hall buffer List.mem_cons_self
      obtain ⟨m', stores, hwrite, hwithin⟩ := (serialPortWrite_stays_iff hp buffer m).2 hfirst
      exact ⟨m', stores, hwrite, hwithin, (ih m').2 (h.imp_right fun hall => (List.forall_mem_cons.1 hall).2)⟩

/-- A PStore region the configuration asks for and the map accepts, with the other regions of the map. -/
structure AcceptedPStore (st : BootConfig) (banks : List DdrBankRegion) (before after : List Descriptor) (p : Descriptor) :
    Prop where
  loaded : memoryMapConfigLoadPStoreDescriptor st = .ok p
  placed : memoryMapConfigValidatePStorePlacement (before ++ p :: after) banks = .success

/-- **Logging into an accepted region** goes without a remainder by zero and stays in the region if and only if the
region has more than eight bytes, or nothing is logged. -/
theorem console_stays_iff {st : BootConfig} {banks : List DdrBankRegion} {before after : List Descriptor} {p : Descriptor}
    (h : AcceptedPStore st banks before after p) (calls : List (List (BitVec 8))) (m : ByteMemory) :
    StaysWithin p (serialPortWrites p calls m) ↔ 8 < p.length.toNat ∨ ∀ buffer ∈ calls, buffer = [] :=
  serialPortWrites_stays_iff (memoryMapConfigLoadPStoreDescriptor_ok h.loaded).1 calls m

/-- A PStore region of the given size at `0x80000000`. -/
def pStoreOf (length : UInt64) : Descriptor where
  name := pStoreName
  address := 0x80000000
  length := length
  hobOption := .addMem
  resourceType := .memoryReserved
  resourceAttribute := .sysMemCap
  memoryType := .reservedMemoryType
  armAttributes := .writeThrough

theorem console_stays_iff_nine :
    StaysWithin (pStoreOf 9) (serialPortWrites (pStoreOf 9) [[0x41#8, 0x42#8], [0x43#8]] fun _ => 0xFF#8) := by
  have haccepted : AcceptedPStore
      ⟨some (ascii "[AndromedaUefi]\nPStoreAddress = 0x80000000\nPStoreSize = 9"), none⟩ [⟨0x80000000, 0x1000⟩] [] []
      (pStoreOf 9) := ⟨by decide +kernel, by decide +kernel⟩
  exact (console_stays_iff haccepted _ _).2 (.inl (by decide))

/-- A region of eight bytes is accepted, and the first byte is a remainder by zero. -/
theorem console_divides_by_zero :
    AcceptedPStore ⟨some (ascii "[AndromedaUefi]\nPStoreAddress = 0x80000000\nPStoreSize = 8"), none⟩
        [⟨0x80000000, 0x1000⟩] [] [] (pStoreOf 8) ∧
      serialPortWrites (pStoreOf 8) [[0x41#8]] (fun _ => 0) = none :=
  ⟨⟨by decide +kernel, by decide +kernel⟩, rfl⟩

end Andromeda
