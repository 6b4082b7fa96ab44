import AndromedaBoot.Display.DsiCtrl

/-!
# Who uses the display reservation (Surface Duo 2)

The left framebuffer stands at the front, and right behind it the position of its console. The right framebuffer is at
the next multiple of 2 MiB, and the commands for its panel are in the last `0x400` bytes.

| here | there |
| --- | --- |
| `positionWords`, `serialPortInitialize` | `SerialPortInitialize`, FrameBufferSerialPortLib.c:43 |
| `allocateRightFrameBuffer` | `AllocateRightFrameBuffer`, RightDisplayDxe.c:181 |
| `dsiBuffer`, `dsiCtrlSendPacket` | DsiCtrl.c:139-216 |

Nobody knows of the others: the right framebuffer may start on the position, or end in the commands
(`rightFrameBuffer_apart_iff`). `AllocatePages`, which is asked when the region has no room, is a parameter.
-/

namespace Andromeda

open ByteMemory

/-- `PcdMipiFrameBufferWidth`, `PcdMipiFrameBufferHeight` and `PcdMipiFrameBufferPixelBpp` (SurfaceDuo2.dsc:59-61). -/
def mipiWidth : BitVec 32 := 1344
def mipiHeight : BitVec 32 := 1892
def mipiPixelBpp : BitVec 32 := 32

/-- `LeftSize`. -/
def leftSize : BitVec 64 := mipiWidth.setWidth 64 * mipiHeight.setWidth 64 * 4

/-- `PANEL_WIDTH * PANEL_HEIGHT * RIGHT_FB_BYTES_PER_PIXEL`. -/
def rightSize : BitVec 64 := 1344 * 1892 * 4

/-- `ALIGN_VALUE`. -/
def alignValue (value alignment : BitVec 64) : BitVec 64 := value + ((alignment - value) &&& (alignment - 1))

/-- Where an allocation came from. -/
inductive Placement
  | region (address : BitVec 64)
  | pages (address : BitVec 64)

/-- `AllocateRightFrameBuffer` (:181); a region that is not found is zero. -/
def allocateRightFrameBuffer (allocatePages : BitVec 64 → Except EfiStatus (BitVec 64)) (fb : Option Descriptor)
    (size : BitVec 64) : Except EfiStatus Placement :=
  let region := fb.getD zeroDescriptor
  let start := alignValue (region.address.toBitVec + leftSize) 0x200000
  if region.address ≠ 0 ∧ start + size ≤ region.end_.toBitVec then .ok (.region start)
  else (allocatePages ((size >>> 12) + if size &&& 0xFFF = 0 then 0 else 1)).map .pages

/-- `p_Position`. -/
def positionWords (fb : Descriptor) : BitVec 64 :=
  fb.address.toBitVec + (mipiWidth * mipiHeight * mipiPixelBpp / 8).setWidth 64

/-- `m_Initialized` and `p_Position`. -/
structure FbConsole where
  initialized : Bool
  position : BitVec 64

/-- `SerialPortInitialize` (:43). -/
def serialPortInitialize (fb : Except EfiStatus Descriptor) (s : FbConsole) : EfiStatus × FbConsole :=
  if s.initialized then (.success, s)
  else
    match fb with
    | .error status => (status, s)
    | .ok fb => (.success, ⟨true, positionWords fb⟩)

/-- The right framebuffer is in the region, and none of the others' bytes are its own. The position is two words of
64 bits. -/
structure RightApart (fb : Descriptor) (start : BitVec 64) : Prop where
  inside : fb.lo ≤ start.toNat ∧ start.toNat + rightSize.toNat ≤ fb.hi
  left : Apart start rightSize.toNat fb.address.toBitVec leftSize.toNat
  position : ∀ s, s.initialized = false → Apart start rightSize.toNat (serialPortInitialize (.ok fb) s).2.position 16
  commands : Apart start rightSize.toNat (dsiBuffer fb) 0x400
  packets : ∀ hw dataType payload payloadLength m, SentInto fb (packPacket dataType payload payloadLength) m
    (dsiCtrlSendPacket hw (some fb) dataType payload payloadLength m)

/-- From the end of the left framebuffer to the next multiple of 2 MiB. -/
def rightGap (fb : Descriptor) : Nat := (2 ^ 21 - (fb.lo + leftSize.toNat) % 2 ^ 21) % 2 ^ 21

/-- The position fits in front of the right framebuffer, and the commands behind it. -/
def RoomForAll (fb : Descriptor) : Prop :=
  16 ≤ rightGap fb ∧ leftSize.toNat + rightGap fb + rightSize.toNat + 0x400 ≤ fb.length.toNat

instance (fb : Descriptor) : Decidable (RoomForAll fb) := inferInstanceAs (Decidable (_ ∧ _))

variable {fb : Descriptor} {start : BitVec 64} {allocatePages : BitVec 64 → Except EfiStatus (BitVec 64)}

theorem alignValue_eq (value : BitVec 64) :
    alignValue value 0x200000 = value + BitVec.ofNat 64 ((2 ^ 21 - value.toNat % 2 ^ 21) % 2 ^ 21) := by
  rw [alignValue]
  congr 1
  apply BitVec.eq_of_toNat_eq
  rw [BitVec.toNat_and, show ((0x200000 : BitVec 64) - 1).toNat = 2 ^ 21 - 1 from rfl, Nat.and_two_pow_sub_one_eq_mod]
  bv_omega

/-- A region that is taken has an address, and its end is not below that of the framebuffer as the code computes it. -/
theorem allocateRightFrameBuffer_region
    (h : allocateRightFrameBuffer allocatePages (some fb) rightSize = .ok (.region start)) :
    start = fb.address.toBitVec + leftSize + BitVec.ofNat 64 (rightGap fb) := by
  rw [allocateRightFrameBuffer] at h
  dsimp only [Option.getD_some] at h
  by_cases hroom : fb.address ≠ 0 ∧ alignValue (fb.address.toBitVec + leftSize) 0x200000 + rightSize ≤ fb.end_.toBitVec
  · rw [if_pos hroom] at h
    obtain rfl := Placement.region.inj (Except.ok.inj h)
    have hmod : (fb.address.toBitVec + leftSize).toNat % 2 ^ 21 = (fb.lo + leftSize.toNat) % 2 ^ 21 := by
      rw [BitVec.toNat_add, Nat.mod_mod_of_dvd _ (by decide)]
      rfl
    rw [alignValue_eq, hmod]
    rfl
  · rw [if_neg hroom] at h
    cases hpages : allocatePages ((rightSize >>> 12) + if rightSize &&& 0xFFF = 0 then 0 else 1) <;>
      rw [hpages] at h <;> nomatch h

theorem toNat_positionWords (h : fb.lo + leftSize.toNat < 2 ^ 64) : (positionWords fb).toNat = fb.lo + leftSize.toNat := by
  have haddress : fb.address.toBitVec.toNat = fb.lo := rfl
  have hbytes : (mipiWidth * mipiHeight * mipiPixelBpp / 8).setWidth 64 = leftSize := by decide
  rw [positionWords, hbytes]
  bv_omega

theorem toNat_dsiBuffer (hend : fb.hi < 2 ^ 64) (h : 0x400 ≤ fb.hi) : (dsiBuffer fb).toNat = fb.hi - 0x400 := by
  have hnat : fb.end_.toBitVec.toNat = fb.hi := by
    change (fb.address + fb.length).toNat = fb.address.toNat + fb.length.toNat
    rw [UInt64.toNat_add]
    exact Nat.mod_eq_of_lt hend
  rw [dsiBuffer]
  bv_omega

/-- Where the right framebuffer is if the addition does not wrap. -/
theorem toNat_start_of_inside (hstart : start = fb.address.toBitVec + leftSize + BitVec.ofNat 64 (rightGap fb))
    (hinside : fb.lo ≤ start.toNat) : start.toNat = fb.lo + leftSize.toNat + rightGap fb := by
  have haddress : fb.address.toBitVec.toNat = fb.lo := rfl
  have hleft : leftSize.toNat = 10171392 := by decide
  have hgap : rightGap fb < 2 ^ 21 := Nat.mod_lt _ (by decide)
  bv_omega

theorem roomForAll_of_rightApart (hend : fb.hi < 2 ^ 64)
    (hstart : start = fb.address.toBitVec + leftSize + BitVec.ofNat 64 (rightGap fb)) (h : RightApart fb start) :
    RoomForAll fb := by
  have hnat := toNat_start_of_inside hstart h.inside.1
  have hinside := h.inside.2
  have hhi : fb.hi = fb.lo + fb.length.toNat := rfl
  have hleft : leftSize.toNat = 10171392 := by decide
  have hright : rightSize.toNat = 10171392 := by decide
  constructor
  · by_contra hposition
    have hwords := @toNat_positionWords fb (by omega)
    have hfree : Apart start rightSize.toNat (positionWords fb) 16 := h.position ⟨false, 0⟩ rfl
    exact not_apart_of_common (x := start.toNat) (by omega) (by omega) hfree
  · by_contra hroom
    have hbuffer := toNat_dsiBuffer hend (by omega)
    exact not_apart_of_common (x := fb.hi - 0x400) (by omega) (by omega) h.commands

theorem rightApart_of_roomForAll (hend : fb.hi < 2 ^ 64)
    (hstart : start = fb.address.toBitVec + leftSize + BitVec.ofNat 64 (rightGap fb)) (h : RoomForAll fb) :
    RightApart fb start := by
  obtain ⟨hposition, hroom⟩ := h
  have haddress : fb.address.toBitVec.toNat = fb.lo := rfl
  have hhi : fb.hi = fb.lo + fb.length.toNat := rfl
  have hleft : leftSize.toNat = 10171392 := by decide
  have hright : rightSize.toNat = 10171392 := by decide
  have hnat : start.toNat = fb.lo + leftSize.toNat + rightGap fb := by bv_omega
  have hwords := @toNat_positionWords fb (by omega)
  have hbuffer := toNat_dsiBuffer hend (by omega)
  refine ⟨by omega, apart_of_le (by omega) (by omega), ?_, (apart_of_le (by omega) (by omega)).symm, ?_⟩
  · intro s hs
    rw [serialPortInitialize, if_neg (by rw [hs]; decide)]
    exact apart_of_le (show (positionWords fb).toNat + 16 ≤ _ by omega) (by omega)
  · exact fun hw dataType payload payloadLength m => dsiCtrlSendPacket_sentInto hw fb dataType payload payloadLength m

/-- **The users of the reservation are apart** exactly if there is room for all of them. -/
theorem rightFrameBuffer_apart_iff (allocatePages : BitVec 64 → Except EfiStatus (BitVec 64)) (fb : Descriptor)
    (start : BitVec 64) (hend : fb.lo + fb.length.toNat < 2 ^ 64)
    (h : allocateRightFrameBuffer allocatePages (some fb) rightSize = .ok (.region start)) :
    RightApart fb start ↔ RoomForAll fb :=
  ⟨roomForAll_of_rightApart hend (allocateRightFrameBuffer_region h),
    rightApart_of_roomForAll hend (allocateRightFrameBuffer_region h)⟩

/-- The reservation of the platform (Sm8350 AndromedaMemoryMapLib.c:69), with another length. -/
def displayReserved (length : UInt64) : Descriptor where
  name := ⟨⟨ascii "Display Reserved", by decide⟩, by decide⟩
  address := 0xE1000000
  length := length
  hobOption := .addMem
  resourceType := .memoryReserved
  resourceAttribute := .sysMemCap
  memoryType := .reservedMemoryType
  armAttributes := .writeThrough

/-- The platform has room for all. -/
theorem rightFrameBuffer_apart_platform : RightApart (displayReserved 0x02400000) 0xE1A00000 :=
  (rightFrameBuffer_apart_iff (fun _ => .error .outOfResources) (displayReserved 0x02400000) 0xE1A00000 (by decide)
    (by rfl)).2 (by decide)

/-- A reservation that ends with the right framebuffer is taken: the packet that turns the display on is stored in the
last lines of what is on it. -/
theorem rightFrameBuffer_takes_commands :
    allocateRightFrameBuffer (fun _ => .error .outOfResources) (some (displayReserved 0x13B3400)) rightSize =
      .ok (.region 0xE1A00000) ∧
    (dsiCtrlSendPacket ⟨false, 0, fun _ => true⟩ (some (displayReserved 0x13B3400)) 0x05 (fun _ => 0x29) 1 fun _ => 0).mem
      (0xE1A00000 + BitVec.ofNat 64 0x9B3000) = 0x29 ∧
    0x9B3000 < rightSize.toNat ∧ ¬ RightApart (displayReserved 0x13B3400) 0xE1A00000 := by
  refine ⟨by rfl, by decide +kernel, by decide, ?_⟩
  intro h
  exact h.commands 0x9B3000 (by decide) 0 (by decide) (by decide)

end Andromeda
