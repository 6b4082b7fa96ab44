import AndromedaBoot.Lib.ByteMemory
import AndromedaBoot.MemoryMap.Descriptor

/-!
# Commands to the right panel (DsiCtrl.c of the Surface Duo 2)

A packet is packed into words, stored in the last `0x400` bytes of the display reservation, and sent from there by the DMA
of the controller.

| here | there |
| --- | --- |
| `packPacket` | `PackPacket`, :87 |
| `sendWords` | `SendWords`, :139 |
| `dsiCtrlSendPacket` | `DsiCtrlSendPacket`, :200 |

The registers a packet is sent with are a list of offsets and values; what the controller answers is `DsiHardware`. Stalls,
fences and caches are not modelled.
-/

namespace Andromeda

open ByteMemory

/-- What the driver reads from the controller, and its `mLowPower`. -/
structure DsiHardware where
  lowPower : Bool
  tpgCtrl : BitVec 32
  /-- `DSI_DMA_DONE` in the `i`-th read of `DSI_INT_CTRL`. -/
  done : Nat → Bool

structure DsiOutcome where
  status : EfiStatus
  mem : ByteMemory
  registers : List (BitVec 32 × BitVec 32)

/-- The word `i` of a payload, zero behind its end. -/
def payloadWord (payload : Nat → BitVec 8) (payloadLength i : Nat) : BitVec 32 :=
  let byte (k : Nat) : BitVec 8 := if k < payloadLength then payload k else 0
  byte (4 * i + 3) ++ byte (4 * i + 2) ++ byte (4 * i + 1) ++ byte (4 * i)

/-- `PackPacket` (:87): the words it counts. -/
def packPacket (dataType : BitVec 8) (payload : Nat → BitVec 8) (payloadLength : BitVec 32) : List (BitVec 32) :=
  let type := dataType.setWidth 32 <<< 16
  if dataType = 0x39 ∨ dataType = 0x29 ∨ dataType = 0x0A then
    (type ||| (payloadLength &&& 0xFFFF) ||| 1#32 <<< 31 ||| 1#32 <<< 30) ::
      (List.range ((payloadLength.toNat + 3) / 4)).map (payloadWord payload payloadLength.toNat)
  else
    [type ||| (if 0 < payloadLength then (payload 0).setWidth 32 else 0) |||
      (if 1 < payloadLength then (payload 1).setWidth 32 <<< 8 else 0) ||| 1#32 <<< 31]

/-- `Fb.Address + Fb.Length - 0x400`. -/
def dsiBuffer (fb : Descriptor) : BitVec 64 := fb.end_.toBitVec - 0x400#64

/-- `SendWords` (:139), with the words to send. -/
def sendWords (hw : DsiHardware) (fb : Option Descriptor) (words : List (BitVec 32)) (m : ByteMemory) : DsiOutcome :=
  match fb with
  | none => ⟨.notFound, m, []⟩
  | some fb =>
    if 0xFFFFFFFF#64 < dsiBuffer fb then ⟨.unsupported, m, []⟩
    else
      { status := if (List.range 10000).any hw.done then .success else .timeout
        mem := m.writeWords (dsiBuffer fb) words
        registers := [
          (0x3C, 1#32 <<< 28 ||| if hw.lowPower then 1#32 <<< 26 else 0),
          (0x4C, BitVec.ofNat 32 (4 * words.length)),
          (0x48, (dsiBuffer fb).setWidth 32),
          (0x15C, hw.tpgCtrl &&& ~~~(1#32 <<< 2 ||| 1#32 <<< 1 ||| 1#32 <<< 17 ||| 1#32 <<< 16)),
          (0x90, 1),
          (0x110, 1)] }

/-- `DsiCtrlSendPacket` (:200). -/
def dsiCtrlSendPacket (hw : DsiHardware) (fb : Option Descriptor) (dataType : BitVec 8) (payload : Nat → BitVec 8)
    (payloadLength : BitVec 32) (m : ByteMemory) : DsiOutcome :=
  if 256 - 8 < payloadLength then ⟨.badBufferSize, m, []⟩
  else sendWords hw fb (packPacket dataType payload payloadLength) m

/-- What is stored of a packet goes to the buffer, and a packet that was sent stands there as a whole. -/
structure SentInto (fb : Descriptor) (words : List (BitVec 32)) (m : ByteMemory) (r : DsiOutcome) : Prop where
  frame : ∀ a, r.mem a ≠ m a → ∃ i < 0x400, a = dsiBuffer fb + BitVec.ofNat 64 i
  packet : r.status = .success → r.mem.HoldsWords (dsiBuffer fb) words

theorem length_packPacket_le (dataType : BitVec 8) (payload : Nat → BitVec 8) {payloadLength : BitVec 32}
    (h : payloadLength ≤ 248) : (packPacket dataType payload payloadLength).length ≤ 63 := by
  have hlen : payloadLength.toNat ≤ 248 := h
  rw [packPacket]
  by_cases hlong : dataType = 0x39 ∨ dataType = 0x29 ∨ dataType = 0x0A
  · rw [if_pos hlong, List.length_cons, List.length_map, List.length_range]
    omega
  · rw [if_neg hlong, List.length_singleton]
    decide

/-- **Every packet fits**: the largest has 252 bytes. -/
theorem dsiCtrlSendPacket_sentInto (hw : DsiHardware) (fb : Descriptor) (dataType : BitVec 8) (payload : Nat → BitVec 8)
    (payloadLength : BitVec 32) (m : ByteMemory) :
    SentInto fb (packPacket dataType payload payloadLength) m
      (dsiCtrlSendPacket hw (some fb) dataType payload payloadLength m) := by
  rw [dsiCtrlSendPacket]
  by_cases hlarge : 256 - 8 < payloadLength
  · rw [if_pos hlarge]
    exact ⟨fun _ h => absurd rfl h, nofun⟩
  rw [if_neg hlarge, sendWords]
  by_cases hhigh : 0xFFFFFFFF#64 < dsiBuffer fb
  · rw [if_pos hhigh]
    exact ⟨fun _ h => absurd rfl h, nofun⟩
  rw [if_neg hhigh]
  have hlen := length_packPacket_le dataType payload (BitVec.not_lt.1 hlarge)
  refine ⟨fun a h => ⟨(a - dsiBuffer fb).toNat, ?_, by bv_omega⟩, fun _ => holdsWords_writeWords m _ (by omega)⟩
  by_contra hout
  exact h (writeWords_of_le _ (by omega))

end Andromeda
