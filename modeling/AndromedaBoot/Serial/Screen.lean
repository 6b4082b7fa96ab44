import AndromedaBoot.Display.Console
import AndromedaBoot.Serial.Ring

/-!
# The log beside the screen (FrameBufferInMemorySerialPortLib.c)

The library with both consoles logs the bytes of a call and then draws them, with the same routine as the console on the
frame buffer. A screen without a byte in common with the PStore region, the position behind it included, leaves the log
alone, and the log leaves the position alone. So nothing is lost of either (`log_beside_screen`).

| here | there |
| --- | --- |
| `FrameBuffer.readPosition`, `FrameBuffer.writePosition` | `*p_Position` :56 |
| `drawBuffer` | the second loop of `SerialPortWrite` :316-318 |
-/

namespace Andromeda

open ByteMemory

/-- The position as it stands in memory. -/
def FrameBuffer.readPosition (fb : FrameBuffer) (m : ByteMemory) : FbconPosition :=
  ⟨(m.read64 fb.position).toInt, (m.read64 (fb.position + 8#64)).toInt⟩

def FrameBuffer.writePosition (fb : FrameBuffer) (p : FbconPosition) (m : ByteMemory) : ByteMemory :=
  (m.write64 fb.position (BitVec.ofInt 64 p.x)).write64 (fb.position + 8#64) (BitVec.ofInt 64 p.y)

/-- One byte after the other. -/
def writeEach (writes : List (BitVec 64 × BitVec 8)) (m : ByteMemory) : ByteMemory :=
  writes.foldl (fun m w => m.writeBytes w.1 [w.2]) m

/-- The bytes of a call are drawn, from the position in memory on. It is stored at the end of the call only, which makes no
difference: nothing is drawn where it is kept. -/
def drawBuffer (fb : FrameBuffer) (scaleFactor : BitVec 32) (mColor : FbconColor) (buffer : List (BitVec 8))
    (m : ByteMemory) : ByteMemory :=
  match putChars fb scaleFactor 2 (buffer.map fun c => (c, .common)) (fb.readPosition m) with
  | some (events, p) => fb.writePosition p (writeEach (events.flatMap (·.writes fb scaleFactor mColor)) m)
  | none => m

theorem writeEach_of_ne {writes : List (BitVec 64 × BitVec 8)} {m : ByteMemory} {x : BitVec 64}
    (h : ∀ w ∈ writes, w.1 ≠ x) : writeEach writes m x = m x := by
  induction writes generalizing m with
  | nil => rfl
  | cons w writes ih =>
    obtain ⟨hw, hrest⟩ := List.forall_mem_cons.1 h
    rw [writeEach, List.foldl_cons]
    refine (ih hrest).trans (writeBytes_of_le ?_)
    rw [List.length_singleton]
    bv_omega

/-! ## The position in memory -/

section Position

variable {fb : FrameBuffer} {scaleFactor : BitVec 32} {mColor : FbconColor} {m m' : ByteMemory} {p : FbconPosition}

theorem toInt_ofInt_of_lt {z : Int} {n : Nat} (hz : 0 ≤ z) (hlt : z < n) (hn : n < 2 ^ 32) : (BitVec.ofInt 64 z).toInt = z := by
  rw [BitVec.toInt_ofInt, Int.bmod_eq_of_le (by omega) (by omega)]

theorem FrameBuffer.Cell.readPosition_writePosition (hp : fb.Cell scaleFactor p) :
    fb.readPosition (fb.writePosition p m) = p := by
  have hwidth := fb.width.isLt
  have hheight := fb.height.isLt
  have hx : (BitVec.ofInt 64 p.x).toInt = p.x := by
    refine toInt_ofInt_of_lt hp.x_nonneg hp.x_lt ?_
    exact ((Nat.div_le_self _ _).trans (Nat.div_le_self _ _)).trans_lt hwidth
  have hy : (BitVec.ofInt 64 p.y).toInt = p.y := by
    have hlt := hp.y_lt
    exact toInt_ofInt_of_lt hp.y_nonneg (n := (fb.height.toNat - 1) / 12) (by omega) (by omega)
  rw [FrameBuffer.readPosition, FrameBuffer.writePosition, read64_write64,
    read64_write64_of_le _ (by bv_omega) (by bv_omega), read64_write64, hx, hy]

variable (hfits : fb.Fits scaleFactor) (hbits : 8 ∣ fb.pixelBpp.toNat)

include hfits hbits

/-- What is behind the position stays as it is. -/
theorem drawBuffer_of_le (hm : fb.Cell scaleFactor (fb.readPosition m)) (buffer : List (BitVec 8)) {x : BitVec 64}
    (hx : fb.width.toNat * fb.height.toNat * (fb.pixelBpp.toNat / 8) + 16 ≤ (x - fb.address).toNat) :
    drawBuffer fb scaleFactor mColor buffer m x = m x := by
  obtain ⟨events, p, hcalls, -, hok⟩ := putChars_ok hfits (buffer.map fun c => (c, .common)) hm
  have hscreen := hfits.screen_lt
  have hposition := position_eq hfits hbits
  rw [drawBuffer, hcalls]
  simp only [FrameBuffer.writePosition]
  rw [write64_of_le _ (by bv_omega), write64_of_le _ (by bv_omega)]
  refine writeEach_of_ne ?_
  rintro w hw rfl
  obtain ⟨e, he, hw⟩ := List.mem_flatMap.1 hw
  obtain ⟨i, hi, hwi⟩ := (hok e he).bounds hfits hw
  bv_omega

omit hbits in
theorem drawBuffer_cell (hm : fb.Cell scaleFactor (fb.readPosition m)) (buffer : List (BitVec 8)) :
    fb.Cell scaleFactor (fb.readPosition (drawBuffer fb scaleFactor mColor buffer m)) := by
  obtain ⟨events, p, hcalls, hp, -⟩ := putChars_ok hfits (buffer.map fun c => (c, .common)) hm
  rw [drawBuffer, hcalls]
  simp only [hp.readPosition_writePosition]
  exact hp

theorem readPosition_congr
    (h : ∀ i < 16, m' (fb.address + BitVec.ofNat 64 (fb.width.toNat * fb.height.toNat * (fb.pixelBpp.toNat / 8) + i)) =
      m (fb.address + BitVec.ofNat 64 (fb.width.toNat * fb.height.toNat * (fb.pixelBpp.toNat / 8) + i))) :
    fb.readPosition m' = fb.readPosition m := by
  have hbyte (i : Nat) (hi : i < 16) : m' (fb.position + BitVec.ofNat 64 i) = m (fb.position + BitVec.ofNat 64 i) := by
    rw [position_eq hfits hbits, BitVec.add_assoc, ← BitVec.ofNat_add]
    exact h i hi
  have hx : m'.read64 fb.position = m.read64 fb.position := read64_congr fun i hi => hbyte i (by omega)
  have hy : m'.read64 (fb.position + 8#64) = m.read64 (fb.position + 8#64) := by
    refine read64_congr fun i hi => ?_
    rw [BitVec.add_assoc, show 8#64 + BitVec.ofNat 64 i = BitVec.ofNat 64 (8 + i) by bv_omega]
    exact hbyte _ (by omega)
  rw [FrameBuffer.readPosition, FrameBuffer.readPosition, hx, hy]

end Position

/-! ## Both consoles -/

section Both

variable {p : Descriptor} {fb : FrameBuffer} {scaleFactor : BitVec 32} (hfits : fb.Fits scaleFactor)
  (hbits : 8 ∣ fb.pixelBpp.toNat) (hapart : Apart p.address.toBitVec p.length.toNat fb.address
    (fb.width.toNat * fb.height.toNat * (fb.pixelBpp.toNat / 8) + 16))

include hfits hbits hapart

theorem drawBuffer_apart (mColor : FbconColor) :
    DrawsApart p (drawBuffer fb scaleFactor mColor) fun m => fb.Cell scaleFactor (fb.readPosition m) where
  spares buffer m hm i hi := drawBuffer_of_le hfits hbits hm buffer (hapart.le_sub hi)
  draw buffer m hm := drawBuffer_cell hfits hm buffer
  log m m' hframe hm := by
    have hsame : fb.readPosition m' = fb.readPosition m :=
      readPosition_congr hfits hbits fun i hi => hframe _ (hapart.symm.le_sub (by omega))
    rwa [hsame]

/-- **Logging and drawing do not meet.** With a position on the screen, a run of calls of the library with both consoles
logs all that it is given, round and round, and leaves a position on the screen. -/
theorem log_beside_screen (mColor : FbconColor) (h : 8 < p.length.toNat) (calls : List (List (BitVec 8))) {m : ByteMemory}
    (hm : fb.Cell scaleFactor (fb.readPosition m)) :
    ∃ m', serialPortWriteCalls (drawBuffer fb scaleFactor mColor) p calls m = some (calls.map List.length, m') ∧
      Logged p calls.flatten m m' ∧ fb.Cell scaleFactor (fb.readPosition m') :=
  serialPortWriteCalls_logged (drawBuffer_apart hfits hbits hapart mColor) h calls hm

end Both

end Andromeda
