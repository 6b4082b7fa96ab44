import AndromedaBoot.Lib.RingBuffer
import AndromedaBoot.Serial.InMemory

/-!
# What is left of the log

`mem_putchar` is one write to a ring (`memPutchar_ring`), whatever the offset word holds at first: it is reduced before it
is used. So a run of `SerialPortWrite` leaves the last bytes of what was logged (`log_keeps_last`).

The library that also draws on the screen (FrameBufferInMemorySerialPortLib.c:293-327) logs the bytes of a call in the same
way and then draws them. `draw` is what that does to the memory; nothing is assumed of it but that it leaves the region
alone, if need be only on memories that it keeps to itself (`DrawsApart`). For InMemorySerialPortLib.c it does nothing.
-/

namespace Andromeda

open ByteMemory

/-- The bytes of the region in front of the offset. -/
def logByte (p : Descriptor) (m : ByteMemory) (j : Nat) : BitVec 8 := m (p.address.toBitVec + BitVec.ofNat 64 j)

/-- The offset. -/
def logOffset (p : Descriptor) (m : ByteMemory) : Nat := (m.read64 (offsetWord p)).toNat

/-- `SerialPortWrite` with what it returns; `draw` is the loop over the same bytes in the library with a screen. -/
def serialPortWriteCall (draw : List (BitVec 8) → ByteMemory → ByteMemory) (p : Descriptor) (buffer : List (BitVec 8))
    (m : ByteMemory) : Option (Nat × ByteMemory) :=
  (serialPortWrite p buffer m).map fun (m, _) => (buffer.length, draw buffer m)

/-- One call after the other. -/
def serialPortWriteCalls (draw : List (BitVec 8) → ByteMemory → ByteMemory) (p : Descriptor) :
    List (List (BitVec 8)) → ByteMemory → Option (List Nat × ByteMemory)
  | [], m => some ([], m)
  | buffer :: calls, m => do
    let (n, m) ← serialPortWriteCall draw p buffer m
    let (counts, m) ← serialPortWriteCalls draw p calls m
    some (n :: counts, m)

variable {p : Descriptor} {m : ByteMemory} {c : BitVec 8} {buffer : List (BitVec 8)}

/-- A byte of the ring is apart from the offset. -/
theorem logByte_off (h : 8 < p.length.toNat) {j : Nat} (hj : j < p.length.toNat - 8) :
    8 ≤ (p.address.toBitVec + BitVec.ofNat 64 j - offsetWord p).toNat := by
  have hsize := toNat_ringSize h
  have hlen := p.length.toNat_lt
  unfold offsetWord
  bv_omega

theorem memPutchar_ring (h : 8 < p.length.toNat) (m : ByteMemory) (c : BitVec 8) :
    ∃ m' stores, memPutchar p m c = some (m', stores) ∧
      logOffset p m' = (logOffset p m + 1) % (p.length.toNat - 8) ∧
      (∀ j < p.length.toNat - 8,
        logByte p m' j = Function.update (logByte p m) (logOffset p m % (p.length.toNat - 8)) c j) ∧
      ∀ x, p.length.toNat ≤ (x - p.address.toBitVec).toNat → m' x = m x := by
  have hsize := toNat_ringSize h
  have hlen := p.length.toNat_lt
  have hpos : 0 < p.length.toNat - 8 := by omega
  -- the reduced offset
  have hreduced : (m.read64 (offsetWord p) % ringSize p).toNat = logOffset p m % (p.length.toNat - 8) := by
    rw [BitVec.toNat_umod, hsize]
    rfl
  have hlt := Nat.mod_lt (logOffset p m) hpos
  have hbyte : p.address.toBitVec + m.read64 (offsetWord p) % ringSize p =
      p.address.toBitVec + BitVec.ofNat 64 (logOffset p m % (p.length.toNat - 8)) := by
    rw [← hreduced, BitVec.ofNat_toNat, BitVec.setWidth_eq]
  have hoff := logByte_off h hlt
  rw [memPutchar, if_neg (by bv_omega)]
  simp only [read64_write64, hbyte]
  -- the byte is not in the offset word
  have hread (v : BitVec 64) : ((m.write64 (offsetWord p) v).writeBytes
      (p.address.toBitVec + BitVec.ofNat 64 (logOffset p m % (p.length.toNat - 8))) [c]).read64 (offsetWord p) = v := by
    refine (read64_congr fun i hi => writeBytes_of_le ?_).trans (read64_write64 ..)
    rw [List.length_singleton]
    bv_omega
  rw [hread]
  refine ⟨_, _, rfl, ?_, ?_, ?_⟩
  · rw [logOffset, read64_write64, BitVec.toNat_umod, hsize, BitVec.toNat_add, hreduced, show (1 : BitVec 64).toNat = 1 from rfl,
      Nat.mod_eq_of_lt (show _ < 2 ^ 64 by omega), Nat.mod_add_mod]
  · intro j hj
    have hoffj := logByte_off h hj
    rw [logByte, write64_of_le _ hoffj]
    by_cases hj' : j = logOffset p m % (p.length.toNat - 8)
    · rw [hj', writeBytes_singleton, Function.update_self]
    · rw [Function.update_of_ne hj', writeBytes_of_le (by rw [List.length_singleton]; bv_omega), write64_of_le _ hoffj]
      rfl
  · intro x hx
    have hword : 8 ≤ (x - offsetWord p).toNat := by
      rw [offsetWord]
      bv_omega
    rw [write64_of_le _ hword, writeBytes_of_le (by rw [List.length_singleton]; bv_omega), write64_of_le _ hword]

/-! ## Runs -/

/-- What a run has left of bytes that were logged: the offset is behind them, and the ring has them. -/
structure Logged (p : Descriptor) (bytes : List (BitVec 8)) (m m' : ByteMemory) : Prop where
  offset : bytes ≠ [] → logOffset p m' = (logOffset p m + bytes.length) % (p.length.toNat - 8)
  offset_nil : bytes = [] → logOffset p m' = logOffset p m
  ring : ∀ j < p.length.toNat - 8, logByte p m' j = RingBuffer.write (p.length.toNat - 8) (logOffset p m) bytes (logByte p m) j

theorem Logged.offset_mod {bytes : List (BitVec 8)} {m' : ByteMemory} (h : Logged p bytes m m') :
    logOffset p m' % (p.length.toNat - 8) = (logOffset p m + bytes.length) % (p.length.toNat - 8) := by
  by_cases hnil : bytes = []
  · rw [h.offset_nil hnil, hnil, List.length_nil, Nat.add_zero]
  · rw [h.offset hnil, Nat.mod_mod]

/-- Two parts of a run. -/
theorem Logged.trans {xs ys : List (BitVec 8)} {m₁ m₂ : ByteMemory} (h₁ : Logged p xs m m₁) (h₂ : Logged p ys m₁ m₂) :
    Logged p (xs ++ ys) m m₂ := by
  refine ⟨?_, ?_, ?_⟩
  · intro hne
    by_cases hys : ys = []
    · subst hys
      rw [List.append_nil] at hne ⊢
      rw [h₂.offset_nil rfl, h₁.offset hne]
    · rw [h₂.offset hys, ← Nat.mod_add_mod, h₁.offset_mod, Nat.mod_add_mod, List.length_append, Nat.add_assoc]
  · intro hnil
    obtain ⟨hxs, hys⟩ := List.append_eq_nil_iff.1 hnil
    rw [h₂.offset_nil hys, h₁.offset_nil hxs]
  · intro j hj
    rw [h₂.ring j hj, RingBuffer.write_append, RingBuffer.write_congr h₁.ring hj, ← RingBuffer.write_mod, h₁.offset_mod,
      RingBuffer.write_mod]

theorem serialPortWrite_logged (h : 8 < p.length.toNat) (buffer : List (BitVec 8)) (m : ByteMemory) :
    ∃ m' stores, serialPortWrite p buffer m = some (m', stores) ∧ Logged p buffer m m' ∧
      ∀ x, p.length.toNat ≤ (x - p.address.toBitVec).toNat → m' x = m x := by
  induction buffer generalizing m with
  | nil => exact ⟨m, [], rfl, ⟨fun hne => absurd rfl hne, fun _ => rfl, fun _ _ => rfl⟩, fun _ _ => rfl⟩
  | cons c buffer ih =>
    obtain ⟨m₁, stores, hput, hoffset, hring, hframe⟩ := memPutchar_ring h m c
    obtain ⟨m₂, rest, hwrite, hlogged, hframe'⟩ := ih m₁
    have hfirst : Logged p [c] m m₁ := ⟨fun _ => hoffset, nofun, hring⟩
    refine ⟨m₂, stores ++ rest, ?_, hfirst.trans hlogged, fun x hx => (hframe' x hx).trans (hframe x hx)⟩
    rw [serialPortWrite, hput]
    simp only [Option.bind_eq_bind, Option.bind_some, hwrite]

/-- The screen and the log do not meet. -/
def SparesLog (p : Descriptor) (draw : List (BitVec 8) → ByteMemory → ByteMemory) : Prop :=
  ∀ buffer m, ∀ i < p.length.toNat,
    draw buffer m (p.address.toBitVec + BitVec.ofNat 64 i) = m (p.address.toBitVec + BitVec.ofNat 64 i)

variable {draw : List (BitVec 8) → ByteMemory → ByteMemory}

/-- The same on the memories that are `ok`, which neither the log nor the screen changes. -/
structure DrawsApart (p : Descriptor) (draw : List (BitVec 8) → ByteMemory → ByteMemory) (ok : ByteMemory → Prop) : Prop where
  spares : ∀ buffer m, ok m →
    ∀ i < p.length.toNat, draw buffer m (p.address.toBitVec + BitVec.ofNat 64 i) = m (p.address.toBitVec + BitVec.ofNat 64 i)
  draw : ∀ buffer m, ok m → ok (draw buffer m)
  log : ∀ m m', (∀ x, p.length.toNat ≤ (x - p.address.toBitVec).toNat → m' x = m x) → ok m → ok m'

theorem SparesLog.drawsApart (hdraw : SparesLog p draw) : DrawsApart p draw fun _ => True :=
  ⟨fun buffer m _ => hdraw buffer m, fun _ _ _ => trivial, fun _ _ _ _ => trivial⟩

variable {ok : ByteMemory → Prop}

theorem DrawsApart.logged (hdraw : DrawsApart p draw ok) (h : 8 < p.length.toNat) (buffer : List (BitVec 8)) (hm : ok m) :
    Logged p [] m (draw buffer m) := by
  have hsize := toNat_ringSize h
  have hword : (draw buffer m).read64 (offsetWord p) = m.read64 (offsetWord p) := by
    refine read64_congr ?_
    intro i hi
    rw [offsetWord, BitVec.add_assoc, show ringSize p + BitVec.ofNat 64 i = BitVec.ofNat 64 (p.length.toNat - 8 + i) by bv_omega]
    exact hdraw.spares buffer m hm _ (by omega)
  exact ⟨fun hne => absurd rfl hne, fun _ => congrArg BitVec.toNat hword, fun j hj => hdraw.spares buffer m hm j (by omega)⟩

theorem serialPortWriteCalls_logged (hdraw : DrawsApart p draw ok) (h : 8 < p.length.toNat)
    (calls : List (List (BitVec 8))) (hm : ok m) :
    ∃ m', serialPortWriteCalls draw p calls m = some (calls.map List.length, m') ∧ Logged p calls.flatten m m' ∧ ok m' := by
  induction calls generalizing m with
  | nil => exact ⟨m, rfl, ⟨fun hne => absurd rfl hne, fun _ => rfl, fun _ _ => rfl⟩, hm⟩
  | cons buffer calls ih =>
    obtain ⟨m₁, stores, hwrite, hlogged, hframe⟩ := serialPortWrite_logged h buffer m
    have hm₁ := hdraw.log m m₁ hframe hm
    obtain ⟨m₂, hcalls, hrest, hm₂⟩ := ih (hdraw.draw buffer m₁ hm₁)
    have hcall : Logged p (buffer ++ []) m (draw buffer m₁) := hlogged.trans (hdraw.logged h buffer hm₁)
    rw [List.append_nil] at hcall
    refine ⟨m₂, ?_, hcall.trans hrest, hm₂⟩
    rw [serialPortWriteCalls, serialPortWriteCall, hwrite]
    simp only [Option.map_some, Option.bind_eq_bind, Option.bind_some, hcalls, List.map_cons]

/-- **The log keeps the last bytes** of a run: with `o` the offset it started from, the bytes stand from position `o` on, round
and round, the offset is behind the last one, and positions without one of them are as before. -/
theorem log_keeps_last (draw : List (BitVec 8) → ByteMemory → ByteMemory) (p : Descriptor) (hdraw : SparesLog p draw)
    (h : 8 < p.length.toNat) (calls : List (List (BitVec 8))) (m : ByteMemory) :
    ∃ m', serialPortWriteCalls draw p calls m = some (calls.map List.length, m') ∧
      (0 < calls.flatten.length → logOffset p m' =
        (logOffset p m % (p.length.toNat - 8) + calls.flatten.length) % (p.length.toNat - 8) ∧
        logOffset p m' < p.length.toNat - 8) ∧
      (calls.flatten.length = 0 → logOffset p m' = logOffset p m) ∧
      (∀ (i : Nat) (hi : i < calls.flatten.length), calls.flatten.length ≤ i + (p.length.toNat - 8) →
        logByte p m' ((logOffset p m % (p.length.toNat - 8) + i) % (p.length.toNat - 8)) = calls.flatten[i]) ∧
      ∀ j < p.length.toNat - 8,
        (∀ i < calls.flatten.length, (logOffset p m % (p.length.toNat - 8) + i) % (p.length.toNat - 8) ≠ j) →
        logByte p m' j = logByte p m j := by
  have hpos : 0 < p.length.toNat - 8 := by omega
  obtain ⟨m', hrun, hlogged, -⟩ := serialPortWriteCalls_logged hdraw.drawsApart h calls (m := m) trivial
  simp only [Nat.mod_add_mod]
  refine ⟨m', hrun, ?_, fun hn => hlogged.offset_nil (List.length_eq_zero_iff.1 hn), ?_, ?_⟩
  · intro hn
    rw [hlogged.offset (List.length_pos_iff.1 hn)]
    exact ⟨rfl, Nat.mod_lt _ hpos⟩
  · intro i hi hlast
    rw [hlogged.ring _ (Nat.mod_lt _ hpos), RingBuffer.write_last hi hlast]
  · intro j hj hother
    rw [hlogged.ring j hj, RingBuffer.write_other hother]

theorem log_keeps_last_four :
    ∃ m', serialPortWriteCalls (fun _ m => m) (pStoreOf 11) [[0x41#8, 0x42#8], [0x43#8, 0x44#8]] (fun _ => 0xFF#8) =
        some ([2, 2], m') ∧ logOffset (pStoreOf 11) m' < 3 := by
  obtain ⟨m', hrun, hoffset, -⟩ := log_keeps_last (fun _ m => m) (pStoreOf 11) (fun _ _ _ _ => rfl) (by decide)
    [[0x41#8, 0x42#8], [0x43#8, 0x44#8]] fun _ => 0xFF#8
  exact ⟨m', hrun, (hoffset (by decide)).2⟩

/-- A call without bytes does not reduce the offset. -/
theorem log_offset_stays :
    serialPortWriteCalls (fun _ m => m) (pStoreOf 11) [[]] (fun _ => 0xFF#8) = some ([0], fun _ => 0xFF#8) ∧
      ¬ logOffset (pStoreOf 11) (fun _ => 0xFF#8) < (pStoreOf 11).length.toNat - 8 :=
  ⟨rfl, by decide⟩

end Andromeda
