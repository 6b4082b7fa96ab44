import AndromedaBoot.Lib.BoundedLog
import AndromedaBoot.Whea.Records

/-!
# The store as a log (MsWheaEarlyStorageLib.c)

One call of `MsWheaESAddRecordV0` adds its entry or finds the store full, as `Whea.Records` says. Here a whole boot is
one log of records that is bounded by the room behind the data that was there before, and a consumer that reads an
entry back finds the record.
-/

namespace Andromeda

open BoundedLog

/-- The calls of a boot, their statuses and the state behind them; each comes with what its stack held. -/
def addRecords (platform : WheaPlatform) (layout : WheaLayout) (callerId : BitVec 128) :
    List (List (BitVec 8) × WheaArguments) → WheaState → List EfiStatus × WheaState
  | [], s => ([], s)
  | (stack, a) :: calls, s =>
    let r := msWheaESAddRecordV0 platform layout callerId stack a s
    let rs := addRecords platform layout callerId calls r.2
    (r.1 :: rs.1, rs.2)

/-- The active data behind the header. -/
def WheaPlatform.activeData (platform : WheaPlatform) (layout : WheaLayout) (mem : ByteMemory) : List (BitVec 8) :=
  platform.storeBytes mem layout.headerSize (platform.activeRange layout mem)

/-- The records of some calls. -/
def recordsOf (callerId : BitVec 128) (calls : List (List (BitVec 8) × WheaArguments)) : List WheaRecordV0 :=
  calls.map fun call => call.2.record callerId

/-- How many records there is room for behind some data. -/
def WheaPlatform.room (platform : WheaPlatform) (layout : WheaLayout) (old : List (BitVec 8)) : Nat :=
  ((msWheaESGetMaxDataCount platform layout).toNat - old.length) / layout.entrySize

/-- The status of a call that finds room or not. -/
def statusOf : Bool → EfiStatus
  | true => .success
  | false => .outOfResources

/-- The store is valid and has these records behind `old`. -/
structure WheaPlatform.Keeps (platform : WheaPlatform) (layout : WheaLayout) (old : List (BitVec 8))
    (records : List WheaRecordV0) (s : WheaState) : Prop where
  valid : platform.Valid layout s
  data : platform.activeData layout s.mem = old ++ records.flatMap layout.entryBytes

section Run

variable {platform : WheaPlatform} {layout : WheaLayout} {old : List (BitVec 8)}
  {records : List WheaRecordV0} {s : WheaState}

theorem length_flatMap_entryBytes (records : List WheaRecordV0) :
    (records.flatMap layout.entryBytes).length = records.length * layout.entrySize := by
  induction records with
  | nil => simp
  | cons record records ih =>
    rw [List.flatMap_cons, List.length_append, layout.length_entryBytes, ih, List.length_cons, Nat.succ_mul, Nat.add_comm]

theorem WheaPlatform.Keeps.activeRange (h : platform.Keeps layout old records s) :
    platform.activeRange layout s.mem = old.length + records.length * layout.entrySize := by
  have hlen := congrArg List.length h.data
  rwa [WheaPlatform.activeData, length_storeBytes, List.length_append, length_flatMap_entryBytes] at hlen

/-- There is room in the store if there is room in the log. -/
theorem WheaPlatform.Keeps.hasRoom_iff (h : platform.Keeps layout old records s) :
    platform.activeRange layout s.mem + layout.entrySize ≤ (msWheaESGetMaxDataCount platform layout).toNat ↔
      records.length < platform.room layout old := by
  have hpos := layout.entry_pos
  have hle := h.valid.le
  rw [h.activeRange] at hle
  rw [h.activeRange, WheaPlatform.room, Nat.lt_iff_add_one_le, Nat.le_div_iff_mul_le hpos, Nat.succ_mul]
  omega

theorem storeBytes_ext {mem : ByteMemory} {start n : Nat} {data : List (BitVec 8)} (hlen : data.length = n)
    (h : ∀ i < n, platform.store mem (start + i) = data.getD i 0) : platform.storeBytes mem start n = data := by
  refine List.ext_getElem? fun i => ?_
  rcases Nat.lt_or_ge i n with hi | hi
  · rw [getElem?_storeBytes hi, h i hi, List.getD_eq_getElem?_getD, List.getElem?_eq_getElem (hlen ▸ hi), Option.getD_some]
  · rw [List.getElem?_eq_none (by rwa [length_storeBytes]), List.getElem?_eq_none (by omega)]

/-- **One call** pushes its record. -/
theorem WheaPlatform.Keeps.add (hholds : platform.Holds layout) (h : platform.Keeps layout old records s)
    (callerId : BitVec 128) (stack : List (BitVec 8)) (a : WheaArguments) :
    (msWheaESAddRecordV0 platform layout callerId stack a s).1 =
        statusOf (push (platform.room layout old) records (a.record callerId)).1 ∧
      platform.Keeps layout old (push (platform.room layout old) records (a.record callerId)).2
        (msWheaESAddRecordV0 platform layout callerId stack a s).2 := by
  obtain ⟨hadded, hfetched⟩ := addRecord_added hholds h.valid stack (a.record callerId)
  rw [msWheaESAddRecordV0, push]
  generalize msWheaESAddRecordV0Internal platform layout stack (some (layout.entryBytes (a.record callerId))) s = r at *
  have hvalid := hadded.valid h.valid hfetched
  by_cases hroom : records.length < platform.room layout old
  · have hsuccess := hadded.success_iff.2 (h.hasRoom_iff.2 hroom)
    rw [if_pos hroom]
    refine ⟨hsuccess, hvalid, ?_⟩
    have hentry := storeBytes_ext (layout.length_entryBytes _) (hadded.entry hsuccess)
    have hdata := storeBytes_congr (hadded.data hsuccess)
    rw [WheaPlatform.activeData, hadded.activeRange hsuccess, storeBytes_add, hentry, hdata, ← WheaPlatform.activeData, h.data,
      List.append_assoc, List.flatMap_append, List.flatMap_singleton]
  · have hfull : r.1 ≠ .success := fun hsuccess => hroom (h.hasRoom_iff.1 (hadded.success_iff.1 hsuccess))
    have hstatus := hadded.status.resolve_left hfull
    rw [if_neg hroom]
    refine ⟨hstatus, hvalid, ?_⟩
    rw [hadded.full hstatus, h.data]

/-- **All calls** push theirs. -/
theorem WheaPlatform.Keeps.addAll (hholds : platform.Holds layout) (h : platform.Keeps layout old records s)
    (callerId : BitVec 128) (calls : List (List (BitVec 8) × WheaArguments)) :
    (addRecords platform layout callerId calls s).1 =
        (pushAll (platform.room layout old) records (recordsOf callerId calls)).1.map statusOf ∧
      platform.Keeps layout old (pushAll (platform.room layout old) records (recordsOf callerId calls)).2
        (addRecords platform layout callerId calls s).2 := by
  induction calls generalizing records s with
  | nil => exact ⟨rfl, h⟩
  | cons call calls ih =>
    obtain ⟨stack, a⟩ := call
    obtain ⟨hstatus, hnext⟩ := h.add hholds callerId stack a
    obtain ⟨hstatuses, hlast⟩ := ih hnext
    exact ⟨congrArg₂ List.cons hstatus hstatuses, hlast⟩

/-- A block in a row of blocks of one length. -/
theorem take_drop_flatMap {α β : Type} {f : α → List β} {n : Nat} (hlen : ∀ x, (f x).length = n) {xs : List α} {k : Nat} {x : α}
    (h : xs[k]? = some x) : ((xs.flatMap f).drop (k * n)).take n = f x := by
  induction k generalizing xs with
  | zero =>
    obtain ⟨ys, rfl⟩ : ∃ ys, xs = x :: ys := by
      cases xs with
      | nil => simp at h
      | cons y ys => exact ⟨ys, by simpa using h⟩
    rw [Nat.zero_mul, List.drop_zero, List.flatMap_cons, ← hlen x, List.take_left]
  | succ k ih =>
    cases xs with
    | nil => simp at h
    | cons y ys =>
      have hdrop : ((f y ++ ys.flatMap f).drop ((k + 1) * n)) = (ys.flatMap f).drop (k * n) := by
        rw [Nat.succ_mul, Nat.add_comm, ← List.drop_drop, ← hlen y, List.drop_left, hlen y]
      rw [List.flatMap_cons, hdrop]
      exact ih (by simpa using h)

theorem storeBytes_slice {mem : ByteMemory} {start m i n : Nat} (hin : i + n ≤ m) :
    platform.storeBytes mem (start + i) n = ((platform.storeBytes mem start m).drop i).take n := by
  obtain ⟨k, rfl⟩ := Nat.exists_eq_add_of_le hin
  have hi : (platform.storeBytes mem start i).length = i := length_storeBytes
  have hn : (platform.storeBytes mem (start + i) n).length = n := length_storeBytes
  rw [Nat.add_assoc, storeBytes_add, storeBytes_add, List.drop_left' hi, List.take_left' hn]

end Run

/-- **The store is a bounded log.** From a valid store, the first calls succeed, as many as there is room for, and all
later ones find it full; the active data is what it was and then the entries of the calls that succeeded; and an entry
that is read back is that of its record. -/
theorem addRecords_reads_back {platform : WheaPlatform} {layout : WheaLayout} (h : platform.Holds layout) {s : WheaState}
    (hs : platform.Valid layout s) (callerId : BitVec 128) (calls : List (List (BitVec 8) × WheaArguments)) :
    let old := platform.activeData layout s.mem
    let room := platform.room layout old
    let r := addRecords platform layout callerId calls s
    r.1 = List.replicate (min room calls.length) .success ++ List.replicate (calls.length - room) .outOfResources ∧
    platform.activeData layout r.2.mem = old ++ ((recordsOf callerId calls).take room).flatMap layout.entryBytes ∧
    ∀ (k : Nat) (record : WheaRecordV0), ((recordsOf callerId calls).take room)[k]? = some record →
      let entry := msWheaEarlyStorageRead platform true (BitVec.ofNat 8 layout.entrySize)
        (BitVec.ofNat 8 (layout.headerSize + (old.length + k * layout.entrySize))) r.2
      entry.status = .success ∧ entry.data = layout.entryBytes record := by
  intro old room r
  have hstart : platform.Keeps layout old [] s := ⟨hs, (List.append_nil _).symm⟩
  obtain ⟨hstatuses, hkeeps⟩ := hstart.addAll h callerId calls
  rw [pushAll_eq (Nat.zero_le _)] at hstatuses hkeeps
  simp only [List.length_nil, Nat.sub_zero, List.nil_append, recordsOf, List.length_map] at hstatuses hkeeps
  refine ⟨?_, hkeeps.data, ?_⟩
  · change (addRecords platform layout callerId calls s).1 = _
    rw [hstatuses, List.map_append, List.map_replicate, List.map_replicate]
    rfl
  · intro k record hrecord entry
    have hcount := getMaxDataCount_eq h
    have hlow := h.header
    have hle : platform.activeRange layout r.2.mem ≤ _ := hkeeps.valid.le
    have hactive : platform.activeRange layout r.2.mem =
        old.length + ((recordsOf callerId calls).take room).length * layout.entrySize := hkeeps.activeRange
    have hk := (List.getElem?_eq_some_iff.1 hrecord).1
    have hblock : (k + 1) * layout.entrySize ≤ ((recordsOf callerId calls).take room).length * layout.entrySize :=
      Nat.mul_le_mul_right _ hk
    rw [Nat.succ_mul] at hblock
    obtain ⟨hstatus, -, hdata⟩ := read_eq h hkeeps.valid.fetched layout.entry_pos
      (show 0x40 + (layout.headerSize + (old.length + k * layout.entrySize)) + layout.entrySize ≤ platform.capacity.toNat by omega)
    refine ⟨hstatus, hdata.trans ?_⟩
    rw [storeBytes_slice (m := platform.activeRange layout r.2.mem)
      (show old.length + k * layout.entrySize + layout.entrySize ≤ platform.activeRange layout r.2.mem by omega)]
    change ((platform.activeData layout r.2.mem).drop _).take _ = _
    rw [hkeeps.data, ← List.drop_drop, List.drop_left]
    exact take_drop_flatMap layout.length_entryBytes hrecord

/-- Four records for a store with room for three; the last that was taken is read back. -/
theorem addRecords_reads_back_four :
    let platform : WheaPlatform := ⟨0xff#32, 0xff#8, 0x80000000#64⟩
    let r := addRecords platform sampleLayout 0 (List.replicate 4 ([], ⟨1, 2, 3, none, none⟩)) (WheaState.fresh fun _ => 0)
    r.1 = [.success, .success, .success, .outOfResources] ∧
      (msWheaEarlyStorageRead platform true 56 124 r.2).data = sampleLayout.entryBytes ⟨1, 2, 3, 0, 0⟩ := by
  intro platform r
  have hholds : platform.Holds sampleLayout := ⟨by decide, by decide, by decide⟩
  have hvalid : platform.Valid sampleLayout (WheaState.fresh fun _ => 0) := ⟨.inl rfl, by decide, by decide⟩
  obtain ⟨hstatuses, -, hread⟩ := addRecords_reads_back hholds hvalid 0 (List.replicate 4 ([], ⟨1, 2, 3, none, none⟩))
  have hroom : platform.room sampleLayout (platform.activeData sampleLayout (WheaState.fresh fun _ => 0).mem) = 3 := by decide
  rw [hroom] at hstatuses hread
  exact ⟨hstatuses, (hread 2 ⟨1, 2, 3, 0, 0⟩ rfl).2⟩

end Andromeda
