import AndromedaBoot.BootConfig.Scan

/-!
# The record accessor: `GetAndromedaBootConfigSectionEntry`

The scan numbers the data lines of one section and stops at the requested one, so it only notices a
malformed header it runs past. `getAndromedaBootConfigSectionEntry_spec` says so: the answer is the
record with that number among those in front of the first malformed header, and only a number beyond
them meets that header.
-/

namespace Andromeda

open Slice Lines

variable {config : Bytes}

/-- One line of the record scan: the flag "in the requested section" and the number of records passed;
the exit is `some` record or `none` for a malformed header. -/
def entryStep (section_ : Bytes) (entryIndex : Nat) :
    Line → Bool × Nat → Except (Option Bytes) (Bool × Nat)
  | .blank, s => .ok s
  | .malformed, _ => .error none
  | .header name, s => .ok (sameName name section_, s.2)
  | .data content, s =>
    if s.1 then if s.2 = entryIndex then .error (some (uncomment content)) else .ok (s.1, s.2 + 1) else .ok s

/-- The exits of the two scans agree. -/
inductive EntryExitRel (config : Bytes) : EntryExit → Option Bytes → Prop
  | malformed : EntryExitRel config .malformedHeader none
  | entry {s t : Nat} : s ≤ t → t ≤ config.length → EntryExitRel config (.entry s t) (some (slice config s t))

def EntryRel (s : EntryScan) (t : Bool × Nat) : Prop :=
  s.inRequestedSection = t.1 ∧ s.currentIndex = t.2

theorem entryLine_sim (section_ : CStr) (entryIndex i e : Nat) (s : EntryScan) (t : Bool × Nat)
    (hi : i ≤ e) (he : e ≤ config.length) (hR : EntryRel s t) :
    Sim (EntryExitRel config) EntryRel (entryLine config section_ entryIndex i e s)
      (entryStep section_.bytes entryIndex (lineOf (slice config i e)) t) := by
  have hsees := sees_lineOf hi he
  simp only [entryLine]
  generalize (trimRange config i e).1 = cs at *
  generalize (trimRange config i e).2 = ce at *
  generalize lineOf (slice config i e) = line at *
  cases hsees with
  | blank hlt =>
    simp only [hlt, ↓reduceIte]
    exact .cont hR
  | comment hlt hplain =>
    simp only [hlt, hplain, Bool.false_eq_true, ↓reduceIte]
    exact .cont hR
  | malformed hlt hplain hopen hheader =>
    simp only [hlt, hplain, hopen, hheader, ↓reduceIte]
    exact .exit .malformed
  | header a b hlt hplain hopen hheader hab hb =>
    simp only [hlt, hplain, hopen, hheader, ↓reduceIte]
    exact .cont ⟨rangeEqualsString_spec section_ hab hb, hR.2⟩
  | data hlt hplain hopen hce hrecord =>
    simp only [hlt, hplain, hopen, Bool.false_eq_true, ↓reduceIte, entryStep, hR.1]
    by_cases hin : t.1 = true
    · simp only [hin, ↓reduceIte]
      obtain ⟨hc1, hc2, hc3⟩ := trimInlineComment_spec config (le_of_lt hlt) hce
      obtain ⟨hu1, hu2, hu3, hu4⟩ := trimRange_spec config hc1 (by omega)
      rw [hc3] at hu4
      generalize trimRange config cs (trimInlineComment config cs ce) = u at *
      -- the record is never empty, so the emptiness test of the source always succeeds
      have hult : u.1 < u.2 := by
        by_contra hge
        exact hrecord (by rw [← hu4, slice_eq_nil (by omega)])
      simp only [hult, ↓reduceIte, hR.2]
      by_cases hidx : t.2 = entryIndex
      · simp only [hidx, beq_self_eq_true, ↓reduceIte, ← hu4]
        exact .exit (.entry hu2 (by omega))
      · have hidx' : (t.2 == entryIndex) = false := by simpa using hidx
        simp only [hidx, hidx', Bool.false_eq_true, ↓reduceIte]
        exact .cont ⟨rfl, rfl⟩
    · simp only [hin, Bool.false_eq_true, ↓reduceIte]
      exact .cont hR

/-- The lines in front of the first malformed header. -/
def soundPrefix (ls : List Line) : List Line := ls.takeWhile (· ≠ .malformed)

theorem soundPrefix_of_sound {ls : List Line} (h : Line.malformed ∉ ls) : soundPrefix ls = ls := by
  rw [soundPrefix, List.takeWhile_eq_self_iff]
  intro l hl
  have : l ≠ .malformed := fun h0 => h (h0 ▸ hl)
  simpa using this

theorem foldLines_entryStep (section_ : Bytes) (entryIndex : Nat) :
    ∀ (ls : List Line) (cur : Bytes) (n : Nat), n ≤ entryIndex →
      match (recordsFrom section_ cur (soundPrefix ls))[entryIndex - n]? with
      | some r => foldLines (entryStep section_ entryIndex) ls (sameName cur section_, n) = .error (some r)
      | none =>
        if Line.malformed ∈ ls then
          foldLines (entryStep section_ entryIndex) ls (sameName cur section_, n) = .error none
        else ∃ s, foldLines (entryStep section_ entryIndex) ls (sameName cur section_, n) = .ok s
  | [], cur, n, _ => by simp [recordsFrom, soundPrefix, dataFrom, foldLines]
  | .blank :: ls, cur, n, hn => by
    have ih := foldLines_entryStep section_ entryIndex ls cur n hn
    simpa [foldLines, entryStep, recordsFrom, soundPrefix, dataFrom] using ih
  | .malformed :: ls, cur, n, hn => by
    simp [foldLines, entryStep, recordsFrom, soundPrefix, dataFrom]
  | .header name :: ls, cur, n, hn => by
    have ih := foldLines_entryStep section_ entryIndex ls name n hn
    simpa [foldLines, entryStep, recordsFrom, soundPrefix, dataFrom] using ih
  | .data content :: ls, cur, n, hn => by
    have hpre : soundPrefix (.data content :: ls) = .data content :: soundPrefix ls := by simp [soundPrefix]
    have hmal : Line.malformed ∈ Line.data content :: ls ↔ Line.malformed ∈ ls := by simp
    by_cases hin : sameName cur section_ = true
    · have hrec : recordsFrom section_ cur (.data content :: soundPrefix ls) =
          uncomment content :: recordsFrom section_ cur (soundPrefix ls) := by
        simp [recordsFrom, dataFrom, hin]
      rw [hpre, hrec]
      by_cases hidx : n = entryIndex
      · subst hidx
        simp [foldLines, entryStep, hin]
      · have ih := foldLines_entryStep section_ entryIndex ls cur (n + 1) (by omega)
        have hstep : entryStep section_ entryIndex (.data content) (sameName cur section_, n) =
            .ok (sameName cur section_, n + 1) := by simp [entryStep, hin, hidx]
        rw [show entryIndex - n = (entryIndex - (n + 1)) + 1 by omega, List.getElem?_cons_succ]
        simp only [foldLines, hstep, hmal]
        exact ih
    · have hrec : recordsFrom section_ cur (.data content :: soundPrefix ls) =
          recordsFrom section_ cur (soundPrefix ls) := by
        simp [recordsFrom, dataFrom, hin]
      have ih := foldLines_entryStep section_ entryIndex ls cur n hn
      have hstep : entryStep section_ entryIndex (.data content) (sameName cur section_, n) =
          .ok (sameName cur section_, n) := by simp [entryStep, hin]
      rw [hpre, hrec]
      simp only [foldLines, hstep, hmal]
      exact ih

/-- The records of a section that lie in front of the first malformed header. -/
def readableRecords (section_ text : Bytes) : List Bytes :=
  recordsFrom section_ [] (soundPrefix (configLines text))

theorem readableRecords_of_sound {section_ text : Bytes} (h : ¬ MalformedHeader text) :
    readableRecords section_ text = records section_ text := by
  rw [readableRecords, soundPrefix_of_sound h, records]

/-- A record is a data line without its comment. -/
theorem mem_readableRecords {section_ text r : Bytes} (h : r ∈ readableRecords section_ text) :
    ∃ raw ∈ text.splitOn chLf, ∃ content, lineOf raw = .data content ∧ r = uncomment content := by
  obtain ⟨⟨sec, content⟩, hd, rfl⟩ := List.mem_map.1 h
  have hl := (List.takeWhile_prefix _).subset (mem_dataFrom (List.mem_filter.1 hd).1)
  obtain ⟨raw, hraw, hline⟩ := List.mem_map.1 hl
  exact ⟨raw, hraw, content, hline, rfl⟩

theorem noNul_readableRecords (section_ : Bytes) {text r : Bytes} (h0 : (0 : UInt8) ∉ text)
    (h : r ∈ readableRecords section_ text) : (0 : UInt8) ∉ r := by
  obtain ⟨raw, hraw, content, hline, rfl⟩ := mem_readableRecords h
  intro hz
  have h1 : (0 : UInt8) ∈ content := mem_of_mem_uncomment hz
  rw [(lineOf_data hline).1] at h1
  exact h0 (mem_of_mem_splitOn hraw (mem_of_mem_trim h1))

/-- **`GetAndromedaBootConfigSectionEntry`** on a NUL-free text. -/
theorem getAndromedaBootConfigSectionEntry_spec {st : BootConfig} (hst : getBootConfig st = .ok config)
    (hnul : (0 : UInt8) ∉ config) (section_ : CStr) (entryIndex : Nat) (entry : Option Bytes)
    (capacity : Nat) (hentry : capacity > 0 → entry ≠ none) :
    getAndromedaBootConfigSectionEntry st (some section_) entryIndex entry (some capacity) =
      match (readableRecords section_.bytes config)[entryIndex]? with
      | some r => copyText r entry capacity
      | none =>
        if MalformedHeader config then ⟨.compromisedData, entry, some 0⟩ else ⟨.notFound, entry, some 0⟩ := by
  have hany : ¬ config.any (· == 0) = true := fun h => hnul (any_eq_zero_iff.1 h)
  have hloop := lineLoop_sim chLf (l := config) (R := EntryRel) (E := EntryExitRel config)
    (f := fun raw => entryStep section_.bytes entryIndex (lineOf raw)) (entryLine_sim section_ entryIndex)
    (fun t => by simp [lineOf, entryStep]) config.length 0 ⟨byteAt section_.bytes 0 == 0, 0⟩
    (sameName [] section_.bytes, 0) (Nat.zero_le _) (by omega) ⟨initial_flag section_, rfl⟩
  rw [List.drop_zero, foldLines_map (entryStep section_.bytes entryIndex) lineOf,
    ← configLines] at hloop
  have hfold := foldLines_entryStep section_.bytes entryIndex (configLines config) [] 0 (Nat.zero_le _)
  rw [Nat.sub_zero, ← readableRecords] at hfold
  simp only [getAndromedaBootConfigSectionEntry, hst]
  rw [if_neg (by tauto), if_neg hany]
  generalize lineLoop chLf config _ _ _ _ = r at hloop
  cases hrec : (readableRecords section_.bytes config)[entryIndex]? with
  | some rec =>
    simp only [hrec] at hfold
    rw [hfold] at hloop
    cases hloop with
    | exit h =>
      cases h with
      | entry h1 h2 => simp only [copyRange_eq h2]
  | none =>
    simp only [hrec] at hfold
    by_cases hmal : MalformedHeader config
    · rw [if_pos (show Line.malformed ∈ configLines config from hmal)] at hfold
      rw [hfold] at hloop
      simp only [hmal, ↓reduceIte]
      cases hloop with
      | exit h => cases h; rfl
    · rw [if_neg (show Line.malformed ∉ configLines config from hmal)] at hfold
      obtain ⟨s, hs⟩ := hfold
      rw [hs] at hloop
      simp only [hmal, ↓reduceIte]
      cases hloop
      rfl

end Andromeda
