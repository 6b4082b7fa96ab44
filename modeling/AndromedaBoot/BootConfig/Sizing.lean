import AndromedaBoot.BootConfig.Agree

/-!
# Asking for the size first

A caller may pass a buffer that is too small, learn the required size, and call again. `SizesExactly` says that this works
and that no error touches the buffer; both accessors of AndromedaBootConfigLib.c do it, for every state of the reader.

| here | there |
| --- | --- |
| `configParametersSection` | `ANDROMEDA_BOOT_CONFIG_CONFIG_PARAMETERS_SECTION`, Guid/AndromedaBootConfig.h:12 |
| `stripLoop`, `qcomLocateConfigurationMapStringByName` | QcomUefiPlatConfigParametersHelperLib.c:9-48 |

`QcomLocateConfigurationMapStringByName` takes the quotes off a value in place. The size it asks for is that of the value
with its quotes.
-/

namespace Andromeda

/-- `ANDROMEDA_BOOT_CONFIG_CONFIG_PARAMETERS_SECTION`. -/
def configParametersSection : CStr := ⟨ascii "ConfigParameters", by decide⟩

/-- `for (Index = 1; Index < ValueSize - 2; Index++) Value[Index - 1] = Value[Index];`, for `n` rounds. -/
def stripLoop (n : Nat) (value : Bytes) : Bytes := (List.range n).foldl (fun value i => value.set i (byteAt value (i + 1))) value

/-- `QcomLocateConfigurationMapStringByName` (:9). -/
def qcomLocateConfigurationMapStringByName (st : BootConfig) (key : Option CStr) (value : Option Bytes)
    (valBuffSize : Option Nat) : Access :=
  match key, valBuffSize with
  | some key, some capacity =>
    if capacity > 0 ∧ value = none then ⟨.invalidParameter, value, some capacity⟩
    else
      let r := getAndromedaBootConfigValue st (some configParametersSection) (some key) value (some capacity)
      if r.status ≠ .success then r
      else
        let valueSize := r.size.getD 0
        let value := r.buffer.getD []
        if valueSize > 1 ∧ byteAt value 0 = chQuote then
          if valueSize < 3 ∨ byteAt value (valueSize - 2) ≠ chQuote then ⟨.compromisedData, r.buffer, r.size⟩
          else ⟨.success, some ((stripLoop (valueSize - 3) value).set (valueSize - 3) 0), some (valueSize - 2)⟩
        else r
  | _, _ => ⟨.invalidParameter, value, valBuffSize⟩

/-! ## The accessors -/

/-- A call that is told its buffer is too small can be made again with the size it got, and a call that fails leaves the
buffer alone. -/
structure SizesExactly (call : Option Bytes → Nat → Access) : Prop where
  retry : ∀ buffer capacity r, (call buffer capacity).status = .bufferTooSmall → (call buffer capacity).size = some r →
    capacity < r ∧ ∃ text : Bytes, text.length + 1 = r ∧ (0 : UInt8) ∉ text ∧
      ∀ b c, r ≤ c → call (some b) c = ⟨.success, some (text ++ 0 :: b.drop r), some r⟩
  untouched : ∀ buffer capacity, (call buffer capacity).status ≠ .success → (call buffer capacity).buffer = buffer

variable {call : Option Bytes → Nat → Access} {text : Bytes}

theorem invalidParameter_ne_bufferTooSmall : EfiStatus.invalidParameter ≠ .bufferTooSmall := by decide

/-- A text that is found. -/
theorem sizesExactly_of_text (hnul : (0 : UInt8) ∉ text)
    (hcall : ∀ buffer capacity, (capacity > 0 → buffer ≠ none) → call buffer capacity = copyText text buffer capacity)
    (hnull : ∀ capacity, capacity > 0 → call none capacity = ⟨.invalidParameter, none, some capacity⟩) : SizesExactly call := by
  have hcases (buffer : Option Bytes) (capacity : Nat) :
      call buffer capacity = copyText text buffer capacity ∨ call buffer capacity = ⟨.invalidParameter, buffer, some capacity⟩ := by
    by_cases h : capacity > 0 ∧ buffer = none
    · obtain ⟨hpos, rfl⟩ := h
      exact .inr (hnull capacity hpos)
    · exact .inl (hcall buffer capacity fun hpos hnone => h ⟨hpos, hnone⟩)
  constructor
  · intro buffer capacity r hsmall hsize
    rcases hcases buffer capacity with h | h
    · rw [h, copyText] at hsmall hsize
      split_ifs at hsmall hsize with hcap
      obtain rfl : text.length + 1 = r := Option.some.inj hsize
      exact ⟨hcap, text, rfl, hnul, fun b c hc => (hcall (some b) c (by simp)).trans (copyText_success (by omega))⟩
    · rw [h] at hsmall
      exact absurd hsmall invalidParameter_ne_bufferTooSmall
  · intro buffer capacity hstatus
    rcases hcases buffer capacity with h | h
    · rw [h, copyText] at hstatus ⊢
      split_ifs at hstatus ⊢
      · rfl
      · exact absurd rfl hstatus
    · rw [h]

/-- Nothing is found. -/
theorem sizesExactly_of_error (h : ∀ buffer capacity, (call buffer capacity).status ≠ .bufferTooSmall ∧
    (call buffer capacity).buffer = buffer) : SizesExactly call :=
  ⟨fun buffer capacity _ hsmall => absurd hsmall (h buffer capacity).1, fun buffer capacity _ => (h buffer capacity).2⟩

/-- The same status for every caller that has a buffer. -/
theorem sizesExactly_of_refusal (status : EfiStatus) (hstatus : status ≠ .bufferTooSmall)
    (hcall : ∀ buffer capacity, (capacity > 0 → buffer ≠ none) → call buffer capacity = ⟨status, buffer, some 0⟩)
    (hnull : ∀ capacity, capacity > 0 → call none capacity = ⟨.invalidParameter, none, some capacity⟩) : SizesExactly call := by
  refine sizesExactly_of_error ?_
  intro buffer capacity
  by_cases h : capacity > 0 ∧ buffer = none
  · obtain ⟨hpos, rfl⟩ := h
    rw [hnull capacity hpos]
    exact ⟨invalidParameter_ne_bufferTooSmall, rfl⟩
  · rw [hcall buffer capacity fun hpos hnone => h ⟨hpos, hnone⟩]
    exact ⟨hstatus, rfl⟩

/-- The reader never blames the caller's buffer. -/
theorem getBootConfig_error {st : BootConfig} {status : EfiStatus} (h : getBootConfig st = .error status) :
    status ≠ .bufferTooSmall := by
  rintro rfl
  unfold getBootConfig at h
  split at h
  · split_ifs at h
    cases h
  · split at h
    · cases h
    · split_ifs at h
      cases h

theorem getAndromedaBootConfigValue_sizes (st : BootConfig) (section_ key : Option CStr) :
    SizesExactly fun buffer capacity => getAndromedaBootConfigValue st section_ key buffer (some capacity) := by
  obtain _ | section_ := section_
  · exact sizesExactly_of_error fun _ _ => ⟨invalidParameter_ne_bufferTooSmall, rfl⟩
  obtain _ | key := key
  · exact sizesExactly_of_error fun _ _ => ⟨invalidParameter_ne_bufferTooSmall, rfl⟩
  by_cases hkey : key.bytes = []
  · refine sizesExactly_of_error ?_
    intro buffer capacity
    rw [getAndromedaBootConfigValue, if_pos hkey]
    exact ⟨invalidParameter_ne_bufferTooSmall, rfl⟩
  have hnull (capacity : Nat) (hpos : capacity > 0) :
      getAndromedaBootConfigValue st (some section_) (some key) none (some capacity) = ⟨.invalidParameter, none, some capacity⟩ := by
    rw [getAndromedaBootConfigValue, if_neg hkey, if_pos ⟨hpos, rfl⟩]
  cases hst : getBootConfig st with
  | error status =>
    refine sizesExactly_of_refusal status (getBootConfig_error hst) ?_ hnull
    intro buffer capacity hbuffer
    rw [getAndromedaBootConfigValue, if_neg hkey, if_neg (by tauto), hst]
  | ok config =>
    by_cases hnul : (0 : UInt8) ∈ config
    · refine sizesExactly_of_refusal .compromisedData (by decide) ?_ hnull
      intro buffer capacity hbuffer
      rw [getAndromedaBootConfigValue, if_neg hkey, if_neg (by tauto), hst]
      exact if_pos (any_eq_zero_iff.2 hnul)
    have hspec := getAndromedaBootConfigValue_spec hst hnul section_ key hkey
    by_cases hfails : LookupFails section_.bytes key.bytes [] (configLines config) 0
    · simp only [if_pos hfails] at hspec
      exact sizesExactly_of_refusal .compromisedData (by decide) hspec hnull
    · simp only [if_neg hfails] at hspec
      cases hans : answers section_.bytes key.bytes config with
      | nil =>
        simp only [hans] at hspec
        exact sizesExactly_of_refusal .notFound (by decide) hspec hnull
      | cons en es =>
        simp only [hans] at hspec
        have hmem : en ∈ answers section_.bytes key.bytes config := hans ▸ List.mem_cons_self
        exact sizesExactly_of_text (noNul_entry hnul (List.mem_filter.1 hmem).1) hspec hnull

theorem getAndromedaBootConfigSectionEntry_sizes (st : BootConfig) (section_ : Option CStr) (entryIndex : Nat) :
    SizesExactly fun buffer capacity => getAndromedaBootConfigSectionEntry st section_ entryIndex buffer (some capacity) := by
  obtain _ | section_ := section_
  · exact sizesExactly_of_error fun _ _ => ⟨invalidParameter_ne_bufferTooSmall, rfl⟩
  have hnull (capacity : Nat) (hpos : capacity > 0) :
      getAndromedaBootConfigSectionEntry st (some section_) entryIndex none (some capacity) =
        ⟨.invalidParameter, none, some capacity⟩ := by
    rw [getAndromedaBootConfigSectionEntry, if_pos ⟨hpos, rfl⟩]
  cases hst : getBootConfig st with
  | error status =>
    refine sizesExactly_of_refusal status (getBootConfig_error hst) ?_ hnull
    intro buffer capacity hbuffer
    rw [getAndromedaBootConfigSectionEntry, if_neg (by tauto), hst]
  | ok config =>
    by_cases hnul : (0 : UInt8) ∈ config
    · refine sizesExactly_of_refusal .compromisedData (by decide) ?_ hnull
      intro buffer capacity hbuffer
      rw [getAndromedaBootConfigSectionEntry, if_neg (by tauto), hst]
      exact if_pos (any_eq_zero_iff.2 hnul)
    have hspec := getAndromedaBootConfigSectionEntry_spec hst hnul section_ entryIndex
    cases hrecord : (readableRecords section_.bytes config)[entryIndex]? with
    | some record =>
      simp only [hrecord] at hspec
      have hmem : record ∈ readableRecords section_.bytes config := List.mem_of_getElem? hrecord
      exact sizesExactly_of_text (noNul_readableRecords _ hnul hmem) hspec hnull
    | none =>
      simp only [hrecord] at hspec
      by_cases hmalformed : MalformedHeader config
      · simp only [if_pos hmalformed] at hspec
        exact sizesExactly_of_refusal .compromisedData (by decide) hspec hnull
      · simp only [if_neg hmalformed] at hspec
        exact sizesExactly_of_refusal .notFound (by decide) hspec hnull

/-! ## Values in quotes -/

/-- A value without its quotes; `none` if only one end has them. -/
def unquoted (v : Bytes) : Option Bytes :=
  if v.head? ≠ some chQuote then some v
  else if 2 ≤ v.length ∧ v.getLast? = some chQuote then some (v.drop 1).dropLast
  else none

/-- The text has moved by one. -/
theorem stripLoop_eq {n : Nat} {v : Bytes} (h : n < v.length) : stripLoop n v = (v.drop 1).take n ++ v.drop n := by
  induction n with
  | zero => rfl
  | succ n ih =>
    have hlen : ((v.drop 1).take n).length = n := by
      rw [List.length_take, List.length_drop]
      omega
    have hnext : byteAt (stripLoop n v) (n + 1) = v[n + 1] := by
      refine byteAt_of_getElem? ?_
      rw [ih (by omega), List.getElem?_append_right (by omega), hlen, List.getElem?_drop, Nat.add_sub_cancel' (Nat.le_succ n),
        List.getElem?_eq_getElem h]
    have hstep : stripLoop (n + 1) v = (stripLoop n v).set n (byteAt (stripLoop n v) (n + 1)) := by
      rw [stripLoop, List.range_succ, List.foldl_concat]
      rfl
    have htake : (v.drop 1).take (n + 1) = (v.drop 1).take n ++ [v[n + 1]] := by
      rw [List.take_add_one, List.getElem?_drop, Nat.add_comm 1 n, List.getElem?_eq_getElem h]
      rfl
    rw [hstep, hnext, ih (by omega), List.set_append_right _ _ (by omega), hlen, Nat.sub_self,
      List.drop_eq_getElem_cons (by omega : n < v.length),
      List.set_cons_zero, htake, List.append_assoc, List.singleton_append]

/-- What `QcomLocateConfigurationMapStringByName` makes of a value: a caller without room for it is told the size, and one
with room gets the text without quotes, or an error if the quotes do not match, and keeps what is behind its capacity. -/
structure StripsExactly (c : ConfigText) (key : CStr) (v : Bytes) : Prop where
  tooSmall : ∀ buffer capacity, (capacity > 0 → buffer ≠ none) → capacity < v.length + 1 →
    qcomLocateConfigurationMapStringByName c.installed (some key) buffer (some capacity) =
      ⟨.bufferTooSmall, buffer, some (v.length + 1)⟩
  handed : ∀ b capacity, v.length + 1 ≤ capacity → capacity ≤ b.length →
    ∃ status b' size, qcomLocateConfigurationMapStringByName c.installed (some key) (some b) (some capacity) =
        ⟨status, some b', some size⟩ ∧
      b'.length = b.length ∧ b'.drop capacity = b.drop capacity ∧
      match unquoted v with
      | some text => status = .success ∧ size = text.length + 1 ∧ (0 : UInt8) ∉ text ∧ ∃ rest, b' = text ++ 0 :: rest
      | none => status = .compromisedData

/-- The value in the caller's buffer. -/
theorem stored_spec {v b : Bytes} {capacity : Nat} (hcap : v.length + 1 ≤ capacity) (hlen : capacity ≤ b.length) :
    (v ++ 0 :: b.drop (v.length + 1)).length = b.length ∧ (v ++ 0 :: b.drop (v.length + 1)).drop capacity = b.drop capacity := by
  constructor
  · rw [List.length_append, List.length_cons, List.length_drop]
    omega
  · obtain ⟨k, rfl⟩ := Nat.exists_eq_add_of_le hcap
    rw [← List.drop_drop, List.drop_append, List.drop_of_length_le (Nat.le_succ v.length), Nat.add_sub_cancel_left,
      List.nil_append, List.drop_succ_cons, List.drop_zero, List.drop_drop]

/-- Both ends are quotes: the text moves over the first one, and its end over what was its last byte. -/
theorem strip_quoted {body rest : Bytes} :
    (stripLoop body.length (chQuote :: (body ++ chQuote :: rest))).set body.length 0 =
      body ++ 0 :: (chQuote :: (body ++ chQuote :: rest)).drop (body.length + 1) := by
  have hlen : body.length < (chQuote :: (body ++ chQuote :: rest)).length := by
    rw [List.length_cons, List.length_append]
    omega
  have htake : ((chQuote :: (body ++ chQuote :: rest)).drop 1).take body.length = body := List.take_left
  rw [stripLoop_eq hlen, htake, List.set_append_right _ _ le_rfl, Nat.sub_self, List.drop_eq_getElem_cons hlen,
    List.set_cons_zero]

/-- The byte in front of the terminator is the last one of the value. -/
theorem byteAt_last {v rest : Bytes} {x : UInt8} (hne : v ≠ []) :
    byteAt (v ++ rest) (v.length - 1) = x ↔ v.getLast? = some x := by
  have hpos : 0 < v.length := List.length_pos_iff.2 hne
  have hlast : (v ++ rest)[v.length - 1]? = some (v.getLast hne) := by
    rw [List.getElem?_append_left (by omega), ← List.getLast?_eq_getElem?, List.getLast?_eq_getLast_of_ne_nil hne]
  rw [byteAt_of_getElem? hlast, List.getLast?_eq_getLast_of_ne_nil hne, Option.some.injEq]

theorem stripsExactly {c : ConfigText} {key : CStr} {v : Bytes} (h : ReturnsValue c configParametersSection key v) :
    StripsExactly c key v := by
  constructor
  · intro buffer capacity hbuffer hcap
    have hcall := h.copyText hbuffer
    rw [copyText, if_pos hcap] at hcall
    rw [qcomLocateConfigurationMapStringByName, if_neg (by tauto), hcall]
    rfl
  · intro b capacity hcap hlen
    have hcall := h b capacity (by omega)
    obtain ⟨hstored, hbehind⟩ := stored_spec hcap hlen
    rw [qcomLocateConfigurationMapStringByName, if_neg (by simp), hcall]
    simp only [ne_eq, not_true_eq_false, if_false, Option.getD_some]
    by_cases hhead : v.head? = some chQuote
    · obtain ⟨u, rfl⟩ : ∃ u, v = chQuote :: u := by
        cases v with
        | nil => exact absurd hhead (by simp)
        | cons x u => exact ⟨u, by rw [Option.some.inj hhead]⟩
      rw [if_pos ⟨by simp, rfl⟩, unquoted, if_neg (not_not.2 hhead)]
      by_cases hlast : 2 ≤ (chQuote :: u).length ∧ (chQuote :: u).getLast? = some chQuote
      · obtain ⟨body, rfl⟩ : ∃ body, u = body ++ [chQuote] := by
          cases u with
          | nil => exact absurd hlast.1 (by decide)
          | cons x u => exact List.getLast?_eq_some_iff.1 (by simpa using hlast.2)
        have hsize : (chQuote :: (body ++ [chQuote])).length + 1 = body.length + 3 := by simp
        have hbytes (rest : Bytes) : chQuote :: (body ++ [chQuote]) ++ rest = chQuote :: (body ++ chQuote :: rest) := by simp
        have hsound : ¬ ((chQuote :: (body ++ [chQuote])).length + 1 < 3 ∨ ¬ byteAt (chQuote :: (body ++ [chQuote]) ++
            0 :: b.drop ((chQuote :: (body ++ [chQuote])).length + 1))
          ((chQuote :: (body ++ [chQuote])).length + 1 - 2) = chQuote) :=
          not_or.2 ⟨by omega, not_not.2 ((byteAt_last (List.cons_ne_nil _ _)).2 hlast.2)⟩
        have htext : ((chQuote :: (body ++ [chQuote])).drop 1).dropLast = body := by simp
        rw [if_neg hsound, if_pos hlast, htext]
        rw [hsize] at hcap hstored hbehind ⊢
        rw [hbytes] at hstored hbehind ⊢
        rw [Nat.add_sub_cancel, strip_quoted]
        obtain ⟨hmoved, hkept⟩ := stored_spec (v := body) (by omega : body.length + 1 ≤ capacity) (hstored ▸ hlen)
        have hnul : (0 : UInt8) ∉ body := fun h0 => h.noNul (by simp [h0])
        exact ⟨_, _, _, rfl, hmoved.trans hstored, hkept.trans hbehind, rfl, rfl, hnul, _, rfl⟩
      · have hbad : (chQuote :: u).length + 1 < 3 ∨ ¬ byteAt (chQuote :: u ++ 0 :: b.drop ((chQuote :: u).length + 1))
            ((chQuote :: u).length + 1 - 2) = chQuote := by
          by_contra hsound
          rw [not_or, not_not] at hsound
          exact hlast ⟨by omega, (byteAt_last (List.cons_ne_nil _ _)).1 hsound.2⟩
        rw [if_pos hbad, if_neg hlast]
        exact ⟨_, _, _, rfl, hstored, hbehind, rfl⟩
    · have hplain : ¬ (v.length + 1 > 1 ∧ byteAt (v ++ 0 :: b.drop (v.length + 1)) 0 = chQuote) := by
        rintro ⟨hpos, hfirst⟩
        cases v with
        | nil => exact absurd hpos (by decide)
        | cons x u => exact hhead (congrArg some hfirst)
      rw [if_neg hplain, unquoted, if_pos hhead]
      exact ⟨_, _, _, rfl, hstored, hbehind, rfl, rfl, h.noNul, _, rfl⟩

/-- **Asking for the size works** with both accessors, and with the values of the configuration map, whatever the
reader holds. -/
theorem sizing_exact (st : BootConfig) (section_ key : Option CStr) (entryIndex : Nat) (c : ConfigText) (name : CStr) (v : Bytes)
    (h : ReturnsValue c configParametersSection name v) :
    SizesExactly (fun buffer capacity => getAndromedaBootConfigValue st section_ key buffer (some capacity)) ∧
    SizesExactly (fun buffer capacity => getAndromedaBootConfigSectionEntry st section_ entryIndex buffer (some capacity)) ∧
    StripsExactly c name v :=
  ⟨getAndromedaBootConfigValue_sizes st section_ key, getAndromedaBootConfigSectionEntry_sizes st section_ entryIndex,
    stripsExactly h⟩

/-- A value with quotes around it, and a caller that wants to know its size. -/
theorem sizing_exact_quoted :
    qcomLocateConfigurationMapStringByName
        (ConfigText.installed ⟨ascii "[ConfigParameters]\nk = \"a;b\"", by decide, by decide, by decide⟩)
        (some ⟨ascii "k", by decide⟩) none (some 0) = ⟨.bufferTooSmall, none, some 6⟩ :=
  (sizing_exact ⟨none, none⟩ none none 0 ⟨ascii "[ConfigParameters]\nk = \"a;b\"", by decide, by decide, by decide⟩
    ⟨ascii "k", by decide⟩ (ascii "\"a;b\"")
    (returnsValue_iff.2 ⟨by decide, by decide +kernel, by decide +kernel⟩)).2.2.tooSmall none 0 (by decide) (by decide)

end Andromeda
