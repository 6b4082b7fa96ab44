import AndromedaBoot.BootConfig.Reader
import AndromedaBoot.BootConfig.Grammar

/-!
# The accessors implement the line grammar

`valueLine` and `entryLine`, the bodies of the two index-juggling loops, see of a line exactly what
`lineOf` sees of its bytes (`valueLine_sim`, `entryLine_sim`). By `lineLoop_sim` the loops are folds
over `configLines`, and the folds have closed forms: `foldLines_valueStep` and
`foldLines_entryStep`. From these come the specifications of the accessors,
`getAndromedaBootConfigValue_spec` and `getAndromedaBootConfigSectionEntry_spec`, which is all the
other modules use.
-/

namespace Andromeda

open Slice Lines

variable {config : Bytes} {i e : Nat}

/-! ## One line -/

theorem sectionHeader_spec {cs ce : Nat} (h : cs < ce) (he : ce ≤ config.length) :
    match sectionHeader config cs ce with
    | none => headerName (slice config (cs + 1) ce) = none
    | some (a, b) => a ≤ b ∧ b ≤ config.length ∧
      headerName (slice config (cs + 1) ce) = some (slice config a b) := by
  have hle := skipWhile_le (p := (· != chClose)) (show cs + 1 ≤ ce from h) he
  have hlt := skipWhile_lt_iff (p := (· != chClose)) (show cs + 1 ≤ ce from h) he
  have hmem : skipWhile (· != chClose) config (cs + 1) ce < ce ↔ chClose ∈ slice config (cs + 1) ce := by
    rw [hlt]
    simp
  have hto := slice_to_skipWhile (p := (· != chClose)) (show cs + 1 ≤ ce from h) he
  have hfrom := slice_from_skipWhile (p := (· != chClose)) (i := cs + 1) he
  have hge := le_skipWhile (p := (· != chClose)) (i := cs + 1) he
  simp only [sectionHeader, headerName]
  generalize skipWhile (· != chClose) config (cs + 1) ce = se at *
  by_cases hcl : chClose ∈ slice config (cs + 1) ce
  · have hselt := hmem.2 hcl
    have hdrop : ((slice config (cs + 1) ce).dropWhile (· != chClose)).drop 1 = slice config (se + 1) ce := by
      rw [← hfrom, drop_slice]
    obtain ⟨h1, h2, h3, h4⟩ := trimRange_spec config hge (by omega)
    generalize trimRange config (cs + 1) se = name at *
    obtain ⟨a, b⟩ := name
    have hrest := slice_from_skipWhile (p := isConfigSpace) (i := se + 1) he
    have hcle := skipWhile_le (p := isConfigSpace) (show se + 1 ≤ ce from hselt) he
    have hneq : (se == ce) = false := by simp; omega
    simp only [hneq, Bool.false_eq_true, ↓reduceIte, hcl, hdrop, ← hrest, ← hto, ← h4]
    generalize skipWhile isConfigSpace config (se + 1) ce = k at *
    by_cases hk : k < ce
    · obtain ⟨x, hx, hc⟩ := slice_cons (l := config) hk he
      rw [hc, byteAt_of_getElem? hx]
      by_cases hx' : x = chHash ∨ x = chSemicolon
      · rw [if_neg (by tauto)]
        simp only [hx', ↓reduceIte]
        exact ⟨h2, by simp only at h3; omega, trivial⟩
      · rw [if_pos (by tauto)]
        simp only [hx', ↓reduceIte]
    · rw [slice_eq_nil (show ce ≤ k by omega), if_neg (by tauto)]
      exact ⟨h2, by simp only at h3; omega, rfl⟩
  · have hseq : (se == ce) = true := by
      have : ¬ se < ce := fun hh => hcl (hmem.1 hh)
      simp
      omega
    simp [hseq, hcl]

/-- What the tests both line scans begin with find in the content `cs … ce`, for each kind of line. -/
inductive Sees (config : Bytes) (cs ce : Nat) : Line → Prop
  | blank (hlt : ¬ cs < ce) : Sees config cs ce .blank
  | comment (hlt : cs < ce) (hplain : (byteAt config cs != chHash && byteAt config cs != chSemicolon) = false) :
    Sees config cs ce .blank
  | malformed (hlt : cs < ce) (hplain : (byteAt config cs != chHash && byteAt config cs != chSemicolon) = true)
      (hopen : (byteAt config cs == chOpen) = true) (hheader : sectionHeader config cs ce = none) :
    Sees config cs ce .malformed
  | header (a b : Nat) (hlt : cs < ce)
      (hplain : (byteAt config cs != chHash && byteAt config cs != chSemicolon) = true)
      (hopen : (byteAt config cs == chOpen) = true) (hheader : sectionHeader config cs ce = some (a, b))
      (hab : a ≤ b) (hb : b ≤ config.length) : Sees config cs ce (.header (slice config a b))
  | data (hlt : cs < ce) (hplain : (byteAt config cs != chHash && byteAt config cs != chSemicolon) = true)
      (hopen : (byteAt config cs == chOpen) = false) (hce : ce ≤ config.length)
      (hrecord : uncomment (slice config cs ce) ≠ []) : Sees config cs ce (.data (slice config cs ce))

/-- The line scans see of a line what `lineOf` sees of its bytes. -/
theorem sees_lineOf (hi : i ≤ e) (he : e ≤ config.length) :
    Sees config (trimRange config i e).1 (trimRange config i e).2 (lineOf (slice config i e)) := by
  obtain ⟨-, -, hce, htrim⟩ := trimRange_spec _ hi he
  generalize (trimRange config i e).1 = cs at *
  generalize (trimRange config i e).2 = ce at *
  unfold lineOf
  by_cases hlt : cs < ce
  · obtain ⟨x, hx, hcons⟩ := slice_cons (l := config) hlt (by omega)
    rw [← byteAt_of_getElem? hx] at hcons
    have hhead : trimmed (slice config i e) = byteAt config cs :: slice config (cs + 1) ce := htrim.symm.trans hcons
    simp only [hhead]
    split_ifs with hcomment hopen
    · exact .comment hlt (by rcases hcomment with h | h <;> rw [h] <;> rfl)
    · -- a header: both sides read the same name
      have hplain : (byteAt config cs != chHash && byteAt config cs != chSemicolon) = true := by
        simpa [not_or] using hcomment
      have hheader := sectionHeader_spec hlt (hce.trans he)
      cases ho : sectionHeader config cs ce with
      | none =>
        simp only [ho] at hheader
        simp only [hheader]
        exact .malformed hlt hplain (beq_iff_eq.2 hopen) ho
      | some bounds =>
        simp only [ho] at hheader
        simp only [hheader.2.2]
        exact .header _ _ hlt hplain (beq_iff_eq.2 hopen) ho hheader.1 hheader.2.1
    · rw [← hcons]
      have hrecord : uncomment (slice config cs ce) ≠ [] := by
        rw [hcons]
        exact uncomment_ne_nil (head_trim hhead) (fun h => hcomment (.inl h)) (fun h => hcomment (.inr h))
      exact .data hlt (by simpa [not_or] using hcomment) (beq_false_of_ne hopen) (hce.trans he) hrecord
  · have hnil : trimmed (slice config i e) = [] := by rw [← htrim, slice_eq_nil (by omega)]
    simp only [hnil]
    exact .blank hlt

/-- The `=` of a data line cuts it into the ranges of its key and its value, with the key and the
value the grammar gives it. -/
theorem keyValue_spec {cs ce : Nat} (hlt : cs < ce) (hce : ce ≤ config.length) :
    let eq := skipWhile (· != chEquals) config cs ce
    let k := trimRange config cs eq
    let v := trimRange config (eq + 1) ce
    let u := trimRange config v.1 (trimInlineComment config v.1 v.2)
    ((eq == ce) = true ∧ keyValue (slice config cs ce) = none) ∨
    ((eq == ce) = false ∧ k.1 ≤ k.2 ∧ k.2 ≤ config.length ∧ u.1 ≤ u.2 ∧ u.2 ≤ config.length ∧
      keyValue (slice config cs ce) = some (slice config k.1 k.2, slice config u.1 u.2)) := by
  intro eq k v u
  have hmem : eq < ce ↔ chEquals ∈ slice config cs ce := by
    show skipWhile (· != chEquals) config cs ce < ce ↔ _
    rw [skipWhile_lt_iff (le_of_lt hlt) hce]
    simp
  have hto : slice config cs eq = beforeEquals (slice config cs ce) := slice_to_skipWhile (le_of_lt hlt) hce
  have hfrom : slice config eq ce = _ := slice_from_skipWhile hce
  have hge : cs ≤ eq := le_skipWhile hce
  have hle : eq ≤ ce := skipWhile_le (le_of_lt hlt) hce
  by_cases hin : chEquals ∈ slice config cs ce
  · have heq := hmem.2 hin
    obtain ⟨hk1, hk2, hk3, hk4⟩ := trimRange_spec config hge (by omega)
    obtain ⟨hv1, hv2, hv3, hv4⟩ := trimRange_spec config (show eq + 1 ≤ ce from heq) hce
    obtain ⟨hc1, hc2, hc3⟩ := trimInlineComment_spec config hv2 (by omega)
    obtain ⟨hu1, hu2, hu3, hu4⟩ := trimRange_spec config hc1 (by omega)
    refine .inr ⟨by simp; omega, hk2, hk3.trans (by omega), hu2, hu3.trans (by omega), ?_⟩
    have hafter : afterEquals (slice config cs ce) = slice config (eq + 1) ce := by
      rw [afterEquals, ← hfrom, drop_slice]
    rw [keyValue, if_pos hin, hk4, hu4, hc3, hv4, hto, hafter]
  · have : ¬ eq < ce := fun hh => hin (hmem.1 hh)
    exact .inl ⟨by simp; omega, by rw [keyValue, if_neg hin]⟩

theorem slice_eq_nil_iff {s t : Nat} (hs : s ≤ t) (ht : t ≤ config.length) :
    slice config s t = [] ↔ (s == t) = true := by
  rw [← List.length_eq_zero_iff, length_slice ht, beq_iff_eq]
  omega

/-! ## Folds over the lines -/

/-- One line of a value lookup: the flag "in the requested section" and the value found so far. -/
def valueStep (section_ key : Bytes) :
    Line → Bool × Option Bytes → Except EfiStatus (Bool × Option Bytes)
  | .blank, s => .ok s
  | .malformed, _ => .error .compromisedData
  | .header name, s => .ok (sameName name section_, s.2)
  | .data content, s =>
    match keyValue content with
    | none => .ok s
    | some (k, v) =>
      if k = [] then .error .compromisedData
      else if s.1 && sameName k key then
        if s.2.isSome then .error .compromisedData else .ok (s.1, some v)
      else .ok s

/-- The indices of a `ValueScan` denote the value found so far. -/
structure ValueRel (config : Bytes) (s : ValueScan) (t : Bool × Option Bytes) : Prop where
  flag : s.inRequestedSection = t.1
  range : s.found = true → s.matchedValueStart ≤ s.matchedValueEnd ∧ s.matchedValueEnd ≤ config.length
  value : t.2 = if s.found then some (slice config s.matchedValueStart s.matchedValueEnd) else none

theorem valueLine_sim (section_ key : CStr) (i e : Nat) (s : ValueScan) (t : Bool × Option Bytes)
    (hi : i ≤ e) (he : e ≤ config.length) (hR : ValueRel config s t) :
    Sim (· = ·) (ValueRel config) (valueLine config section_ key i e s)
      (valueStep section_.bytes key.bytes (lineOf (slice config i e)) t) := by
  have hsees := sees_lineOf hi he
  simp only [valueLine]
  generalize (trimRange config i e).1 = cs at *
  generalize (trimRange config i e).2 = ce at *
  generalize lineOf (slice config i e) = line at *
  cases hsees with
  | blank hlt =>
    simp only [hlt, ↓reduceIte]
    exact .cont hR
  | comment hlt hplain =>
    simp only [hlt, hplain, Bool.false_eq_true, ↓reduceIte]
    exact .cont hR
  | malformed hlt hplain hopen hheader =>
    simp only [hlt, hplain, hopen, hheader, ↓reduceIte]
    exact .exit rfl
  | header a b hlt hplain hopen hheader hab hb =>
    simp only [hlt, hplain, hopen, hheader, ↓reduceIte]
    exact .cont ⟨rangeEqualsString_spec section_ hab hb, hR.range, hR.value⟩
  | data hlt hplain hopen hce hrecord =>
    -- the `=` of the content, then key and value
    simp only [hlt, hplain, hopen, Bool.false_eq_true, ↓reduceIte, valueStep]
    obtain ⟨h1, h2⟩ | ⟨h1, h2, h3, h4, h5, h6⟩ := keyValue_spec hlt hce
    · simp only [h1, ↓reduceIte, h2]
      exact .cont hR
    · simp only [h1, Bool.false_eq_true, ↓reduceIte, h6, slice_eq_nil_iff h2 h3,
        rangeEqualsString_spec key h2 h3, hR.flag]
      generalize trimRange config cs _ = k at *
      generalize trimRange config _ (trimInlineComment _ _ _) = u at *
      by_cases hks : (k.1 == k.2) = true
      · simp only [hks, ↓reduceIte]
        exact .exit rfl
      · simp only [hks, Bool.false_eq_true, ↓reduceIte]
        by_cases hmatch : (t.1 && sameName (slice config k.1 k.2) key.bytes) = true
        · simp only [hmatch, ↓reduceIte, hR.value]
          by_cases hf : s.found = true
          · simp only [hf, ↓reduceIte, Option.isSome_some]
            exact .exit rfl
          · simp only [hf, Bool.false_eq_true, ↓reduceIte, Option.isSome_none]
            exact .cont ⟨rfl, fun _ => ⟨h4, h5⟩, rfl⟩
        · simp only [hmatch, Bool.false_eq_true, ↓reduceIte]
          exact .cont hR

/-- The lookup of `key` fails on these lines, `seen` answers having been found before. -/
def LookupFails (section_ key current : Bytes) (ls : List Line) (seen : Nat) : Prop :=
  Line.malformed ∈ ls ∨ (∃ en ∈ entriesFrom current ls, en.key = []) ∨
    2 ≤ seen + ((entriesFrom current ls).filter (Entry.answers section_ key)).length

instance (section_ key current : Bytes) (ls : List Line) (seen : Nat) :
    Decidable (LookupFails section_ key current ls seen) := inferInstanceAs (Decidable (_ ∨ _ ∨ _))

theorem foldLines_valueStep (section_ key : Bytes) :
    ∀ (ls : List Line) (cur : Bytes) (m : Option Bytes),
    (LookupFails section_ key cur ls m.toList.length ∧
      foldLines (valueStep section_ key) ls (sameName cur section_, m) = .error .compromisedData) ∨
    (¬ LookupFails section_ key cur ls m.toList.length ∧
      ∃ b, foldLines (valueStep section_ key) ls (sameName cur section_, m) =
        .ok (b, (m.toList ++ ((entriesFrom cur ls).filter (Entry.answers section_ key)).map Entry.value).head?))
  | [], cur, m => by
    refine .inr ⟨?_, sameName cur section_, ?_⟩
    · cases m <;> simp [LookupFails, entriesFrom, dataFrom]
    · cases m <;> simp [foldLines, entriesFrom, dataFrom]
  | .blank :: ls, cur, m => by
    have ih := foldLines_valueStep section_ key ls cur m
    simpa [LookupFails, foldLines, valueStep, entriesFrom, dataFrom] using ih
  | .malformed :: ls, cur, m => .inl ⟨.inl (by simp), rfl⟩
  | .header name :: ls, cur, m => by
    have ih := foldLines_valueStep section_ key ls name m
    simpa [LookupFails, foldLines, valueStep, entriesFrom, dataFrom] using ih
  | .data content :: ls, cur, m => by
    have ih := foldLines_valueStep section_ key ls cur
    cases hkv : keyValue content with
    | none =>
      have hent : entriesFrom cur (.data content :: ls) = entriesFrom cur ls := by
        simp [entriesFrom, dataFrom, hkv]
      have hstep : valueStep section_ key (.data content) (sameName cur section_, m) =
          .ok (sameName cur section_, m) := by simp [valueStep, hkv]
      simpa [LookupFails, foldLines, hstep, hent] using ih m
    | some kv =>
      obtain ⟨k, v⟩ := kv
      have hent : entriesFrom cur (.data content :: ls) = ⟨cur, k, v⟩ :: entriesFrom cur ls := by
        simp [entriesFrom, dataFrom, hkv]
      by_cases hk : k = []
      · refine .inl ⟨.inr (.inl ⟨_, by rw [hent]; exact List.mem_cons_self, hk⟩), ?_⟩
        simp [foldLines, valueStep, hkv, hk]
      · by_cases hans : Entry.answers section_ key ⟨cur, k, v⟩ = true
        · have hfl : (entriesFrom cur (.data content :: ls)).filter (Entry.answers section_ key) =
              ⟨cur, k, v⟩ :: (entriesFrom cur ls).filter (Entry.answers section_ key) := by
            rw [hent, List.filter_cons_of_pos hans]
          have hm : (sameName cur section_ && sameName k key) = true := hans
          cases m with
          | some w =>
            refine .inl ⟨.inr (.inr (by rw [hfl]; simp; omega)), ?_⟩
            simp [foldLines, valueStep, hkv, hk, hm]
          | none =>
            have hstep : valueStep section_ key (.data content) (sameName cur section_, none) =
                .ok (sameName cur section_, some v) := by simp [valueStep, hkv, hk, hm]
            have hfails : LookupFails section_ key cur (.data content :: ls) 0 ↔
                LookupFails section_ key cur ls 1 := by
              unfold LookupFails
              rw [hfl, hent, List.length_cons, Nat.zero_add, Nat.add_comm 1]
              simp [hk]
            have := ih (some v)
            simp only [foldLines, hstep, hfl, Option.toList_none, List.length_nil, hfails]
            simpa using this
        · have hfl : (entriesFrom cur (.data content :: ls)).filter (Entry.answers section_ key) =
              (entriesFrom cur ls).filter (Entry.answers section_ key) := by
            rw [hent, List.filter_cons_of_neg hans]
          have hm : ¬ (sameName cur section_ && sameName k key) = true := hans
          have hstep : valueStep section_ key (.data content) (sameName cur section_, m) =
              .ok (sameName cur section_, m) := by simp only [valueStep, hkv, hk, hm]; rfl
          have hfails : LookupFails section_ key cur (.data content :: ls) m.toList.length ↔
              LookupFails section_ key cur ls m.toList.length := by
            unfold LookupFails
            rw [hfl, hent]
            simp [hk]
          simp only [foldLines, hstep, hfl, hfails]
          exact ih m

/-! ## `GetAndromedaBootConfigValue` -/

/-- A text handed to the caller: the required size, or the text with its NUL. -/
def copyText (text : Bytes) (buffer : Option Bytes) (capacity : Nat) : Access :=
  if capacity < text.length + 1 then ⟨.bufferTooSmall, buffer, some (text.length + 1)⟩
  else ⟨.success, buffer.map fun b => text ++ 0 :: b.drop (text.length + 1), some (text.length + 1)⟩

theorem copyRange_eq {s t : Nat} (ht : t ≤ config.length) (buffer : Option Bytes) (capacity : Nat) :
    copyRange config s t buffer capacity = copyText (slice config s t) buffer capacity := by
  simp only [copyRange, copyText, length_slice ht]

/-- Initially the requested section is current exactly when its name is empty. -/
theorem initial_flag (section_ : CStr) :
    (byteAt section_.bytes 0 == 0) = sameName [] section_.bytes := by
  rw [sameName_nil_left, Bool.eq_iff_iff, beq_iff_eq, section_.byteAt_eq_zero, beq_iff_eq]
  simp

/-- The entries that answer a lookup. -/
def answers (section_ key text : Bytes) : List Entry :=
  (entries text).filter (Entry.answers section_ key)

/-- **`GetAndromedaBootConfigValue`** on a NUL-free text: the lookup fails, finds nothing, or hands
over the one value found. -/
theorem getAndromedaBootConfigValue_spec {st : BootConfig} (hst : getBootConfig st = .ok config)
    (hnul : (0 : UInt8) ∉ config) (section_ key : CStr) (hkey : key.bytes ≠ []) (value : Option Bytes)
    (capacity : Nat) (hvalue : capacity > 0 → value ≠ none) :
    getAndromedaBootConfigValue st (some section_) (some key) value (some capacity) =
      if LookupFails section_.bytes key.bytes [] (configLines config) 0 then ⟨.compromisedData, value, some 0⟩
      else match answers section_.bytes key.bytes config with
        | [] => ⟨.notFound, value, some 0⟩
        | en :: _ => copyText en.value value capacity := by
  have hany : ¬ config.any (· == 0) = true := fun h => hnul (any_eq_zero_iff.1 h)
  have hloop := lineLoop_sim chLf (l := config) (R := ValueRel config)
    (f := fun raw => valueStep section_.bytes key.bytes (lineOf raw)) (valueLine_sim section_ key)
    (fun t => by simp [lineOf, valueStep]) config.length 0 ⟨byteAt section_.bytes 0 == 0, false, 0, 0⟩
    (sameName [] section_.bytes, none) (Nat.zero_le _) (by omega)
    ⟨initial_flag section_, by simp, by simp⟩
  rw [List.drop_zero, foldLines_map (valueStep section_.bytes key.bytes) lineOf, ← configLines] at hloop
  simp only [getAndromedaBootConfigValue, hst]
  rw [if_neg hkey, if_neg (by tauto), if_neg hany]
  obtain ⟨hf, heq⟩ | ⟨hf, b, heq⟩ := foldLines_valueStep section_.bytes key.bytes (configLines config) [] none
  · rw [heq] at hloop
    rw [if_pos (by simpa using hf)]
    generalize lineLoop chLf config _ _ _ _ = r at hloop
    cases hloop with
    | exit h => rw [h]
  · rw [heq] at hloop
    rw [if_neg (by simpa using hf)]
    generalize lineLoop chLf config _ _ _ _ = r at hloop
    cases hloop with
    | @cont s _ h =>
      have hv := h.value
      simp only [Option.toList_none, List.nil_append, List.head?_map] at hv
      rw [← entries, ← answers] at hv
      cases hans : answers section_.bytes key.bytes config with
      | nil =>
        cases hfd : s.found with
        | false => simp [hfd]
        | true => simp [hans, hfd] at hv
      | cons en es =>
        cases hfd : s.found with
        | false => simp [hans, hfd] at hv
        | true =>
          simp only [hans, hfd, List.head?_cons, Option.map_some, ↓reduceIte, Option.some.injEq] at hv
          simp only [hfd, ↓reduceIte]
          rw [copyRange_eq (h.range hfd).2, hv]

/-- **The value accessor implements the line grammar.** On a text the reader accepts, a lookup is
refused exactly when a header is malformed, an entry has an empty key or two entries answer; otherwise
it reports `EFI_NOT_FOUND` exactly when no entry answers, and else hands over the one value: its bytes
and a NUL, or the size they need when the buffer is too small. A refusal or a miss reports size 0 and
leaves the buffer alone. -/
theorem getAndromedaBootConfigValue_grammar (c : ConfigText) (section_ key : CStr)
    (hkey : key.bytes ≠ []) (buffer : Bytes) (capacity : Nat) :
    let r := getAndromedaBootConfigValue c.installed (some section_) (some key) (some buffer) (some capacity)
    let refused := MalformedHeader c.bytes ∨ (∃ en ∈ entries c.bytes, en.key = []) ∨
      2 ≤ (answers section_.bytes key.bytes c.bytes).length
    (r.status = .compromisedData ↔ refused) ∧
    (¬ refused → (r.status = .notFound ↔ answers section_.bytes key.bytes c.bytes = [])) ∧
    (r.status = .compromisedData ∨ r.status = .notFound → r.buffer = some buffer ∧ r.size = some 0) ∧
    (∀ en, ¬ refused → answers section_.bytes key.bytes c.bytes = [en] →
      r.size = some (en.value.length + 1) ∧
      (capacity < en.value.length + 1 → r.status = .bufferTooSmall ∧ r.buffer = some buffer) ∧
      (en.value.length + 1 ≤ capacity → r.status = .success ∧
        r.buffer = some (en.value ++ 0 :: buffer.drop (en.value.length + 1)))) := by
  intro r refused
  have hr : r = _ := getAndromedaBootConfigValue_spec c.getBootConfig_installed c.noNul section_ key hkey
    (some buffer) capacity (by simp)
  have hiff : LookupFails section_.bytes key.bytes [] (configLines c.bytes) 0 ↔ refused := by
    unfold LookupFails
    rw [Nat.zero_add]
    rfl
  by_cases hrefused : refused
  · rw [if_pos (hiff.2 hrefused)] at hr
    simp [hr, hrefused]
  · rw [if_neg (fun h => hrefused (hiff.1 h))] at hr
    have hcopy : ∀ en : Entry, copyText en.value (some buffer) capacity =
        if capacity < en.value.length + 1 then ⟨.bufferTooSmall, some buffer, some (en.value.length + 1)⟩
        else ⟨.success, some (en.value ++ 0 :: buffer.drop (en.value.length + 1)),
          some (en.value.length + 1)⟩ :=
      fun en => by simp [copyText]
    cases hans : answers section_.bytes key.bytes c.bytes with
    | nil => simp [hr, hans, hrefused]
    | cons en es =>
      simp only [hans, hcopy] at hr
      by_cases hcap : capacity < en.value.length + 1
      · rw [if_pos hcap] at hr
        refine ⟨by simp [hr, hrefused], by simp [hr], by simp [hr], ?_⟩
        rintro en' - hone
        simp only [List.cons.injEq] at hone
        obtain ⟨rfl, -⟩ := hone
        exact ⟨by simp [hr], fun _ => by simp [hr], fun h => absurd h (by omega)⟩
      · rw [if_neg hcap] at hr
        refine ⟨by simp [hr, hrefused], by simp [hr], by simp [hr], ?_⟩
        rintro en' - hone
        simp only [List.cons.injEq] at hone
        obtain ⟨rfl, -⟩ := hone
        exact ⟨by simp [hr], fun h => absurd h hcap, fun _ => by simp [hr]⟩

/-- A lookup in a re-opened section, in another letter case, on a line with an inline comment. -/
theorem getAndromedaBootConfigValue_grammar_reopened :
    let c : ConfigText := ⟨ascii "[S]\na=1\n[T]\n[s] ; again\nKey = 7 # seven", by decide, by decide, by decide⟩
    (getAndromedaBootConfigValue c.installed (some ⟨ascii "S", by decide⟩) (some ⟨ascii "KEY", by decide⟩)
      (some (ascii "????")) (some 4)).buffer = some (ascii "7\x00??") :=
  (((getAndromedaBootConfigValue_grammar
      ⟨ascii "[S]\na=1\n[T]\n[s] ; again\nKey = 7 # seven", by decide, by decide, by decide⟩
      ⟨ascii "S", by decide⟩ ⟨ascii "KEY", by decide⟩ (by decide) (ascii "????") 4).2.2.2
    ⟨ascii "s", ascii "Key", ascii "7"⟩ (by decide +kernel) (by decide +kernel)).2.2 (by decide)).2

end Andromeda
