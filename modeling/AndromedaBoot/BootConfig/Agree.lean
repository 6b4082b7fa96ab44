import AndromedaBoot.BootConfig.Records

/-!
# One line, read by both accessors

`GetAndromedaBootConfigValue` starts its comment scan behind the `=`, where its first byte counts as
preceded by a blank (`Index == Start`, AndromedaBootConfigLib.c:142);
`GetAndromedaBootConfigSectionEntry` scans the same line from its start. The two agree on a
`key = value` line exactly when the text is sound and `CommentsAlign` holds of the line
(`accessors_agree_iff`): no comment opens in the key part, the value part does not begin with a comment
sign right behind the `=`, and the quotes of the key part do not shift the comments of the value part.
In a text that is not sound the value accessor refuses every key, the record accessor does not.
-/

namespace Andromeda

open Slice

/-! ## Moving the comment scan over known text -/

/-- Outside quotes, with no blank in front. -/
def QuoteState.fresh : QuoteState := ⟨false, false, false⟩

/-- A text that does not begin with a comment sign is scanned alike with and without a blank in front. -/
theorem commentAt_init {t : Bytes} (h : ∀ c ∈ t.head?, c ≠ chHash ∧ c ≠ chSemicolon) :
    commentAt .init t = commentAt .fresh t := by
  cases t with
  | nil => rfl
  | cons c t =>
    obtain ⟨h1, h2⟩ := h c (by simp)
    rw [commentAt_cons_of_ne h1 h2, commentAt_cons_of_ne h1 h2,
      step_of_flags (s := .init) (t := .fresh) rfl rfl]

/-- The comment sign a scan stops at. -/
theorem commentAt_split : ∀ {s : QuoteState} {t : Bytes} {k : Nat}, commentAt s t = some k →
    ∃ x r, t = t.take k ++ x :: r ∧ isConfigSpace x = false
  | _, [], _, h => by simp [commentAt] at h
  | s, c :: t, k, h => by
    rw [commentAt] at h
    split at h
    · next ho =>
      obtain rfl := Option.some.inj h
      exact ⟨c, t, rfl, (of_opensComment ho).2.2.2⟩
    · obtain ⟨j, hj, rfl⟩ := Option.map_eq_some_iff.1 h
      obtain ⟨x, r, hx, hb⟩ := commentAt_split hj
      exact ⟨x, r, by simpa using hx, hb⟩

/-- Two scans that leave the same text stop at the same comment. -/
theorem commentAt_of_beforeComment {s s' : QuoteState} {t : Bytes}
    (h : trimmed (beforeComment s t) = trimmed (beforeComment s' t)) : commentAt s t = commentAt s' t := by
  -- otherwise the scan that goes further keeps the comment sign of the other
  have key : ∀ {a b : QuoteState} {k : Nat}, commentAt a t = some k → (∀ j, commentAt b t = some j → k < j) →
      trimmed (beforeComment a t) ≠ trimmed (beforeComment b t) := by
    intro a b k ha hb heq
    obtain ⟨x, r, hx, hsp⟩ := commentAt_split ha
    have hlen := congrArg List.length heq
    have hbefore : ∃ r', beforeComment b t = t.take k ++ x :: r' := by
      unfold beforeComment
      cases hj : commentAt b t with
      | none => exact ⟨r, hx⟩
      | some j =>
        have hkj := hb j hj
        have hkl := commentAt_lt ha
        have htl : (t.take k).length = k := by simp; omega
        refine ⟨r.take (j - (k + 1)), ?_⟩
        simp only
        conv_lhs => rw [hx]
        rw [List.take_append, htl, List.take_of_length_le (by omega),
          show j - k = (j - (k + 1)) + 1 by omega,
          List.take_succ_cons]
    obtain ⟨r', hr'⟩ := hbefore
    have hlt : (trimmed (t.take k)).length < (trimmed (t.take k ++ x :: r')).length := length_trim_lt hsp
    rw [hr', beforeComment, ha] at hlen
    exact absurd hlen (Nat.ne_of_lt hlt)
  cases hs : commentAt s t with
  | none =>
    cases hs' : commentAt s' t with
    | none => rfl
    | some j => exact absurd h.symm (key hs' (by simp [hs]))
  | some k =>
    cases hs' : commentAt s' t with
    | none => exact absurd h (key hs (by simp [hs']))
    | some j =>
      rcases Nat.lt_trichotomy k j with hkj | rfl | hkj
      · exact absurd h (key hs (by simp [hs', hkj]))
      · rfl
      · exact absurd h.symm (key hs' (by simp [hs, hkj]))

/-- Comment removal behind the `=` is removal of a comment that a blank introduces, unless the value
part begins with a comment sign. -/
theorem uncomment_trimmed {v : Bytes} (h : ∀ c ∈ v.head?, c ≠ chHash ∧ c ≠ chSemicolon) :
    uncomment (trimmed v) = trimmed (beforeComment .fresh v) := by
  obtain ⟨a, b, hv, ha, hb⟩ := trim_decomp isConfigSpace v
  have hscan : commentAt .fresh v = (commentAt .init (trimmed v)).map (· + a.length) := by
    conv_lhs => rw [hv, List.append_assoc, commentAt_append, commentAt_blanks ha]
    simp only
    rw [commentAt_append, commentAt_blanks hb, Option.map_none]
    have hstart : commentAt (QuoteState.fresh.after a) (trimmed v) = commentAt .init (trimmed v) := by
      by_cases hnil : a = []
      · subst hnil
        refine (commentAt_init ?_).symm
        intro c hc
        apply h c
        rw [hv]
        cases htr : trimmed v with
        | nil => simp [htr] at hc
        | cons x t =>
          simp only [htr, List.head?_cons, Option.mem_def, Option.some.injEq] at hc
          simp [htr, hc]
      · rw [after_blanks ha hnil rfl]
    rw [hstart]
    cases commentAt .init (trimmed v) <;> rfl
  unfold uncomment beforeComment
  rw [hscan]
  cases hc : commentAt .init (trimmed v) with
  | none => exact trim_trim
  | some k =>
    have hk := commentAt_lt hc
    simp only [Option.map_some]
    have htake : v.take (k + a.length) = a ++ (trimmed v).take k := by
      conv_lhs => rw [hv]
      rw [List.append_assoc, List.take_append, List.take_of_length_le (by omega), Nat.add_sub_cancel,
        List.take_append_of_le_length (Nat.le_of_lt hk)]
    rw [htake]
    exact (trim_prepend_of_all ha).symm

/-! ## The line -/

theorem equals_split {t : Bytes} (h : chEquals ∈ t) :
    t = beforeEquals t ++ chEquals :: afterEquals t ∧ chEquals ∉ beforeEquals t := by
  have hfree : chEquals ∉ beforeEquals t := by
    intro hm
    simpa using List.mem_takeWhile_imp hm
  refine ⟨?_, hfree⟩
  have hsplit := List.takeWhile_append_dropWhile (p := (· != chEquals)) (l := t)
  unfold beforeEquals afterEquals
  cases hd : t.dropWhile (· != chEquals) with
  | nil =>
    rw [hd, List.append_nil] at hsplit
    rw [beforeEquals, hsplit] at hfree
    exact absurd h hfree
  | cons x r =>
    have hx : x = chEquals := by simpa using head_dropWhile hd
    subst hx
    rw [hd] at hsplit
    exact hsplit.symm

theorem equals_of_split {k v : Bytes} (h : chEquals ∉ k) :
    beforeEquals (k ++ chEquals :: v) = k ∧ afterEquals (k ++ chEquals :: v) = v := by
  have hall : ∀ x ∈ k, (x != chEquals) = true := fun x hx => by
    have : x ≠ chEquals := fun h0 => h (h0 ▸ hx)
    simpa using this
  constructor
  · rw [beforeEquals, List.takeWhile_append_of_pos hall]
    simp
  · rw [afterEquals, List.dropWhile_append_of_pos hall]
    simp

/-- The quote state behind the key part and its `=`. -/
def stateAtValue (content : Bytes) : QuoteState :=
  (QuoteState.init.after (beforeEquals content)).step chEquals

/-- Both accessors see the same comment, if any, on this line. -/
def CommentsAlign (content : Bytes) : Prop :=
  commentAt .init (beforeEquals content) = none ∧
  (∀ c ∈ (afterEquals content).head?, c ≠ chHash ∧ c ≠ chSemicolon) ∧
  commentAt (stateAtValue content) (afterEquals content) = commentAt .fresh (afterEquals content)

theorem stateAtValue_afterBlank (content : Bytes) : (stateAtValue content).afterBlank = false := by
  unfold stateAtValue QuoteState.step
  split_ifs <;> rfl

/-- The record text of a `key = value` line, when no comment opens in the key part. -/
theorem uncomment_keyValue {content : Bytes} (heq : chEquals ∈ content)
    (hhead : ∀ c ∈ content.head?, isConfigSpace c = false)
    (hkey : commentAt .init (beforeEquals content) = none) :
    uncomment content = beforeEquals content ++ chEquals ::
      (beforeComment (stateAtValue content) (afterEquals content)).rdropWhile isConfigSpace := by
  obtain ⟨hsplit, -⟩ := equals_split heq
  generalize hk : beforeEquals content = k at *
  generalize hv : afterEquals content = v at *
  have hbefore : beforeComment .init content = k ++ chEquals :: beforeComment (stateAtValue content) v := by
    unfold beforeComment
    rw [hsplit, commentAt_append, hkey]
    simp only
    rw [commentAt_cons_of_ne (by decide) (by decide), ← hsplit, stateAtValue, hk]
    cases hc : commentAt ((QuoteState.init.after k).step chEquals) v with
    | none => simpa using hsplit
    | some j =>
      simp only [Option.map_some]
      conv_lhs => rw [hsplit]
      rw [List.take_append, List.take_of_length_le (by omega),
        show j + 1 + k.length - k.length = j + 1 by omega,
        List.take_succ_cons]
  have hdrop : (k ++ chEquals :: beforeComment (stateAtValue content) v).dropWhile isConfigSpace =
      k ++ chEquals :: beforeComment (stateAtValue content) v := by
    cases k with
    | nil => rfl
    | cons x k =>
      have hx : isConfigSpace x = false := hhead x (by rw [hsplit]; simp)
      rw [List.cons_append, List.dropWhile_cons, hx]
      simp
  rw [uncomment, hbefore, trimmed, trim, hdrop, rdropWhile_append_cons rfl]

/-- A comment that opens in the key part takes the `=` away. -/
theorem equals_notMem_uncomment {content : Bytes} (heq : chEquals ∈ content)
    (hkey : commentAt .init (beforeEquals content) ≠ none) : chEquals ∉ uncomment content := by
  obtain ⟨hsplit, hfree⟩ := equals_split heq
  obtain ⟨k, hk⟩ := Option.ne_none_iff_exists'.1 hkey
  have hlt := commentAt_lt hk
  have hbefore : beforeComment .init content = (beforeEquals content).take k := by
    unfold beforeComment
    rw [show commentAt .init content = some k by rw [hsplit, commentAt_append, hk]]
    simp only
    conv_lhs => rw [hsplit]
    rw [List.take_append_of_le_length (by omega)]
  intro hm
  rw [uncomment, hbefore] at hm
  obtain ⟨a, b, hab, -, -⟩ := trim_decomp isConfigSpace ((beforeEquals content).take k)
  have : chEquals ∈ (beforeEquals content).take k := by
    rw [hab]
    simp [hm]
  exact hfree (List.mem_of_mem_take this)

/-! ## Both accessors on one text -/

/-- The record accessor hands over `text` to every caller with room for it. -/
def ReturnsEntry (c : ConfigText) (section_ : CStr) (i : Nat) (text : Bytes) : Prop :=
  ∀ (buffer : Bytes) (capacity : Nat), text.length < capacity →
    getAndromedaBootConfigSectionEntry c.installed (some section_) i (some buffer) (some capacity) =
      ⟨.success, some (text ++ 0 :: buffer.drop (text.length + 1)), some (text.length + 1)⟩

/-- The value accessor hands over `value` to every caller with room for it. -/
def ReturnsValue (c : ConfigText) (section_ key : CStr) (value : Bytes) : Prop :=
  ∀ (buffer : Bytes) (capacity : Nat), value.length < capacity →
    getAndromedaBootConfigValue c.installed (some section_) (some key) (some buffer) (some capacity) =
      ⟨.success, some (value ++ 0 :: buffer.drop (value.length + 1)), some (value.length + 1)⟩

theorem copyText_success {t : Bytes} {buffer : Bytes} {capacity : Nat} (h : t.length < capacity) :
    copyText t (some buffer) capacity =
      ⟨.success, some (t ++ 0 :: buffer.drop (t.length + 1)), some (t.length + 1)⟩ := by
  rw [copyText, if_neg (by omega)]
  rfl

/-- Two texts handed over to one roomy caller are the same text. -/
theorem copyText_injective {s t : Bytes} (h : ∀ (buffer : Bytes) (capacity : Nat), t.length < capacity →
    copyText s (some buffer) capacity = ⟨.success, some (t ++ 0 :: buffer.drop (t.length + 1)),
      some (t.length + 1)⟩) :
    s = t := by
  have h1 := h [] (s.length + t.length + 1) (by omega)
  rw [copyText_success (by omega)] at h1
  simp only [Access.mk.injEq, Option.some.injEq, true_and] at h1
  exact (List.append_inj h1.1 (by omega)).1

theorem returnsEntry_iff {c : ConfigText} {section_ : CStr} {i : Nat} {text : Bytes} :
    ReturnsEntry c section_ i text ↔ (readableRecords section_.bytes c.bytes)[i]? = some text := by
  have hspec := fun (buffer : Bytes) (capacity : Nat) => getAndromedaBootConfigSectionEntry_spec
    c.getBootConfig_installed c.noNul section_ i (some buffer) capacity (by simp)
  unfold ReturnsEntry
  simp only [hspec]
  cases hr : (readableRecords section_.bytes c.bytes)[i]? with
  | none =>
    simp only [reduceCtorEq, iff_false]
    intro h
    have := h [] (text.length + 1) (by omega)
    split_ifs at this <;> simp at this
  | some r =>
    simp only [Option.some.injEq]
    constructor
    · exact copyText_injective
    · rintro rfl buffer capacity hcap
      exact copyText_success hcap

/-- A value is handed over when the lookup is not refused and this value is the first answer. -/
theorem returnsValue_iff {c : ConfigText} {section_ key : CStr} {value : Bytes} :
    ReturnsValue c section_ key value ↔ key.bytes ≠ [] ∧
      ¬ LookupFails section_.bytes key.bytes [] (configLines c.bytes) 0 ∧
      (answers section_.bytes key.bytes c.bytes).head?.map Entry.value = some value := by
  by_cases hkey : key.bytes = []
  · simp only [ne_eq, hkey, not_true_eq_false, false_and, iff_false]
    intro h
    have := h [] (value.length + 1) (by omega)
    simp [getAndromedaBootConfigValue, hkey] at this
  · have hspec := fun (buffer : Bytes) (capacity : Nat) => getAndromedaBootConfigValue_spec
      c.getBootConfig_installed c.noNul section_ key hkey (some buffer) capacity (by simp)
    unfold ReturnsValue
    simp only [hspec]
    by_cases hf : LookupFails section_.bytes key.bytes [] (configLines c.bytes) 0
    · simp only [hf, ↓reduceIte, not_true_eq_false, false_and, and_false, iff_false]
      intro h
      have := h [] (value.length + 1) (by omega)
      simp at this
    · simp only [hf, ↓reduceIte, not_false_eq_true, true_and, ne_eq, hkey]
      cases hans : answers section_.bytes key.bytes c.bytes with
      | nil =>
        simp only [List.head?_nil, Option.map_none, reduceCtorEq, iff_false]
        intro h
        have := h [] (value.length + 1) (by omega)
        simp at this
      | cons en es =>
        simp only [List.head?_cons, Option.map_some, Option.some.injEq]
        constructor
        · exact copyText_injective
        · rintro rfl buffer capacity hcap
          exact copyText_success hcap

/-- The lookup of a key that occurs once fails only where the text is not sound. -/
theorem lookupFails_of_once {section_ key text : Bytes} (honce : (answers section_ key text).length = 1) :
    LookupFails section_ key [] (configLines text) 0 ↔ ¬ SoundText text := by
  have hlen : ((entriesFrom [] (configLines text)).filter (Entry.answers section_ key)).length = 1 := honce
  rw [LookupFails, hlen, SoundText, not_and_or, not_not, MalformedHeader, entries]
  simp

/-- In a sound text the only entry that answers is handed over, in another one none is. -/
theorem returnsValue_of_once {c : ConfigText} {section_ key : CStr} {en : Entry} {value : Bytes}
    (honce : answers section_.bytes key.bytes c.bytes = [en]) :
    ReturnsValue c section_ key value ↔ SoundText c.bytes ∧ value = en.value := by
  rw [returnsValue_iff, lookupFails_of_once (by rw [honce]; rfl), not_not, honce]
  constructor
  · rintro ⟨-, hsound, hvalue⟩
    exact ⟨hsound, by simpa using hvalue.symm⟩
  · rintro ⟨hsound, rfl⟩
    refine ⟨fun hnil => ?_, hsound, rfl⟩
    have hmem : en ∈ answers section_.bytes key.bytes c.bytes := by rw [honce]; exact List.mem_singleton_self _
    obtain ⟨hen, hans⟩ := List.mem_filter.1 hmem
    have hname : sameName en.key key.bytes = true := by simp only [Entry.answers, Bool.and_eq_true] at hans; exact hans.2
    rw [hnil, sameName_iff, List.map_nil, List.map_eq_nil_iff] at hname
    exact hsound.2 en hen hname

/-! ## The value that is read -/

section Value

variable {c : ConfigText} {section_ key : CStr} {v : Bytes}

theorem noNul_entry {text : Bytes} (h0 : (0 : UInt8) ∉ text) {en : Entry} (h : en ∈ entries text) : (0 : UInt8) ∉ en.value := by
  obtain ⟨⟨sec, content⟩, hd, hen⟩ := List.mem_filterMap.1 h
  obtain ⟨⟨k, value⟩, hkv, rfl⟩ := Option.map_eq_some_iff.1 hen
  obtain ⟨raw, hraw, hline⟩ := List.mem_map.1 (mem_dataFrom hd)
  unfold keyValue at hkv
  split_ifs at hkv
  obtain ⟨-, rfl⟩ := Prod.mk.inj (Option.some.inj hkv)
  intro hz
  have hafter : (0 : UInt8) ∈ afterEquals content := mem_of_mem_trim (mem_of_mem_uncomment hz)
  have hcontent : (0 : UInt8) ∈ content := (List.dropWhile_suffix _).subset (List.mem_of_mem_drop hafter)
  rw [(lineOf_data hline).1] at hcontent
  exact h0 (Lines.mem_of_mem_splitOn hraw (mem_of_mem_trim hcontent))

theorem ReturnsValue.noNul (h : ReturnsValue c section_ key v) : (0 : UInt8) ∉ v := by
  obtain ⟨-, -, hhead⟩ := returnsValue_iff.1 h
  obtain ⟨en, hen, rfl⟩ := Option.map_eq_some_iff.1 hhead
  have hmem : en ∈ answers section_.bytes key.bytes c.bytes := List.mem_of_mem_head? hen
  exact noNul_entry c.noNul (List.mem_filter.1 hmem).1

/-- The value goes to every caller in the same way. -/
theorem ReturnsValue.copyText (h : ReturnsValue c section_ key v) {buffer : Option Bytes} {capacity : Nat}
    (hbuffer : capacity > 0 → buffer ≠ none) :
    getAndromedaBootConfigValue c.installed (some section_) (some key) buffer (some capacity) = copyText v buffer capacity := by
  obtain ⟨hkey, hfound, hhead⟩ := returnsValue_iff.1 h
  rw [getAndromedaBootConfigValue_spec c.getBootConfig_installed c.noNul section_ key hkey buffer capacity hbuffer, if_neg hfound]
  cases hans : answers section_.bytes key.bytes c.bytes with
  | nil => simp [hans] at hhead
  | cons en es =>
    obtain rfl : en.value = v := by simpa [hans] using hhead
    rfl

/-- A value that is too long for the caller. -/
theorem ReturnsValue.tooSmall (h : ReturnsValue c section_ key v) {buffer : Bytes} {capacity : Nat} (hcap : capacity ≤ v.length) :
    (getAndromedaBootConfigValue c.installed (some section_) (some key) (some buffer) (some capacity)).status =
      .bufferTooSmall := by
  rw [h.copyText (by simp), Andromeda.copyText, if_pos (by omega)]

end Value

theorem eq_of_filterMap_length_one {α β : Type*} {f : α → Option β} :
    ∀ {l : List α}, (l.filterMap f).length = 1 → ∀ {x y : α}, x ∈ l → y ∈ l → f x ≠ none → f y ≠ none →
      x = y
  | [], h, _, _, hx, _, _, _ => by simp at hx
  | z :: l, h, x, y, hx, hy, hfx, hfy => by
    cases hz : f z with
    | none =>
      rw [List.filterMap_cons_none hz] at h
      have hxl : x ∈ l := by
        rcases List.mem_cons.1 hx with rfl | hx
        · exact absurd hz hfx
        · exact hx
      have hyl : y ∈ l := by
        rcases List.mem_cons.1 hy with rfl | hy
        · exact absurd hz hfy
        · exact hy
      exact eq_of_filterMap_length_one h hxl hyl hfx hfy
    | some b =>
      rw [List.filterMap_cons_some hz, List.length_cons, Nat.add_eq_right, List.length_eq_zero_iff,
        List.filterMap_eq_nil_iff] at h
      have hz' : ∀ w ∈ z :: l, f w ≠ none → w = z := by
        intro w hw hfw
        rcases List.mem_cons.1 hw with rfl | hw
        · rfl
        · exact absurd (h w hw) hfw
      exact (hz' x hx hfx).trans (hz' y hy hfy).symm

/-- The lookup of one data line. -/
def answerOf (section_ key : Bytes) (d : Bytes × Bytes) : Option Entry :=
  ((keyValue d.2).map fun kv => (⟨d.1, kv.1, kv.2⟩ : Entry)).filter (Entry.answers section_ key)

theorem answers_eq_filterMap (section_ key text : Bytes) :
    answers section_ key text = (dataFrom [] (configLines text)).filterMap (answerOf section_ key) := by
  rw [answers, entries, entriesFrom, List.filter_filterMap]
  rfl

theorem answerOf_eq {section_ key : Bytes} {d : Bytes × Bytes} (heq : chEquals ∈ d.2)
    (hsec : sameName d.1 section_ = true) (hkey : trimmed (beforeEquals d.2) = key) :
    answerOf section_ key d = some ⟨d.1, key, uncomment (trimmed (afterEquals d.2))⟩ := by
  have : Entry.answers section_ key ⟨d.1, key, uncomment (trimmed (afterEquals d.2))⟩ = true := by
    simp [Entry.answers, hsec]
  simp [answerOf, keyValue, heq, hkey, this]

/-- A value part that begins with a comment sign is a comment to the value accessor. -/
theorem uncomment_trimmed_of_sign {c : UInt8} {t : Bytes} (h : c = chHash ∨ c = chSemicolon) :
    uncomment (trimmed (c :: t)) = [] := by
  have hc : isConfigSpace c = false := by rcases h with rfl | rfl <;> rfl
  have hopens : QuoteState.init.opensComment c = true := by rcases h with rfl | rfl <;> rfl
  have htr : trimmed (c :: t) = c :: t.rdropWhile isConfigSpace := by
    have := rdropWhile_append_cons (a := []) (b := t) hc
    rw [trimmed, trim, List.dropWhile_cons, hc]
    simpa using this
  rw [htr, uncomment, beforeComment, commentAt, hopens]
  simp

/-- Away from a blank the scan keeps the first byte. -/
theorem trimmed_beforeComment_ne_nil {s : QuoteState} (hs : s.afterBlank = false) {c : UInt8}
    {t : Bytes} (hc : isConfigSpace c = false) : trimmed (beforeComment s (c :: t)) ≠ [] := by
  have hopens : s.opensComment c = false := by simp [QuoteState.opensComment, hs]
  have hfirst : c ∈ beforeComment s (c :: t) := by
    rw [beforeComment, commentAt, hopens]
    cases commentAt (s.step c) t <;> simp
  rw [Ne, trimmed, trim_eq_nil_iff]
  intro hall
  simp [hall c hfirst] at hc

/-- The record of a data line that still holds an `=` has the key part of the line. -/
theorem record_keyPart {content : Bytes} (hhead : ∀ c ∈ content.head?, isConfigSpace c = false)
    (h : chEquals ∈ uncomment content) :
    chEquals ∈ content ∧ commentAt .init (beforeEquals content) = none ∧
      beforeEquals (uncomment content) = beforeEquals content ∧
      afterEquals (uncomment content) =
        (beforeComment (stateAtValue content) (afterEquals content)).rdropWhile isConfigSpace := by
  have heq : chEquals ∈ content := by
    obtain ⟨a, b, hab, -, -⟩ := trim_decomp isConfigSpace (beforeComment .init content)
    have hm : chEquals ∈ beforeComment .init content := by
      rw [hab]
      exact List.mem_append_left _ (List.mem_append_right _ h)
    unfold beforeComment at hm
    split at hm
    · exact hm
    · exact List.mem_of_mem_take hm
  have hkey : commentAt .init (beforeEquals content) = none := by
    by_contra hne
    exact equals_notMem_uncomment heq hne h
  have hu := uncomment_keyValue heq hhead hkey
  have hsplit := equals_of_split (v := (beforeComment (stateAtValue content) (afterEquals content)).rdropWhile
    isConfigSpace) (equals_split heq).2
  rw [← hu] at hsplit
  exact ⟨heq, hkey, hsplit.1, hsplit.2⟩

theorem head_of_mem_dataFrom {c : ConfigText} {d : Bytes × Bytes}
    (hd : d ∈ dataFrom [] (configLines c.bytes)) :
    ∀ x ∈ d.2.head?, isConfigSpace x = false := by
  obtain ⟨raw, -, hraw⟩ := List.mem_map.1 (mem_dataFrom hd)
  obtain ⟨-, x, t, hx, hb, -⟩ := lineOf_data hraw
  simpa [hx] using hb

/-- Where both accessors give the value part the same value, they see the same comment in it. -/
theorem CommentsAlign.of_value_eq {content : Bytes}
    (hkey : commentAt .init (beforeEquals content) = none)
    (h : trimmed (beforeComment (stateAtValue content) (afterEquals content)) = uncomment (trimmed (afterEquals content))) :
    CommentsAlign content := by
  have hsign : ∀ x ∈ (afterEquals content).head?, x ≠ chHash ∧ x ≠ chSemicolon := by
    intro x hx
    cases hve : afterEquals content with
    | nil => simp [hve] at hx
    | cons y r =>
      obtain rfl : y = x := by simpa [hve] using hx
      by_contra hcon
      have hs : y = chHash ∨ y = chSemicolon := by tauto
      rw [hve, uncomment_trimmed_of_sign hs] at h
      have hy : isConfigSpace y = false := by rcases hs with rfl | rfl <;> rfl
      exact trimmed_beforeComment_ne_nil (stateAtValue_afterBlank _) hy h
  refine ⟨hkey, hsign, commentAt_of_beforeComment ?_⟩
  rw [← uncomment_trimmed hsign]
  exact h

/-- The only line that answers gives the only answer. -/
theorem answers_of_only_line {section_ key text : Bytes} {d : Bytes × Bytes} {en : Entry}
    (hd : d ∈ dataFrom [] (configLines text)) (hans : answerOf section_ key d = some en)
    (honce : (answers section_ key text).length = 1) :
    answers section_ key text = [en] := by
  obtain ⟨only, honly⟩ := List.length_eq_one_iff.1 honce
  have hmem : en ∈ answers section_ key text := by
    rw [answers_eq_filterMap]
    exact List.mem_filterMap.2 ⟨d, hd, hans⟩
  rw [honly, List.mem_singleton] at hmem
  rw [honly, hmem]

/-- **When the two accessors agree on a line.** Take a data line of the section with an `=`, whose key
occurs once in the section. Some number gives the record accessor a text that splits at its `=` into the
key and the value of the value accessor, both accessors removing just the comments that a blank
introduces outside quotes, exactly when the text is sound and `CommentsAlign` holds of the line. -/
theorem accessors_agree_iff (c : ConfigText) (section_ key : CStr) (d : Bytes × Bytes)
    (hd : d ∈ dataFrom [] (configLines c.bytes)) (hsec : sameName d.1 section_.bytes = true)
    (heq : chEquals ∈ d.2) (hkey : key.bytes = trimmed (beforeEquals d.2))
    (honce : (answers section_.bytes key.bytes c.bytes).length = 1) :
    (∃ i text value, ReturnsEntry c section_ i text ∧ ReturnsValue c section_ key value ∧
      chEquals ∈ text ∧ trimmed (beforeEquals text) = key.bytes ∧ trimmed (afterEquals text) = value ∧
      text = trimmed (beforeComment .fresh d.2) ∧
        value = trimmed (beforeComment .fresh (afterEquals d.2))) ↔
    SoundText c.bytes ∧ CommentsAlign d.2 := by
  have hhead := head_of_mem_dataFrom hd
  have hans := answerOf_eq heq hsec hkey.symm
  have hreturns (value : Bytes) :
      ReturnsValue c section_ key value ↔ SoundText c.bytes ∧ value = uncomment (trimmed (afterEquals d.2)) :=
    returnsValue_of_once (answers_of_only_line hd hans honce)
  constructor
  · rintro ⟨i, text, value, hentry, hvalue, hmem, hk, ha, -, -⟩
    obtain ⟨hsound, hv⟩ := (hreturns value).1 hvalue
    -- the record comes from a data line with the same key, so from this line
    rw [returnsEntry_iff, readableRecords_of_sound hsound.1] at hentry
    obtain ⟨d', hd', rfl⟩ := List.mem_map.1 (List.mem_of_getElem? hentry)
    obtain ⟨hmem', hsec'⟩ := List.mem_filter.1 hd'
    obtain ⟨heq', hcomm, hbe, haf⟩ := record_keyPart (head_of_mem_dataFrom hmem') hmem
    rw [hbe] at hk
    rw [answers_eq_filterMap] at honce
    obtain rfl : d' = d := eq_of_filterMap_length_one honce hmem' hd
      (by rw [answerOf_eq heq' hsec' hk]; simp) (by rw [hans]; simp)
    rw [haf, trimmed, trim_rdropWhile, hv] at ha
    exact ⟨hsound, .of_value_eq hcomm ha⟩
  · rintro ⟨hsound, hcomm, hsign, halign⟩
    have hu := uncomment_keyValue heq hhead hcomm
    have hm : chEquals ∈ uncomment d.2 := by
      rw [hu]
      simp
    obtain ⟨-, -, hbe, haf⟩ := record_keyPart hhead hm
    have hrec : uncomment d.2 ∈ records section_.bytes c.bytes :=
      List.mem_map.2 ⟨d, List.mem_filter.2 ⟨hd, hsec⟩, rfl⟩
    obtain ⟨i, hi⟩ := List.mem_iff_getElem?.1 hrec
    refine ⟨i, uncomment d.2, uncomment (trimmed (afterEquals d.2)), ?_, (hreturns _).2 ⟨hsound, rfl⟩, hm, ?_, ?_, ?_, ?_⟩
    · rw [returnsEntry_iff, readableRecords_of_sound hsound.1]
      exact hi
    · rw [hbe, hkey]
    · rw [haf, trimmed, trim_rdropWhile, uncomment_trimmed hsign]
      unfold beforeComment
      rw [halign]
    · obtain ⟨raw, -, hraw⟩ := List.mem_map.1 (mem_dataFrom hd)
      obtain ⟨-, x, r, hx, -, hx1, hx2, -⟩ := lineOf_data hraw
      unfold uncomment beforeComment
      rw [commentAt_init (t := d.2) (by simp [hx, hx1, hx2])]
    · rw [uncomment_trimmed hsign]

/-- The accessors agree on `k = "a # b" # c`, where only the second `#` opens a comment. -/
theorem accessors_agree_on_quoted_value :
    let c : ConfigText := ⟨ascii "[S]\nk = \"a # b\" # c", by decide, by decide, by decide⟩
    ∃ i text value, ReturnsEntry c ⟨ascii "S", by decide⟩ i text ∧
      ReturnsValue c ⟨ascii "S", by decide⟩ ⟨ascii "k", by decide⟩ value ∧
      chEquals ∈ text ∧ trimmed (beforeEquals text) = ascii "k" ∧ trimmed (afterEquals text) = value ∧
      text = trimmed (beforeComment .fresh (ascii "k = \"a # b\" # c")) ∧
      value = trimmed (beforeComment .fresh (ascii " \"a # b\" # c")) :=
  (accessors_agree_iff ⟨ascii "[S]\nk = \"a # b\" # c", by decide, by decide, by decide⟩ ⟨ascii "S", by decide⟩
    ⟨ascii "k", by decide⟩ (ascii "S", ascii "k = \"a # b\" # c") (by decide +kernel) (by decide) (by decide)
    (by decide +kernel) (by decide +kernel)).2
    ⟨by decide +kernel, by decide +kernel, by decide +kernel, by decide +kernel⟩

/-- The line `k=#b`: the value accessor takes `#b` for a comment though no blank introduces it, the
record accessor keeps it. -/
theorem accessors_disagree_on_sign_behind_equals :
    let c : ConfigText := ⟨ascii "[S]\nk=#b", by decide, by decide, by decide⟩
    let section_ : CStr := ⟨ascii "S", by decide⟩
    let key : CStr := ⟨ascii "k", by decide⟩
    (ascii "S", ascii "k=#b") ∈ dataFrom [] (configLines c.bytes) ∧
    (answers section_.bytes key.bytes c.bytes).length = 1 ∧
    ReturnsValue c section_ key [] ∧ ReturnsEntry c section_ 0 (ascii "k=#b") ∧
    ¬ ∃ i text value, ReturnsEntry c section_ i text ∧ ReturnsValue c section_ key value ∧
      chEquals ∈ text ∧ trimmed (beforeEquals text) = key.bytes ∧
        trimmed (afterEquals text) = value := by
  intro c section_ key
  have hrec : readableRecords section_.bytes c.bytes = [ascii "k=#b"] := by decide +kernel
  have hval : ReturnsValue c section_ key [] :=
    returnsValue_iff.2 ⟨by decide, by decide +kernel, by decide +kernel⟩
  refine ⟨by decide +kernel, by decide +kernel, hval, returnsEntry_iff.2 (by rw [hrec]; rfl), ?_⟩
  rintro ⟨i, text, value, hentry, hvalue, -, -, ha⟩
  rw [returnsEntry_iff, hrec] at hentry
  obtain rfl : text = ascii "k=#b" := by simpa using List.mem_of_getElem? hentry
  obtain rfl : value = [] := by
    have h1 := (returnsValue_iff.1 hvalue).2.2
    rw [(returnsValue_iff.1 hval).2.2] at h1
    exact (Option.some.inj h1).symm
  revert ha
  decide

end Andromeda
