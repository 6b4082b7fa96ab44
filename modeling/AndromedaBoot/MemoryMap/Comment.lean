import AndromedaBoot.MemoryMap.Section

/-!
# A record with a trailing comment

Two scanners read a record line one after the other. The comment stripper (`TrimInlineComment`) takes a
backslash inside quotes as an escape; the splitter (`MemoryMapConfigSplitCsv`) takes a doubled quote as
one. Where the stripper believes that a quote is still open at the end of an accepted record, it keeps
a comment appended there, and the comment ends up in the last field. This module shows that there is no
other way to lose a record by commenting it.
-/

namespace Andromeda

open Slice Fill

/-! ## Text behind an accepted record -/

/-- The splitter goes on where the record ended, unless a quote follows that could pair up with its
last one. -/
theorem splitLoop_append {n : Nat} {u : Bytes} (hu : byteAt u 0 ≠ chQuote) :
    ∀ (t : Bytes) (skip inQuotes : Bool) (field : Bytes) (fields : List Bytes) {q : Bool} {f : Bytes}
      {fs : List Bytes}, (t = [] → skip = false) →
      splitLoop n t skip inQuotes field fields = some (q, fs ++ [f]) →
      splitLoop n (t ++ u) skip inQuotes field fields = splitLoop n u false q f fs := by
  intro t
  induction t with
  | nil =>
    intro skip inQuotes field fields q f fs hskip h
    simp only [splitLoop, Option.some.injEq, Prod.mk.injEq] at h
    obtain ⟨rfl, h⟩ := h
    obtain ⟨rfl, hf⟩ := List.append_inj' h rfl
    obtain rfl : field = f := by simpa using hf
    rw [hskip rfl, List.nil_append]
  | cons c t ih =>
    intro skip inQuotes field fields q f fs _ h
    have hpeek : (byteAt (t ++ u) 0 == chQuote) = (byteAt t 0 == chQuote) := by
      cases t with
      | nil =>
        rw [List.nil_append, beq_eq_false_iff_ne.2 hu]
        rfl
      | cons d t => rfl
    have hne : byteAt t 0 == chQuote → t ≠ [] := by
      rintro hq rfl
      exact absurd hq (by decide)
    simp only [List.cons_append, splitLoop, hpeek] at h ⊢
    split_ifs at h ⊢ with h1 h2 h3 h4 h5
    · exact ih _ _ _ _ (fun _ => rfl) h
    · exact ih _ _ _ _ (fun h0 => absurd h0 (hne (by simp at h3; simp [h3.2]))) h
    · exact ih _ _ _ _ (fun _ => rfl) h
    · exact ih _ _ _ _ (fun _ => rfl) h
    · exact ih _ _ _ _ (fun _ => rfl) h

/-- In the last field the splitter either fails on a comma or takes all that is left. -/
theorem splitLoop_last {n : Nat} :
    ∀ (u : Bytes) (skip inQuotes : Bool) (field : Bytes) (fields : List Bytes),
    fields.length + 1 ≥ n →
    splitLoop n u skip inQuotes field fields = none ∨
      ∃ q, splitLoop n u skip inQuotes field fields = some (q, fields ++ [field ++ u]) := by
  intro u
  induction u with
  | nil =>
    intro skip inQuotes field fields _
    exact .inr ⟨inQuotes, by simp [splitLoop]⟩
  | cons c u ih =>
    intro skip inQuotes field fields hn
    have hih := fun skip inQuotes => ih skip inQuotes (field ++ [c]) fields hn
    simp only [List.append_assoc, List.singleton_append] at hih
    simp only [splitLoop]
    split_ifs
    · exact hih _ _
    · exact hih _ _
    · exact hih _ _
    · exact .inl rfl
    · exact hih _ _

theorem mem_halveQuotes {c : UInt8} (hc : c ≠ chQuote) :
    ∀ (t : Bytes) (copy : Bool), c ∈ t → c ∈ halveQuotes t copy
  | [], _, h => by simp at h
  | d :: t, copy, h => by
    rw [halveQuotes]
    split_ifs with hpair
    · have hd : d = chQuote := by simp at hpair; exact hpair.1.2
      have hne : c ≠ d := by rw [hd]; exact hc
      exact mem_halveQuotes hc t true (by simpa [hne] using h)
    · rcases List.mem_cons.1 h with rfl | h
      · simp
      · exact List.mem_cons_of_mem _ (mem_halveQuotes hc t false h)

/-- Halving pairs of quotes keeps the last byte. -/
theorem getLast?_halveQuotes : ∀ (t : Bytes) (copy : Bool), (halveQuotes t copy).getLast? = t.getLast?
  | [], _ => rfl
  | c :: t, copy => by
    rw [halveQuotes]
    split_ifs with hpair
    · rw [getLast?_halveQuotes t true]
      cases t with
      | nil =>
        have hq : (byteAt [] 0 == chQuote) = false := rfl
        simp [hq] at hpair
      | cons d t => simp
    · rw [List.getLast?_cons, List.getLast?_cons, getLast?_halveQuotes t false]

/-- A byte that is neither a blank nor a quote survives in its field. -/
theorem mem_csvField {c : UInt8} (hblank : isFieldBlank c = false) (hquote : c ≠ chQuote)
    {field x : Bytes} (hmem : c ∈ field) (h : csvField field = some x) : c ∈ x := by
  have htrim : c ∈ memoryMapConfigTrimField field := mem_trim_of_mem hmem hblank
  unfold csvField at h
  generalize memoryMapConfigTrimField field = f at h htrim
  simp only at h
  split_ifs at h with h1 h2 h3 h4
  · obtain rfl := Option.some.inj h
    simp only [not_or, not_lt, ne_eq, not_not] at h2
    cases f with
    | nil => simp at htrim
    | cons d t =>
      have hd : d = chQuote := by simpa [byteAt] using h1
      have hct : c ∈ t := by simpa [hd, hquote] using htrim
      have hne : t ≠ [] := List.ne_nil_of_mem hct
      have hlast : t.getLast? = some chQuote := by
        have h5 := h2.2
        rw [List.length_cons, Nat.add_sub_cancel, byteAt, List.getD_eq_getElem?_getD,
          ← Nat.succ_pred_eq_of_pos (List.length_pos_iff.2 hne), List.getElem?_cons_succ, Nat.pred_eq_sub_one,
          ← List.getLast?_eq_getElem?] at h5
        cases hl : t.getLast? with
        | none => exact absurd (List.getLast?_eq_none_iff.1 hl) hne
        | some y =>
          rw [hl, Option.getD_some] at h5
          rw [h5]
      have hm := mem_halveQuotes hquote t false hct
      have hl := (getLast?_halveQuotes t false).trans hlast
      simp only [List.drop_one, List.tail_cons]
      obtain ⟨r, hr⟩ := List.getLast?_eq_some_iff.1 hl
      rw [hr] at hm ⊢
      simpa [hquote] using hm
  · obtain rfl := Option.some.inj h
    exact htrim

/-! ## Bytes of the fields come from the record -/

theorem mem_of_mem_splitLoop {n : Nat} {x : UInt8} :
    ∀ {t : Bytes} {skip inQuotes : Bool} {field : Bytes}
    {fields : List Bytes} {q : Bool} {fs : List Bytes}, splitLoop n t skip inQuotes field fields = some (q, fs) →
    ∀ f ∈ fs, x ∈ f → x ∈ t ∨ x ∈ field ∨ ∃ g ∈ fields, x ∈ g := by
  intro t
  induction t with
  | nil =>
    intro skip inQuotes field fields q fs h f hf hx
    simp only [splitLoop, Option.some.injEq, Prod.mk.injEq] at h
    obtain ⟨-, rfl⟩ := h
    rcases List.mem_append.1 hf with hf | hf
    · exact .inr (.inr ⟨f, hf, hx⟩)
    · exact .inr (.inl (by simpa using List.mem_singleton.1 hf ▸ hx))
  | cons c t ih =>
    intro skip inQuotes field fields q fs h f hf hx
    have hgrow : x ∈ t ∨ x ∈ field ++ [c] ∨ (∃ g ∈ fields, x ∈ g) → x ∈ c :: t ∨ x ∈ field ∨ ∃ g ∈ fields, x ∈ g := by
      simp only [List.mem_append, List.mem_cons]
      tauto
    simp only [splitLoop] at h
    split_ifs at h
    · exact hgrow (ih h f hf hx)
    · exact hgrow (ih h f hf hx)
    · exact hgrow (ih h f hf hx)
    · rcases ih h f hf hx with hx | hx | ⟨g, hg, hx⟩
      · exact .inl (by simp [hx])
      · simp at hx
      · rcases List.mem_append.1 hg with hg | hg
        · exact .inr (.inr ⟨g, hg, hx⟩)
        · exact .inr (.inl (List.mem_singleton.1 hg ▸ hx))
    · exact hgrow (ih h f hf hx)

theorem mem_of_mem_halveQuotes {x : UInt8} : ∀ {t : Bytes} {copy : Bool}, x ∈ halveQuotes t copy → x ∈ t
  | [], _, h => by simp [halveQuotes] at h
  | c :: t, copy, h => by
    rw [halveQuotes] at h
    split_ifs at h
    · exact List.mem_cons_of_mem _ (mem_of_mem_halveQuotes h)
    · rcases List.mem_cons.1 h with rfl | h
      · simp
      · exact List.mem_cons_of_mem _ (mem_of_mem_halveQuotes h)

theorem mem_of_mem_csvField {x : UInt8} {field y : Bytes} (h : csvField field = some y) (hx : x ∈ y) :
    x ∈ field := by
  suffices hf : x ∈ memoryMapConfigTrimField field from mem_of_mem_trim hf
  unfold csvField at h
  generalize memoryMapConfigTrimField field = f at h
  simp only at h
  split_ifs at h
  · obtain rfl := Option.some.inj h
    exact List.mem_of_mem_drop (mem_of_mem_halveQuotes (List.dropLast_subset _ hx))
  · obtain rfl := Option.some.inj h
    exact hx

/-! ## Keywords -/

/-- No keyword for the cache attributes holds a comment sign. -/
theorem keyword_armAttributes_of_hash {x : Bytes} (hnul : (0 : UInt8) ∉ x) (h : chHash ∈ x)
    (v : ArmAttributes) :
    keyword armAttributes x ≠ .ok v := by
  have hrows : ∀ row ∈ armAttributes, (0 : UInt8) ∉ row.1 ∧ chHash ∉ row.1.map asciiCharToUpper := by decide +kernel
  unfold keyword
  cases hfind : armAttributes.find? fun row => asciiStriCmp x row.1 == 0 with
  | none => simp
  | some row =>
    obtain ⟨h1, h2⟩ := hrows row (List.mem_of_find?_eq_some hfind)
    have hcmp : asciiStriCmp x row.1 = 0 := by simpa using List.find?_some hfind
    have hmap := (asciiStriCmp_eq_zero_iff hnul h1).1 hcmp
    have hin : asciiCharToUpper chHash ∈ x.map asciiCharToUpper := List.mem_map_of_mem h
    rw [hmap] at hin
    exact absurd hin h2

/-- **A comment that stays behind an accepted record spoils it**: it lands in the last field, which is
then no keyword. -/
theorem parseDescriptor_append_hash {r u : Bytes} {d d' : Descriptor}
    (hr : memoryMapConfigParseDescriptor r = .ok d) (hnul : (0 : UInt8) ∉ r ++ u)
    (hu : byteAt u 0 ≠ chQuote) (hhash : chHash ∈ u) :
    memoryMapConfigParseDescriptor (r ++ u) ≠ .ok d' := by
  intro hru
  obtain ⟨_, hsplit, -⟩ := memoryMapConfigParseDescriptor_eq_ok.1 hr
  obtain ⟨fields, hsplit', -, -, -, -, -, -, -, -, harm⟩ := memoryMapConfigParseDescriptor_eq_ok.1 hru
  obtain ⟨raw, hloop, hlen, -⟩ := memoryMapConfigSplitCsv_eq_ok.1 hsplit
  obtain ⟨raw', hloop', hlen', hmap⟩ := memoryMapConfigSplitCsv_eq_ok.1 hsplit'
  obtain ⟨fs, f, rfl⟩ : ∃ fs f, raw = fs ++ [f] :=
    ⟨_, _, (List.dropLast_append_getLast (List.ne_nil_of_length_pos (by omega))).symm⟩
  have hfs : fs.length = 7 := by simpa using hlen
  -- the splitter was in the eighth field, so the rest of the text belongs to it
  have happ := splitLoop_append hu r false false [] [] (fun _ => rfl) hloop
  obtain rfl : raw' = fs ++ [f ++ u] := by
    rw [hloop'] at happ
    rcases splitLoop_last (n := 8) u false false f fs (by omega) with h | ⟨q, h⟩
    · rw [h] at happ
      simp at happ
    · rw [h] at happ
      simp only [Option.some.injEq, Prod.mk.injEq] at happ
      exact happ.2
  obtain ⟨y, hcsv, hy⟩ := getElem?_of_mapM hmap (i := 7) (x := f ++ u)
    (by rw [← hfs, List.getElem?_concat_length])
  rw [List.getD_eq_getElem?_getD, hy, Option.getD_some] at harm
  have hy0 : (0 : UInt8) ∉ y := by
    intro h0
    have := mem_of_mem_splitLoop hloop' (f ++ u) (by simp) (mem_of_mem_csvField hcsv h0)
    simp [hnul] at this
  have hyh : chHash ∈ y := mem_csvField (by decide) (by decide) (by simp [hhash]) hcsv
  exact keyword_armAttributes_of_hash hy0 hyh _ harm

/-! ## The line and its comment -/

/-- The line with a blank, a `#` and a comment behind it. -/
def withComment (line comment : Bytes) : Bytes := line ++ chSpace :: chHash :: comment

/-- What an appended comment makes of a data line. -/
theorem lineOf_withComment {line content : Bytes} (h : lineOf line = .data content) (comment : Bytes) :
    ∃ b, (∀ x ∈ b, isConfigSpace x = true) ∧ b ≠ [] ∧
      lineOf (withComment line comment) = .data (content ++ (b ++ chHash :: comment.rdropWhile isConfigSpace)) := by
  obtain ⟨hcontent, c, t, hct, h1, h2, h3, h4⟩ := lineOf_data h
  obtain ⟨a, b, hdec, ha, hb⟩ := trim_decomp isConfigSpace line
  rw [← trimmed, ← hcontent, hct] at hdec
  refine ⟨b ++ [chSpace], ?_, by simp, ?_⟩
  · intro x hx
    rcases List.mem_append.1 hx with hx | hx
    · exact hb x hx
    · rw [List.mem_singleton.1 hx]
      decide
  have hsplit : withComment line comment = a ++ ((c :: (t ++ (b ++ [chSpace]))) ++ chHash :: comment) := by
    rw [withComment, hdec]
    simp
  have htrim : trimmed (withComment line comment) =
      c :: (t ++ (b ++ chSpace :: chHash :: comment.rdropWhile isConfigSpace)) := by
    rw [hsplit, trimmed, trim_prepend_of_all ha, trim, List.cons_append,
      List.dropWhile_cons_of_neg (by simp [h1]),
      ← List.cons_append, rdropWhile_append_cons (by decide)]
    simp
  have hcond : ¬ (c = chHash ∨ c = chSemicolon) := by tauto
  simp only [lineOf, htrim, hcond, h4, ↓reduceIte, hct]
  simp

/-- **What the comment stripper leaves.** The record itself when it finds a comment in the line or none
of its quotes open at the end; otherwise the sign of the appended comment stays. -/
theorem uncomment_append_comment (comment : Bytes) {content b : Bytes}
    (hcontent : trimmed content = content) (hcne : content ≠ []) (hb : ∀ x ∈ b, isConfigSpace x = true)
    (hne : b ≠ []) :
    (commentAt .init content ≠ none ∨ (QuoteState.after .init content).inQuotes = false →
      uncomment (content ++ (b ++ chHash :: comment)) = uncomment content) ∧
    (¬ (commentAt .init content ≠ none ∨ (QuoteState.after .init content).inQuotes = false) →
      uncomment content = content ∧
        ∃ z, uncomment (content ++ (b ++ chHash :: comment)) = content ++ (b ++ chHash :: z)) := by
  have happ := commentAt_append .init content (b ++ chHash :: comment)
  have hblank : commentAt (QuoteState.after .init content) (b ++ chHash :: comment) =
      (commentAt ((QuoteState.after .init content).after b) (chHash :: comment)).map (· + b.length) := by
    rw [commentAt_append, commentAt_blanks hb]
  cases hscan : commentAt .init content with
  | some k =>
    rw [hscan] at happ
    refine ⟨?_, fun h => absurd (.inl (by simp)) h⟩
    intro _
    have hk := commentAt_lt hscan
    rw [uncomment, uncomment, beforeComment, beforeComment, happ, hscan]
    simp only
    rw [List.take_append_of_le_length (by omega)]
  | none =>
    rw [hscan] at happ
    simp only [ne_eq, not_true_eq_false, false_or]
    have hself : uncomment content = content := by
      rw [uncomment, beforeComment, hscan]
      exact hcontent
    constructor
    · intro hq
      -- the blanks in front of the `#` make it open a comment
      have hopen : commentAt ((QuoteState.after .init content).after b) (chHash :: comment) = some 0 := by
        rw [after_blanks hb hne hq]
        rfl
      rw [hblank, hopen] at happ
      simp only [Option.map_some, Nat.zero_add] at happ
      rw [hself, uncomment, beforeComment, happ]
      simp only
      rw [Nat.add_comm, List.take_length_add_append, List.take_left, trimmed, trim_append_of_all hb]
      exact hcontent
    · intro hq
      refine ⟨hself, ?_⟩
      have hq' : ((QuoteState.after .init content).after b).inQuotes = true := by
        rw [inQuotes_after_blanks hb]
        simpa using hq
      have hstay : ∃ z, beforeComment .init (content ++ (b ++ chHash :: comment)) = content ++ (b ++ chHash :: z) := by
        have hno : ((QuoteState.after .init content).after b).opensComment chHash = false := by
          simp [QuoteState.opensComment, hq']
        rw [hblank, commentAt, hno, if_neg (by simp), Option.map_map, Option.map_map] at happ
        rw [beforeComment, happ]
        cases commentAt (((QuoteState.after .init content).after b).step chHash) comment with
        | none => exact ⟨comment, rfl⟩
        | some j =>
          refine ⟨comment.take j, ?_⟩
          simp only [Option.map_some, Function.comp_apply]
          rw [Nat.add_comm _ content.length, List.take_length_add_append, Nat.add_comm _ b.length,
            List.take_length_add_append, List.take_succ_cons]
      obtain ⟨z, hz⟩ := hstay
      obtain ⟨c, t, rfl⟩ := List.exists_cons_of_ne_nil hcne
      have hc : isConfigSpace c = false := head_trim (show trim isConfigSpace (c :: t) = c :: t from hcontent)
      refine ⟨z.rdropWhile isConfigSpace, ?_⟩
      rw [uncomment, hz, trimmed, trim, List.cons_append, List.dropWhile_cons_of_neg (by simp [hc]),
        ← List.cons_append,
        ← List.append_assoc, rdropWhile_append_cons (by decide), List.append_assoc]

/-- The records of a section that consists of one line. -/
theorem readableRecords_single {section_ header line name : Bytes}
    (hheader : lineOf header = .header name) (hname : sameName name section_ = true)
    (h1 : chLf ∉ header) (h2 : chLf ∉ line) :
    readableRecords section_ (header ++ chLf :: line) =
      match lineOf line with
      | .data content => [uncomment content]
      | _ => [] := by
  have hlines : configLines (header ++ chLf :: line) = [.header name, lineOf line] := by
    rw [configLines, List.splitOn_append_cons_self_of_not_mem h1, List.splitOn_eq_singleton h2,
      List.map_cons,
      List.map_singleton, hheader]
  rw [readableRecords, hlines]
  cases lineOf line <;> simp [soundPrefix, recordsFrom, dataFrom, hname]

/-- The line as the only one of its section, read as record 0. -/
theorem read_single {c : ConfigText} {section_ : CStr} {header line name : Bytes} {d : Descriptor}
    (hc : c.bytes = header ++ chLf :: line) (hheader : lineOf header = .header name)
    (hname : sameName name section_.bytes = true) (h1 : chLf ∉ header) (h2 : chLf ∉ line) :
    memoryMapConfigReadDescriptor c.installed section_ 0 = .ok d ↔
      ∃ content, lineOf line = .data content ∧ recordDescriptor (uncomment content) = .ok d := by
  rw [memoryMapConfigReadDescriptor_spec, hc, readableRecords_single hheader hname h1 h2]
  cases lineOf line <;> simp

/-- **A trailing comment changes nothing exactly when the comment stripper sees the end of the quotes.**
Let `line` be accepted as the only line of a section. With a blank, `#` and any comment behind it, it is
accepted as the same descriptor if and only if the line has a comment already or, read with backslash
escapes inside quotes, leaves no quote open. -/
theorem trailing_comment_iff (c c' : ConfigText) (section_ : CStr) (header line comment name : Bytes)
    (d : Descriptor) (hc : c.bytes = header ++ chLf :: line)
    (hc' : c'.bytes = header ++ chLf :: withComment line comment)
    (hheader : lineOf header = .header name) (hname : sameName name section_.bytes = true)
    (h1 : chLf ∉ header) (h2 : chLf ∉ line) (h3 : chLf ∉ comment)
    (haccepted : memoryMapConfigReadDescriptor c.installed section_ 0 = .ok d) :
    memoryMapConfigReadDescriptor c'.installed section_ 0 = .ok d ↔
      commentAt .init (trimmed line) ≠ none ∨
        (QuoteState.after .init (trimmed line)).inQuotes = false := by
  have h4 : chLf ∉ withComment line comment := by
    simp only [withComment, List.mem_append, List.mem_cons, not_or]
    exact ⟨h2, by decide, by decide, h3⟩
  obtain ⟨content, hline, hrec⟩ := (read_single hc hheader hname h1 h2).1 haccepted
  obtain ⟨hcontent, x, t, hct, -⟩ := lineOf_data hline
  obtain ⟨b, hb, hbne, hline'⟩ := lineOf_withComment hline comment
  have htrim : trimmed content = content := by rw [hcontent, trimmed, trimmed, trim_trim]
  obtain ⟨hsame, hspoil⟩ := uncomment_append_comment (comment.rdropWhile isConfigSpace) htrim
    (by rw [hct]; simp) hb hbne
  rw [read_single hc' hheader hname h1 h4, ← hcontent]
  constructor
  · rintro ⟨content', hl, hrec'⟩
    by_contra hnot
    obtain ⟨hself, z, hz⟩ := hspoil hnot
    obtain rfl := Line.data.inj (hline'.symm.trans hl)
    have hnul : (0 : UInt8) ∉ content ++ (b ++ chHash :: z) := by
      rw [← hz]
      refine noNul_readableRecords section_.bytes c'.noNul ?_
      rw [hc', readableRecords_single hheader hname h1 h4, hline']
      simp
    have hquote : byteAt (b ++ chHash :: z) 0 ≠ chQuote := by
      obtain ⟨y, ys, rfl⟩ := List.exists_cons_of_ne_nil hbne
      exact ne_of_isConfigSpace (hb y (by simp)) (by decide)
    rw [hself] at hrec
    rw [hz] at hrec'
    exact parseDescriptor_append_hash (recordDescriptor_ok.1 hrec).2 hnul hquote (by simp) (recordDescriptor_ok.1 hrec').2
  · intro hcond
    exact ⟨_, hline', by rw [hsame hcond]; exact hrec⟩

/-- A quoted name with a comment sign in it, and a comment behind the line. -/
theorem trailing_comment_iff_quoted_name :
    memoryMapConfigReadDescriptor
      (ConfigText.mk (ascii "[S]\n1,2,\"a #b\",NoHob,IO,TESTED,Conv,DEVICE #c") (by decide) (by decide +kernel)
        (by decide +kernel)).installed ⟨ascii "S", by decide⟩ 0 =
      .ok ⟨⟨⟨ascii "a #b", by decide⟩, by decide⟩, 1, 2, .noHob, .io, .tested, .conventionalMemory, .device⟩ :=
  (trailing_comment_iff
    ⟨ascii "[S]\n1,2,\"a #b\",NoHob,IO,TESTED,Conv,DEVICE", by decide, by decide +kernel, by decide +kernel⟩ _
    ⟨ascii "S", by decide⟩ (ascii "[S]") (ascii "1,2,\"a #b\",NoHob,IO,TESTED,Conv,DEVICE") (ascii "c") (ascii "S") _
    (by decide +kernel) (by decide +kernel) (by decide +kernel) (by decide) (by decide) (by decide +kernel) (by decide)
    (by decide +kernel)).2 (.inr (by decide +kernel))

/-- A backslash in front of the closing quote: to the stripper the quote stays open, to the splitter it
closes, and the comment behind the record makes it unreadable. -/
theorem trailing_comment_spoils_backslash_name :
    memoryMapConfigReadDescriptor
      (ConfigText.mk (ascii "[S]\n1,2,\"a\\\",NoHob,IO,TESTED,Conv,DEVICE") (by decide) (by decide +kernel)
        (by decide +kernel)).installed ⟨ascii "S", by decide⟩ 0 =
      .ok ⟨⟨⟨ascii "a\\", by decide⟩, by decide⟩, 1, 2, .noHob, .io, .tested, .conventionalMemory, .device⟩ ∧
    memoryMapConfigReadDescriptor
      (ConfigText.mk (ascii "[S]\n1,2,\"a\\\",NoHob,IO,TESTED,Conv,DEVICE #c") (by decide) (by decide +kernel)
        (by decide +kernel)).installed ⟨ascii "S", by decide⟩ 0 = .error .compromisedData := by
  decide +kernel

end Andromeda
