import AndromedaBoot.MemoryMap.Record
import Mathlib.Data.List.Forall2

/-!
# The grammar of a record

What `MemoryMapConfigSplitCsv` (QcomUefiPlatMemoryMapLib.c:37) is for: fields with commas between them, where a field is a
plain text or a text in quotes with its own quotes doubled, and may have blanks around it.

What is written by this grammar is read back (`memoryMapConfigSplitCsv_written`). The other way round the splitter takes
more than the grammar: after the closing quote it opens quotes again in the same field, and only the last byte of the field
is looked at. Without that, what it accepts is of the grammar (`memoryMapConfigSplitCsv_grammar_iff`).
-/

namespace Andromeda

open Slice

/-! ## The grammar -/

/-- Every quote twice. -/
def doubleQuotes (s : Bytes) : Bytes := s.flatMap fun c => if c = chQuote then [c, c] else [c]

/-- A text in quotes. -/
def enquote (s : Bytes) : Bytes := chQuote :: (doubleQuotes s ++ [chQuote])

def IsBlank (s : Bytes) : Prop := ∀ c ∈ s, c = chSpace ∨ c = chTab

/-- How a string may be written as it is. -/
structure Verbatim (s : Bytes) : Prop where
  noQuote : chQuote ∉ s
  noComma : chComma ∉ s
  noBlankAhead : s.head? ≠ some chSpace ∧ s.head? ≠ some chTab
  noBlankBehind : s.getLast? ≠ some chSpace ∧ s.getLast? ≠ some chTab

/-- A string as a field, with blanks around it. -/
inductive Written (s : Bytes) : Bytes → Prop
  | verbatim {before behind : Bytes} (hs : Verbatim s) (hbefore : IsBlank before) (hbehind : IsBlank behind) :
    Written s (before ++ s ++ behind)
  | quoted {before behind : Bytes} (hbefore : IsBlank before) (hbehind : IsBlank behind) :
    Written s (before ++ enquote s ++ behind)

/-- A piece of a record and the field it stands for: without quotes and commas it is the field, otherwise it is the field
in quotes. -/
def Shaped (piece field : Bytes) : Prop :=
  (chQuote ∉ trim isFieldBlank piece ∧ chComma ∉ trim isFieldBlank piece ∧ field = trim isFieldBlank piece) ∨
  trim isFieldBlank piece = enquote field

/-- A piece the splitter goes through with its quotes open at most once. -/
inductive Once : Bytes → Prop
  | plain {piece : Bytes} (hquote : chQuote ∉ piece) (hcomma : chComma ∉ piece) : Once piece
  | quoted {before body behind : Bytes} (hbefore : chQuote ∉ before ∧ chComma ∉ before)
      (hbehind : chQuote ∉ behind ∧ chComma ∉ behind) : Once (before ++ enquote body ++ behind)

/-- The quotes of each field are opened at most once: the scan of the splitter, with a flag for quotes that were closed. -/
def quotedOnce : Bytes → Bool → Bool → Bool → Bool
  | [], _, _, _ => true
  | c :: t, skip, inQuotes, closed =>
    if skip then quotedOnce t false inQuotes closed
    else if c == chQuote then
      if inQuotes && byteAt t 0 == chQuote then quotedOnce t true inQuotes closed
      else if inQuotes then quotedOnce t false false true
      else !closed && quotedOnce t false true closed
    else if c == chComma && !inQuotes then quotedOnce t false inQuotes false
    else quotedOnce t false inQuotes closed

variable {n : Nat} {s t body field rest : Bytes} {fields : List Bytes} {inq closed : Bool}

/-! ## Pieces without quotes, and bodies -/

/-- A byte that neither opens quotes nor ends a field. -/
theorem plain_head {c : UInt8} (hquote : chQuote ∉ c :: t) (hcomma : inq = true ∨ chComma ∉ c :: t) :
    (c == chQuote) = false ∧ (c == chComma && !inq) = false := by
  refine ⟨beq_false_of_ne (Ne.symm (List.ne_of_not_mem_cons hquote)), ?_⟩
  rcases hcomma with rfl | hcomma
  · rw [Bool.not_true, Bool.and_false]
  · rw [beq_false_of_ne (Ne.symm (List.ne_of_not_mem_cons hcomma)), Bool.false_and]

/-- A quoted text is not followed by a quote if what is behind it has none. -/
theorem byteAt_behind (hquote : chQuote ∉ t) (hrest : byteAt rest 0 ≠ chQuote) : byteAt (t ++ rest) 0 ≠ chQuote := by
  cases t with
  | nil => exact hrest
  | cons c t => exact fun h => hquote (h ▸ List.mem_cons_self)

theorem splitLoop_plain (hquote : chQuote ∉ t) (hcomma : inq = true ∨ chComma ∉ t) :
    splitLoop n (t ++ rest) false inq field fields = splitLoop n rest false inq (field ++ t) fields := by
  induction t generalizing field with
  | nil => rw [List.nil_append, List.append_nil]
  | cons c t ih =>
    obtain ⟨hc, hcut⟩ := plain_head hquote hcomma
    rw [List.cons_append, splitLoop, hc, hcut]
    simp only [Bool.false_eq_true, if_false]
    rw [ih (List.not_mem_of_not_mem_cons hquote) (hcomma.imp_right List.not_mem_of_not_mem_cons), List.append_assoc,
      List.singleton_append]

theorem doubleQuotes_cons_quote (s : Bytes) : doubleQuotes (chQuote :: s) = chQuote :: chQuote :: doubleQuotes s := by
  rw [doubleQuotes, List.flatMap_cons, if_pos rfl]
  rfl

theorem doubleQuotes_cons {c : UInt8} (hc : c ≠ chQuote) (s : Bytes) : doubleQuotes (c :: s) = c :: doubleQuotes s := by
  rw [doubleQuotes, List.flatMap_cons, if_neg hc]
  rfl

/-- Inside quotes the scan goes over doubled quotes two at a time. -/
theorem splitLoop_body (s : Bytes) :
    splitLoop n (doubleQuotes s ++ rest) false true field fields = splitLoop n rest false true (field ++ doubleQuotes s) fields := by
  induction s generalizing field with
  | nil => rw [doubleQuotes, List.flatMap_nil, List.nil_append, List.append_nil]
  | cons c s ih =>
    by_cases hc : c = chQuote
    · subst hc
      have hpair : splitLoop n (chQuote :: chQuote :: (doubleQuotes s ++ rest)) false true field fields =
          splitLoop n (doubleQuotes s ++ rest) false true (field ++ [chQuote] ++ [chQuote]) fields := rfl
      rw [doubleQuotes_cons_quote, List.cons_append, List.cons_append, hpair, ih]
      simp only [List.append_assoc, List.cons_append, List.nil_append]
    · have hplain : chQuote ∉ [c] := by simpa using Ne.symm hc
      rw [doubleQuotes_cons hc, List.cons_append, ← List.singleton_append, splitLoop_plain hplain (.inl rfl), ih]
      simp only [List.append_assoc, List.cons_append, List.nil_append]

/-- A quoted text as a whole; a quote right behind it would pair up with its last one. -/
theorem splitLoop_enquote (s : Bytes) (hrest : byteAt rest 0 ≠ chQuote) :
    splitLoop n (enquote s ++ rest) false false field fields = splitLoop n rest false false (field ++ enquote s) fields := by
  have hopen (t : Bytes) : splitLoop n (chQuote :: t) false false field fields =
      splitLoop n t false true (field ++ [chQuote]) fields := rfl
  have hclose (field : Bytes) : splitLoop n (chQuote :: rest) false true field fields =
      splitLoop n rest false false (field ++ [chQuote]) fields := by
    rw [splitLoop, beq_false_of_ne hrest]
    rfl
  rw [enquote, List.cons_append, hopen, List.append_assoc, splitLoop_body, List.singleton_append, hclose]
  simp only [List.append_assoc, List.cons_append, List.nil_append]

/-- One piece, up to a comma or the end. -/
theorem splitLoop_once {piece : Bytes} (h : Once piece) (hrest : byteAt rest 0 ≠ chQuote) :
    splitLoop n (piece ++ rest) false false field fields = splitLoop n rest false false (field ++ piece) fields := by
  cases h with
  | plain hquote hcomma => exact splitLoop_plain hquote (.inr hcomma)
  | @quoted before body behind hbefore hbehind =>
    have hnext : byteAt (behind ++ rest) 0 ≠ chQuote := byteAt_behind hbehind.1 hrest
    rw [List.append_assoc, List.append_assoc, splitLoop_plain hbefore.1 (.inr hbefore.2), splitLoop_enquote body hnext,
      splitLoop_plain hbehind.1 (.inr hbehind.2)]
    simp only [List.append_assoc]

/-- The splitter cuts a record into its pieces. -/
theorem splitLoop_join {pieces : List Bytes} (hne : pieces ≠ []) (h : ∀ p ∈ pieces, Once p)
    (hn : fields.length + pieces.length ≤ n) :
    splitLoop n ([chComma].intercalate pieces) false false [] fields = some (false, fields ++ pieces) := by
  induction pieces generalizing fields with
  | nil => exact absurd rfl hne
  | cons p pieces ih =>
    obtain ⟨hp, hpieces⟩ := List.forall_mem_cons.1 h
    cases pieces with
    | nil =>
      have hlast : splitLoop n (p ++ []) false false [] fields = splitLoop n [] false false ([] ++ p) fields :=
        splitLoop_once hp (by decide)
      rw [List.append_nil] at hlast
      rw [List.intercalate_singleton, hlast]
      rfl
    | cons p' pieces =>
      have hcut (t : Bytes) : splitLoop n (chComma :: t) false false p fields = splitLoop n t false false [] (fields ++ [p]) := by
        have hroom : ¬ fields.length + 1 ≥ n := by
          rw [List.length_cons, List.length_cons] at hn
          omega
        rw [splitLoop]
        simp only [Bool.false_eq_true, if_false, show (chComma == chQuote) = false from rfl, beq_self_eq_true, Bool.not_false,
          Bool.and_self, if_true, if_neg hroom]
      have hnext (t : Bytes) : byteAt ([chComma] ++ t) 0 ≠ chQuote := show chComma ≠ chQuote by decide
      rw [List.intercalate_cons_cons, List.append_assoc, splitLoop_once hp (hnext _), List.nil_append, List.singleton_append,
        hcut, ih (List.cons_ne_nil _ _) hpieces (by simp at hn ⊢; omega), List.append_assoc, List.singleton_append]

/-! ## Fields -/

theorem isFieldBlank_of_isBlank (h : IsBlank s) : ∀ c ∈ s, isFieldBlank c = true := by
  intro c hc
  rcases h c hc with rfl | rfl <;> decide

/-- Quotes and commas are no blanks. -/
theorem noQuote_of_isBlank (h : ∀ c ∈ s, isFieldBlank c = true) : chQuote ∉ s ∧ chComma ∉ s :=
  ⟨fun hc => absurd (h _ hc) (by decide), fun hc => absurd (h _ hc) (by decide)⟩

theorem getLast?_enquote (s : Bytes) : (enquote s).getLast? = some chQuote := by
  rw [enquote, ← List.cons_append, List.getLast?_concat]

theorem trim_enquote (s : Bytes) : trim isFieldBlank (enquote s) = enquote s := by
  refine trim_eq_self ?_ ?_
  · intro c hc
    obtain rfl : chQuote = c := Option.some.inj hc
    decide
  · intro c hc
    rw [getLast?_enquote] at hc
    obtain rfl : chQuote = c := Option.some.inj hc
    decide

theorem halveQuotes_doubleQuotes (s : Bytes) : halveQuotes (doubleQuotes s ++ [chQuote]) false = s ++ [chQuote] := by
  induction s with
  | nil => rfl
  | cons c s ih =>
    by_cases hc : c = chQuote
    · subst hc
      have hpair (t : Bytes) : halveQuotes (chQuote :: chQuote :: t) false = chQuote :: halveQuotes t false := rfl
      rw [doubleQuotes_cons_quote, List.cons_append, List.cons_append, hpair, ih, List.cons_append]
    · rw [doubleQuotes_cons hc, List.cons_append, halveQuotes, beq_false_of_ne hc]
      simp only [Bool.and_false, Bool.false_and, Bool.false_eq_true, if_false]
      rw [ih, List.cons_append]

/-- A quoted field is read back. -/
theorem csvField_enquote {piece : Bytes} (h : trim isFieldBlank piece = enquote s) : csvField piece = some s := by
  have hlen : (enquote s).length = (doubleQuotes s).length + 2 := by simp [enquote]
  have hlast : byteAt (enquote s) ((enquote s).length - 1) = chQuote :=
    byteAt_of_getElem? (by rw [← List.getLast?_eq_getElem?, getLast?_enquote])
  rw [csvField, memoryMapConfigTrimField, h]
  simp only [show (byteAt (enquote s) 0 == chQuote) = true from rfl, if_true]
  rw [if_neg (not_or.2 ⟨by omega, not_not.2 hlast⟩), show (enquote s).drop 1 = doubleQuotes s ++ [chQuote] from rfl,
    halveQuotes_doubleQuotes, if_neg (by simp), List.dropLast_concat]

theorem csvField_plain {piece : Bytes} (h : chQuote ∉ trim isFieldBlank piece) :
    csvField piece = some (trim isFieldBlank piece) := by
  have hfirst : (byteAt (trim isFieldBlank piece) 0 == chQuote) = false := by
    refine beq_false_of_ne fun hq => h ?_
    cases htrim : trim isFieldBlank piece with
    | nil => exact absurd (htrim ▸ hq : byteAt [] 0 = chQuote) (by decide)
    | cons c t =>
      rw [htrim] at hq
      exact hq ▸ List.mem_cons_self
  rw [csvField, memoryMapConfigTrimField, hfirst]
  simp only [Bool.false_eq_true, if_false, if_neg h]

theorem trim_verbatim (h : Verbatim s) : trim isFieldBlank s = s := by
  have hblank {c : UInt8} (hspace : c ≠ chSpace) (htab : c ≠ chTab) : isFieldBlank c = false := by
    rw [isFieldBlank, beq_false_of_ne hspace, beq_false_of_ne htab]
    rfl
  refine trim_eq_self ?_ ?_
  · intro c hc
    exact hblank (fun h0 => h.noBlankAhead.1 (h0 ▸ hc)) fun h0 => h.noBlankAhead.2 (h0 ▸ hc)
  · intro c hc
    exact hblank (fun h0 => h.noBlankBehind.1 (h0 ▸ hc)) fun h0 => h.noBlankBehind.2 (h0 ▸ hc)

theorem trim_around {core before behind : Bytes} (hbefore : IsBlank before) (hbehind : IsBlank behind) :
    trim isFieldBlank (before ++ core ++ behind) = trim isFieldBlank core := by
  rw [trim_append_of_all (isFieldBlank_of_isBlank hbehind), trim_prepend_of_all (isFieldBlank_of_isBlank hbefore)]

theorem Written.shaped {piece : Bytes} (h : Written s piece) : Shaped piece s := by
  cases h with
  | verbatim hs hbefore hbehind =>
    have htrim := (trim_around hbefore hbehind).trans (trim_verbatim hs)
    refine .inl ?_
    rw [htrim]
    exact ⟨hs.noQuote, hs.noComma, rfl⟩
  | quoted hbefore hbehind => exact .inr ((trim_around hbefore hbehind).trans (trim_enquote s))

theorem Shaped.csvField {piece : Bytes} (h : Shaped piece field) : csvField piece = some field := by
  rcases h with ⟨hquote, -, rfl⟩ | hquoted
  · exact csvField_plain hquote
  · exact csvField_enquote hquoted

/-- A piece of the grammar has its quotes open at most once. -/
theorem Shaped.once {piece : Bytes} (h : Shaped piece field) : Once piece := by
  obtain ⟨before, behind, hpiece, hbefore, hbehind⟩ := trim_decomp isFieldBlank piece
  have hbefore := noQuote_of_isBlank hbefore
  have hbehind := noQuote_of_isBlank hbehind
  rcases h with ⟨hquote, hcomma, -⟩ | hquoted
  · refine .plain ?_ ?_
    · rw [hpiece]
      simp only [List.mem_append, not_or]
      exact ⟨⟨hbefore.1, hquote⟩, hbehind.1⟩
    · rw [hpiece]
      simp only [List.mem_append, not_or]
      exact ⟨⟨hbefore.2, hcomma⟩, hbehind.2⟩
  · rw [hpiece, hquoted]
    exact .quoted hbefore hbehind

/-- Fields of the grammar are read one by one. -/
theorem mapM_csvField {pieces : List Bytes} (h : List.Forall₂ Shaped pieces fields) : pieces.mapM csvField = some fields := by
  induction h with
  | nil => rfl
  | cons hp _ ih => rw [List.mapM_cons, hp.csvField, ih]; rfl

theorem once_of_shaped {pieces : List Bytes} (h : List.Forall₂ Shaped pieces fields) : ∀ p ∈ pieces, Once p := by
  induction h with
  | nil => exact nofun
  | cons hp _ ih => exact List.forall_mem_cons.2 ⟨hp.once, ih⟩

/-! ## What is written is read -/

/-- **The strings of a record come back**, however each is written. -/
theorem memoryMapConfigSplitCsv_written (strings : List CStr) (hne : strings ≠ []) (pieces : List Bytes)
    (h : List.Forall₂ (fun s piece => Written s.bytes piece) strings pieces) :
    memoryMapConfigSplitCsv ([chComma].intercalate pieces) strings.length = .ok (strings.map CStr.bytes) := by
  have hshaped : List.Forall₂ Shaped pieces (strings.map CStr.bytes) := by
    rw [List.forall₂_map_right_iff]
    exact (h.imp fun _ _ hw => hw.shaped).flip
  have hlen := h.length_eq
  have hpieces : pieces ≠ [] := by
    rintro rfl
    exact hne (List.length_eq_zero_iff.1 hlen)
  refine memoryMapConfigSplitCsv_eq_ok.2 ⟨pieces, ?_, hlen.symm, mapM_csvField hshaped⟩
  exact splitLoop_join hpieces (once_of_shaped hshaped) (by simp [hlen])

theorem memoryMapConfigSplitCsv_written_two :
    memoryMapConfigSplitCsv (ascii " \"a\"\",\" ,\tb ") 2 = .ok [ascii "a\",", ascii "b"] :=
  memoryMapConfigSplitCsv_written [⟨ascii "a\",", by decide⟩, ⟨ascii "b", by decide⟩] (by decide)
    [ascii " \"a\"\",\" ", ascii "\tb "]
    (.cons (@Written.quoted (ascii "a\",") (ascii " ") (ascii " ") (by unfold IsBlank; decide +kernel)
        (by unfold IsBlank; decide +kernel))
      (.cons (@Written.verbatim (ascii "b") (ascii "\t") (ascii " ") ⟨by decide, by decide, by decide, by decide⟩
        (by unfold IsBlank; decide +kernel) (by unfold IsBlank; decide +kernel)) .nil))

/-! ## What is accepted is of the grammar -/

/-- What has been read of a field: nothing with quotes yet, an open body, a body with the first quote of a pair behind it,
or a closed one. -/
inductive Progress : Bytes → Bool → Bool → Bool → Prop
  | plain {field : Bytes} (h : chQuote ∉ field ∧ chComma ∉ field) : Progress field false false false
  | opened {before : Bytes} (body : Bytes) (h : chQuote ∉ before ∧ chComma ∉ before) :
    Progress (before ++ chQuote :: doubleQuotes body) false true false
  | pair {before : Bytes} (body : Bytes) (h : chQuote ∉ before ∧ chComma ∉ before) :
    Progress (before ++ chQuote :: doubleQuotes body ++ [chQuote]) true true false
  | closed {before behind : Bytes} (body : Bytes) (h : chQuote ∉ before ∧ chComma ∉ before)
      (h' : chQuote ∉ behind ∧ chComma ∉ behind) : Progress (before ++ enquote body ++ behind) false false true

theorem doubleQuotes_concat_quote (s : Bytes) : doubleQuotes (s ++ [chQuote]) = doubleQuotes s ++ [chQuote, chQuote] := by
  rw [doubleQuotes, List.flatMap_append]
  rfl

theorem doubleQuotes_concat {c : UInt8} (hc : c ≠ chQuote) (s : Bytes) : doubleQuotes (s ++ [c]) = doubleQuotes s ++ [c] := by
  rw [doubleQuotes, List.flatMap_append, List.flatMap_singleton, if_neg hc]
  rfl

theorem Progress.once {skip : Bool} (h : Progress field skip false closed) : Once field := by
  cases h with
  | plain h => exact .plain h.1 h.2
  | closed body h h' => exact .quoted h h'

/-- A byte that is neither a quote nor a comma outside of quotes. -/
theorem Progress.other {c : UInt8} (h : Progress field false inq closed) (hc : c ≠ chQuote) (hcomma : inq = true ∨ c ≠ chComma) :
    Progress (field ++ [c]) false inq closed := by
  cases h with
  | plain h =>
    have hcomma := hcomma.resolve_left Bool.false_ne_true
    exact .plain ⟨by simpa using ⟨h.1, Ne.symm hc⟩, by simpa using ⟨h.2, Ne.symm hcomma⟩⟩
  | @opened before body h =>
    rw [List.append_assoc, List.cons_append, ← doubleQuotes_concat hc]
    exact .opened _ h
  | @closed before behind body h h' =>
    have hcomma := hcomma.resolve_left Bool.false_ne_true
    rw [List.append_assoc]
    exact .closed body h ⟨by simpa using ⟨h'.1, Ne.symm hc⟩, by simpa using ⟨h'.2, Ne.symm hcomma⟩⟩

/-- The second quote of a pair. -/
theorem Progress.second (h : Progress field true inq closed) : Progress (field ++ [chQuote]) false inq closed := by
  cases h with
  | @pair before body h =>
    rw [List.append_assoc, List.append_assoc, List.cons_append, List.singleton_append, ← doubleQuotes_concat_quote]
    exact .opened _ h

/-- The first quote of a pair. -/
theorem Progress.first (h : Progress field false true closed) : Progress (field ++ [chQuote]) true true closed := by
  cases h with
  | opened body h => exact .pair body h

theorem Progress.close (h : Progress field false true closed) : Progress (field ++ [chQuote]) false false true := by
  cases h with
  | @opened before body h =>
    have hclosed : before ++ chQuote :: doubleQuotes body ++ [chQuote] = before ++ enquote body ++ [] := by
      simp only [enquote, List.append_assoc, List.cons_append, List.append_nil]
    rw [hclosed]
    exact .closed body h ⟨nofun, nofun⟩

theorem Progress.opening (h : Progress field false false false) : Progress (field ++ [chQuote]) false true false := by
  cases h with
  | plain h => exact .opened [] h

/-- With its quotes open at most once in a field, what the splitter cuts off are such pieces, and the record is made of
them. -/
theorem splitLoop_sound {skip : Bool} {raw : List Bytes} {record : Bytes}
    (hsplit : splitLoop n record skip inq field fields = some (false, raw)) (honce : quotedOnce record skip inq closed = true)
    (hprogress : Progress field skip inq closed) (hskip : skip = true → byteAt record 0 = chQuote) :
    ∃ pieces, pieces ≠ [] ∧ raw = fields ++ pieces ∧ field ++ record = [chComma].intercalate pieces ∧ ∀ p ∈ pieces, Once p := by
  induction record generalizing skip inq closed field fields with
  | nil =>
    obtain ⟨rfl, rfl⟩ : inq = false ∧ fields ++ [field] = raw := by simpa [splitLoop] using hsplit
    exact ⟨[field], List.cons_ne_nil _ _, rfl, by rw [List.append_nil, List.intercalate_singleton],
      List.forall_mem_singleton.2 hprogress.once⟩
  | cons c t ih =>
    -- the field goes on with this byte
    have hgrow {skip inq closed : Bool} (hsplit : splitLoop n t skip inq (field ++ [c]) fields = some (false, raw))
        (honce : quotedOnce t skip inq closed = true) (hprogress : Progress (field ++ [c]) skip inq closed)
        (hskip : skip = true → byteAt t 0 = chQuote) :
        ∃ pieces, pieces ≠ [] ∧ raw = fields ++ pieces ∧ field ++ c :: t = [chComma].intercalate pieces ∧ ∀ p ∈ pieces, Once p := by
      obtain ⟨pieces, hne, hraw, hjoin, hall⟩ := ih hsplit honce hprogress hskip
      rw [List.append_assoc, List.singleton_append] at hjoin
      exact ⟨pieces, hne, hraw, hjoin, hall⟩
    rw [splitLoop] at hsplit
    rw [quotedOnce] at honce
    cases skip with
    | true =>
      obtain rfl : c = chQuote := hskip rfl
      exact hgrow hsplit honce hprogress.second nofun
    | false =>
      simp only [Bool.false_eq_true, if_false] at hsplit honce
      by_cases hquote : c = chQuote
      · subst hquote
        simp only [beq_self_eq_true, if_true] at hsplit honce
        cases inq with
        | true =>
          by_cases hpair : (byteAt t 0 == chQuote) = true
          · simp only [hpair, Bool.and_self, if_true] at hsplit honce
            exact hgrow hsplit honce hprogress.first fun _ => beq_iff_eq.1 hpair
          · rw [Bool.not_eq_true] at hpair
            simp only [hpair, Bool.and_false, Bool.false_eq_true, if_false, Bool.not_true, if_true] at hsplit honce
            exact hgrow hsplit honce hprogress.close nofun
        | false =>
          simp only [Bool.false_and, Bool.false_eq_true, if_false, Bool.not_false, Bool.and_eq_true,
            Bool.not_eq_true'] at hsplit honce
          obtain ⟨rfl, honce⟩ := honce
          exact hgrow hsplit honce hprogress.opening nofun
      · simp only [beq_false_of_ne hquote, Bool.false_eq_true, if_false] at hsplit honce
        by_cases hcut : (c == chComma && !inq) = true
        · simp only [hcut, if_true] at hsplit honce
          obtain ⟨rfl, rfl⟩ : c = chComma ∧ inq = false := by simpa using hcut
          split_ifs at hsplit with hfull
          obtain ⟨pieces, hne, hraw, hjoin, hall⟩ := ih hsplit honce (.plain ⟨nofun, nofun⟩) nofun
          refine ⟨field :: pieces, List.cons_ne_nil _ _, ?_, ?_, List.forall_mem_cons.2 ⟨hprogress.once, hall⟩⟩
          · rw [hraw, List.append_assoc, List.singleton_append]
          · rw [List.intercalate_cons_of_ne_nil hne, ← hjoin]
            simp only [List.append_assoc, List.singleton_append, List.nil_append]
        · simp only [hcut] at hsplit honce
          refine hgrow hsplit honce (hprogress.other hquote ?_) nofun
          cases inq with
          | true => exact .inl rfl
          | false => exact .inr fun h => hcut (by rw [h]; rfl)

/-- The flags of the scan behind a piece. -/
theorem quotedOnce_plain (hquote : chQuote ∉ t) (hcomma : inq = true ∨ chComma ∉ t) :
    quotedOnce (t ++ rest) false inq closed = quotedOnce rest false inq closed := by
  induction t with
  | nil => rfl
  | cons c t ih =>
    obtain ⟨hc, hcut⟩ := plain_head hquote hcomma
    rw [List.cons_append, quotedOnce, hc, hcut]
    simp only [Bool.false_eq_true, if_false]
    exact ih (List.not_mem_of_not_mem_cons hquote) (hcomma.imp_right List.not_mem_of_not_mem_cons)

theorem quotedOnce_body (s : Bytes) :
    quotedOnce (doubleQuotes s ++ rest) false true closed = quotedOnce rest false true closed := by
  induction s with
  | nil => rfl
  | cons c s ih =>
    by_cases hc : c = chQuote
    · subst hc
      rw [doubleQuotes_cons_quote]
      exact ih
    · have hplain : chQuote ∉ [c] := by simpa using Ne.symm hc
      rw [doubleQuotes_cons hc, List.cons_append, ← List.singleton_append, quotedOnce_plain hplain (.inl rfl), ih]

theorem quotedOnce_once {piece : Bytes} (h : Once piece) (hrest : byteAt rest 0 ≠ chQuote) :
    ∃ closed, quotedOnce (piece ++ rest) false false false = quotedOnce rest false false closed := by
  cases h with
  | plain hquote hcomma => exact ⟨false, quotedOnce_plain hquote (.inr hcomma)⟩
  | @quoted before body behind hbefore hbehind =>
    have hnext : byteAt (behind ++ rest) 0 ≠ chQuote := byteAt_behind hbehind.1 hrest
    have hopen (t : Bytes) : quotedOnce (chQuote :: t) false false false = quotedOnce t false true false := rfl
    have hclose : quotedOnce (chQuote :: (behind ++ rest)) false true false = quotedOnce (behind ++ rest) false false true := by
      rw [quotedOnce, beq_false_of_ne hnext]
      rfl
    refine ⟨true, ?_⟩
    rw [List.append_assoc, List.append_assoc, quotedOnce_plain hbefore.1 (.inr hbefore.2), enquote, List.cons_append, hopen,
      List.append_assoc, quotedOnce_body, List.singleton_append, hclose, quotedOnce_plain hbehind.1 (.inr hbehind.2)]

theorem quotedOnce_join {pieces : List Bytes} (h : ∀ p ∈ pieces, Once p) :
    quotedOnce ([chComma].intercalate pieces) false false false = true := by
  induction pieces with
  | nil => rfl
  | cons p pieces ih =>
    obtain ⟨hp, hpieces⟩ := List.forall_mem_cons.1 h
    cases pieces with
    | nil =>
      obtain ⟨closed, hlast⟩ := quotedOnce_once hp (show byteAt [] 0 ≠ chQuote by decide)
      rw [List.append_nil] at hlast
      rw [List.intercalate_singleton, hlast]
      rfl
    | cons p' pieces =>
      have hnext (t : Bytes) : byteAt ([chComma] ++ t) 0 ≠ chQuote := show chComma ≠ chQuote by decide
      obtain ⟨closed, hscan⟩ := quotedOnce_once hp (hnext ([chComma].intercalate (p' :: pieces)))
      rw [List.intercalate_cons_cons, List.append_assoc, hscan]
      exact ih hpieces

/-- The first occurrence of an element. -/
theorem eq_of_first {x : UInt8} {a b s t : Bytes} (ha : x ∉ a) (hb : x ∉ b) (h : a ++ x :: s = b ++ x :: t) : a = b ∧ s = t := by
  induction a generalizing b with
  | nil =>
    cases b with
    | nil => exact ⟨rfl, (List.cons.inj h).2⟩
    | cons c b =>
      obtain ⟨rfl, -⟩ := List.cons.inj h
      exact absurd List.mem_cons_self hb
  | cons c a ih =>
    cases b with
    | nil =>
      obtain ⟨rfl, -⟩ := List.cons.inj h
      exact absurd List.mem_cons_self ha
    | cons d b =>
      obtain ⟨rfl, htail⟩ := List.cons.inj h
      obtain ⟨rfl, rfl⟩ := ih (List.not_mem_of_not_mem_cons ha) (List.not_mem_of_not_mem_cons hb) htail
      exact ⟨rfl, rfl⟩

/-- The last one. -/
theorem eq_of_last {x : UInt8} {a b s t : Bytes} (ha : x ∉ a) (hb : x ∉ b) (h : s ++ x :: a = t ++ x :: b) : a = b ∧ s = t := by
  have hrev := congrArg List.reverse h
  simp only [List.reverse_append, List.reverse_cons, List.append_assoc, List.singleton_append] at hrev
  obtain ⟨hab, hst⟩ := eq_of_first (by simpa using ha) (by simpa using hb) hrev
  exact ⟨List.reverse_injective hab, List.reverse_injective hst⟩

/-- The bytes the splitter looks at in a field with quotes. -/
theorem csvField_quotes {piece : Bytes} (hquote : chQuote ∈ trim isFieldBlank piece) (h : csvField piece = some field) :
    ∃ u, trim isFieldBlank piece = chQuote :: (u ++ [chQuote]) := by
  rw [csvField, memoryMapConfigTrimField] at h
  by_cases hfirst : (byteAt (trim isFieldBlank piece) 0 == chQuote) = true
  · simp only [hfirst, if_true] at h
    split_ifs at h with hbad
    rw [not_or, not_not] at hbad
    obtain ⟨hlen, hlast⟩ := hbad
    generalize trim isFieldBlank piece = field at hfirst hlen hlast
    match field, hlen with
    | c :: c' :: t, _ =>
      obtain rfl : c = chQuote := beq_iff_eq.1 hfirst
      refine ⟨(c' :: t).dropLast, ?_⟩
      have hend : (c' :: t).getLast (List.cons_ne_nil _ _) = chQuote := by
        rw [byteAt, List.getD_eq_getElem?_getD, ← List.getLast?_eq_getElem?, List.getLast?_cons_cons,
          List.getLast?_eq_getLast_of_ne_nil (List.cons_ne_nil _ _)] at hlast
        exact hlast
      rw [← hend, List.dropLast_concat_getLast]
    | [], hlen => exact absurd (by decide) hlen
    | [c], hlen => exact absurd (Nat.lt_succ_self 1) hlen
  · simp only [hfirst, if_pos hquote] at h
    exact absurd h (by simp)

/-- A piece that is taken as a field has nothing but blanks around its quotes. -/
theorem shaped_of_once {piece : Bytes} (h : Once piece) (hfield : csvField piece = some field) : Shaped piece field := by
  cases h with
  | plain hquote hcomma =>
    have hnone : chQuote ∉ trim isFieldBlank piece := fun hq => hquote (mem_of_mem_trim hq)
    rw [csvField_plain hnone, Option.some.injEq] at hfield
    exact .inl ⟨hnone, fun hc => hcomma (mem_of_mem_trim hc), hfield.symm⟩
  | @quoted before body behind hbefore hbehind =>
    obtain ⟨a, b, hpiece, ha, hb⟩ := trim_decomp isFieldBlank (before ++ enquote body ++ behind)
    have hmem : chQuote ∈ before ++ enquote body ++ behind := by simp [enquote]
    obtain ⟨u, hu⟩ := csvField_quotes (mem_trim_of_mem hmem (by decide)) hfield
    have hquotes : before ++ chQuote :: (doubleQuotes body ++ chQuote :: behind) = a ++ chQuote :: (u ++ chQuote :: b) := by
      rw [hu] at hpiece
      simpa [enquote] using hpiece
    obtain ⟨-, hrest⟩ := eq_of_first hbefore.1 (noQuote_of_isBlank ha).1 hquotes
    obtain ⟨-, hbody⟩ := eq_of_last hbehind.1 (noQuote_of_isBlank hb).1 hrest
    have htrim : trim isFieldBlank (before ++ enquote body ++ behind) = enquote body := by rw [hu, ← hbody, enquote]
    rw [csvField_enquote htrim, Option.some.injEq] at hfield
    exact .inr (hfield ▸ htrim)

theorem shaped_of_mapM {pieces : List Bytes} (h : ∀ p ∈ pieces, Once p) (hmap : pieces.mapM csvField = some fields) :
    List.Forall₂ Shaped pieces fields := by
  induction pieces generalizing fields with
  | nil =>
    obtain rfl : [] = fields := by simpa using hmap
    exact .nil
  | cons p pieces ih =>
    obtain ⟨hp, hpieces⟩ := List.forall_mem_cons.1 h
    rw [List.mapM_cons] at hmap
    obtain ⟨f, hf, hmap⟩ := Option.bind_eq_some_iff.1 hmap
    obtain ⟨fs, hfs, hmap⟩ := Option.bind_eq_some_iff.1 hmap
    obtain rfl : f :: fs = fields := by simpa using hmap
    exact .cons (shaped_of_once hp hf) (ih hpieces hfs)

/-- The record is made of pieces of the grammar, and they stand for the fields. -/
def OfGrammar (record : Bytes) (n : Nat) (fields : List Bytes) : Prop :=
  ∃ pieces, pieces.length = n ∧ record = [chComma].intercalate pieces ∧ List.Forall₂ Shaped pieces fields

theorem OfGrammar.quotedOnce {record : Bytes} (h : OfGrammar record n fields) : quotedOnce record false false false = true := by
  obtain ⟨pieces, -, rfl, hshaped⟩ := h
  exact quotedOnce_join (once_of_shaped hshaped)

/-- **A record that is accepted is of the grammar** exactly if no field opens its quotes a second time. -/
theorem memoryMapConfigSplitCsv_grammar_iff (record : CStr) (n : Nat) (fields : List Bytes)
    (h : memoryMapConfigSplitCsv record.bytes n = .ok fields) :
    OfGrammar record.bytes n fields ↔ quotedOnce record.bytes false false false = true := by
  refine ⟨OfGrammar.quotedOnce, ?_⟩
  intro honce
  obtain ⟨raw, hsplit, hlen, hmap⟩ := memoryMapConfigSplitCsv_eq_ok.1 h
  obtain ⟨pieces, -, hraw, hjoin, hall⟩ := splitLoop_sound hsplit honce (.plain ⟨nofun, nofun⟩) nofun
  rw [hraw, List.nil_append] at hlen hmap
  exact ⟨pieces, hlen, hjoin, shaped_of_mapM hall hmap⟩

theorem memoryMapConfigSplitCsv_grammar_blanks :
    OfGrammar (ascii "\"a,b\" , c") 2 [ascii "a,b", ascii "c"] :=
  (memoryMapConfigSplitCsv_grammar_iff ⟨ascii "\"a,b\" , c", by decide⟩ 2 [ascii "a,b", ascii "c"] (by decide)).2 (by decide)

/-- Quotes that are closed and opened again in one field are accepted. -/
theorem memoryMapConfigSplitCsv_reopened :
    memoryMapConfigSplitCsv (ascii "\"a\"b\"c\"") 1 = .ok [ascii "a\"b\"c"] ∧
      ¬ OfGrammar (ascii "\"a\"b\"c\"") 1 [ascii "a\"b\"c"] :=
  ⟨by decide, fun h => absurd h.quotedOnce (by decide)⟩

end Andromeda
