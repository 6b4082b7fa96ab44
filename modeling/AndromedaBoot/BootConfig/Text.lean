import AndromedaBoot.Efi
import AndromedaBoot.Lib.Slice

/-!
# Text helpers of the boot configuration reader (AndromedaBootConfigLib.c:15-150)

`TrimRange`, `TrimInlineComment` and `RangeEqualsString` work on index ranges of the configuration
text. Each is given as the source has it and then by what it does to the bytes of the range:

| here | there |
| --- | --- |
| `isConfigSpace`, `toLowerAscii` | `IsConfigSpace` (:15), `ToLowerAscii` (:28) |
| `rangeEqualsString` | `RangeEqualsString` (:41) |
| `trimRange` | `TrimRange` (:94) |
| `trimInlineComment` | `TrimInlineComment` (:111) |
| `trimmed`, `uncomment`, `sameName` | the meaning of the three on byte strings |
-/

namespace Andromeda

open Slice

/-- `IsConfigSpace` (AndromedaBootConfigLib.c:15). -/
def isConfigSpace (c : UInt8) : Bool := c == chSpace || c == chTab || c == chCr

/-- `ToLowerAscii` (AndromedaBootConfigLib.c:28). -/
def toLowerAscii (c : UInt8) : UInt8 := if 0x41 ≤ c ∧ c ≤ 0x5A then c - 0x41 + 0x61 else c

/-! ## `RangeEqualsString` -/

/-- The comparison loop of `RangeEqualsString` with `n` bytes to go. -/
def rangeEqualsLoop (data : Bytes) (start : Nat) (string : CStr) : Nat → Nat → Bool
  | 0, index => byteAt string.bytes index == 0
  | n + 1, index =>
    if byteAt string.bytes index == 0 then false
    else if toLowerAscii (byteAt data (start + index)) != toLowerAscii (byteAt string.bytes index) then false
    else rangeEqualsLoop data start string n (index + 1)

/-- `RangeEqualsString (&Data[start], size, String)` (AndromedaBootConfigLib.c:41). -/
def rangeEqualsString (data : Bytes) (start size : Nat) (string : CStr) : Bool :=
  rangeEqualsLoop data start string size 0

/-- Equality of names: ASCII letter case does not count. -/
def sameName (a b : Bytes) : Bool := a.map toLowerAscii == b.map toLowerAscii

theorem sameName_iff {a b : Bytes} : sameName a b = true ↔ a.map toLowerAscii = b.map toLowerAscii := by
  simp [sameName]

@[simp] theorem sameName_refl (a : Bytes) : sameName a a = true := sameName_iff.2 rfl

theorem sameName_cons (x y : UInt8) (a b : Bytes) :
    sameName (x :: a) (y :: b) = (toLowerAscii x == toLowerAscii y && sameName a b) := by
  simp [sameName]

theorem sameName_nil_left (b : Bytes) : sameName [] b = (b == []) := by
  cases b <;> rfl

theorem rangeEqualsLoop_spec (data : Bytes) (start : Nat) (string : CStr) :
    ∀ n index, start + index + n ≤ data.length →
      rangeEqualsLoop data start string n index =
        sameName (slice data (start + index) (start + index + n)) (string.bytes.drop index)
  | 0, index, _ => by
    rw [rangeEqualsLoop, Nat.add_zero, slice_self, sameName_nil_left, Bool.eq_iff_iff, beq_iff_eq,
      string.byteAt_eq_zero, beq_iff_eq, List.drop_eq_nil_iff]
  | n + 1, index, h => by
    rw [rangeEqualsLoop]
    obtain ⟨x, hx, hs⟩ := slice_cons (l := data) (s := start + index) (e := start + index + (n + 1))
      (by omega) h
    rw [hs, byteAt_of_getElem? hx]
    by_cases hz : string.bytes.length ≤ index
    · rw [(string.byteAt_eq_zero index).2 hz, List.drop_eq_nil_of_le hz]
      rfl
    · have hlt : index < string.bytes.length := by omega
      have hb : byteAt string.bytes index = string.bytes[index] :=
        byteAt_of_getElem? (List.getElem?_eq_getElem hlt)
      have hne : byteAt string.bytes index ≠ 0 := fun h0 => hz ((string.byteAt_eq_zero index).1 h0)
      have ih := rangeEqualsLoop_spec data start string n (index + 1) (by omega)
      rw [List.drop_eq_getElem_cons hlt, if_neg (by simpa using hne), ih, hb, sameName_cons,
        show start + (index + 1) + n = start + index + (n + 1) by omega,
        show start + (index + 1) = start + index + 1 by omega]
      by_cases hc : toLowerAscii x = toLowerAscii string.bytes[index] <;> simp [hc]

/-- **`RangeEqualsString`** compares the range with the string up to letter case. -/
theorem rangeEqualsString_spec {data : Bytes} {s e : Nat} (string : CStr) (hs : s ≤ e)
    (he : e ≤ data.length) :
    rangeEqualsString data s (e - s) string = sameName (slice data s e) string.bytes := by
  have := rangeEqualsLoop_spec data s string (e - s) 0 (by omega)
  rw [rangeEqualsString, this, Nat.add_zero, show s + (e - s) = e by omega, List.drop_zero]

/-! ## `TrimRange` -/

/-- `TrimRange` (AndromedaBootConfigLib.c:94). -/
def trimRange (data : Bytes) (start end_ : Nat) : Nat × Nat :=
  let start := skipWhile isConfigSpace data start end_
  (start, skipBack isConfigSpace data start end_)

/-- The text without blanks at its ends. -/
abbrev trimmed (t : Bytes) : Bytes := trim isConfigSpace t

/-- **`TrimRange`** leaves the trimmed text. -/
theorem trimRange_spec (data : Bytes) {s e : Nat} (hs : s ≤ e) (he : e ≤ data.length) :
    s ≤ (trimRange data s e).1 ∧ (trimRange data s e).1 ≤ (trimRange data s e).2 ∧
      (trimRange data s e).2 ≤ e ∧
      slice data (trimRange data s e).1 (trimRange data s e).2 = trimmed (slice data s e) := by
  have h1 := le_skipWhile (p := isConfigSpace) (i := s) he
  have h2 := skipWhile_le (p := isConfigSpace) hs he
  obtain ⟨h3, h4, h5⟩ := skipBack_spec (p := isConfigSpace) h2 he
  refine ⟨h1, h3, h4, ?_⟩
  rw [slice_from_skipWhile he] at h5
  exact h5

/-! ## `TrimInlineComment` -/

/-- The loop of `TrimInlineComment` with `n` bytes to go. -/
def inlineCommentLoop (data : Bytes) (start end_ : Nat) : Nat → Nat → Bool → Bool → Nat
  | 0, _, _, _ => end_
  | n + 1, index, inQuotes, escaped =>
    let c := byteAt data index
    if inQuotes && c == chBackslash && !escaped then
      inlineCommentLoop data start end_ n (index + 1) inQuotes true
    else if c == chQuote then
      inlineCommentLoop data start end_ n (index + 1) (if escaped then inQuotes else !inQuotes) false
    else if !inQuotes && (c == chHash || c == chSemicolon) &&
        (index == start || isConfigSpace (byteAt data (index - 1))) then
      (trimRange data start index).2
    else inlineCommentLoop data start end_ n (index + 1) inQuotes false

/-- `TrimInlineComment` (AndromedaBootConfigLib.c:111): the new `*End`. -/
def trimInlineComment (data : Bytes) (start end_ : Nat) : Nat :=
  inlineCommentLoop data start end_ (end_ - start) start false false

/-- What the comment scan remembers of the bytes it has passed. -/
structure QuoteState where
  inQuotes : Bool
  escaped : Bool
  /-- The previous byte is a blank, or there is none. -/
  afterBlank : Bool
deriving DecidableEq, Repr

def QuoteState.init : QuoteState := ⟨false, false, true⟩

def QuoteState.step (s : QuoteState) (c : UInt8) : QuoteState :=
  if s.inQuotes && c == chBackslash && !s.escaped then ⟨s.inQuotes, true, false⟩
  else if c == chQuote then ⟨if s.escaped then s.inQuotes else !s.inQuotes, false, false⟩
  else ⟨s.inQuotes, false, isConfigSpace c⟩

/-- `c` opens an inline comment here. -/
def QuoteState.opensComment (s : QuoteState) (c : UInt8) : Bool :=
  !s.inQuotes && (c == chHash || c == chSemicolon) && s.afterBlank

theorem opensComment_of_ne {s : QuoteState} {c : UInt8} (h1 : c ≠ chHash) (h2 : c ≠ chSemicolon) :
    s.opensComment c = false := by
  simp [QuoteState.opensComment, h1, h2]

/-- Offset of the first inline comment in `t`, scanned from state `s`. -/
def commentAt : QuoteState → Bytes → Option Nat
  | _, [] => none
  | s, c :: t => if s.opensComment c then some 0 else (commentAt (s.step c) t).map (· + 1)

/-- The scan state after all of `t`. -/
def QuoteState.after (s : QuoteState) (t : Bytes) : QuoteState := t.foldl QuoteState.step s

/-- `t` up to its first inline comment. -/
def beforeComment (s : QuoteState) (t : Bytes) : Bytes :=
  match commentAt s t with
  | none => t
  | some k => t.take k

/-- The text of a line or value without its inline comment. -/
def uncomment (t : Bytes) : Bytes := trimmed (beforeComment .init t)

theorem commentAt_lt : ∀ {s : QuoteState} {t : Bytes} {k : Nat}, commentAt s t = some k → k < t.length
  | _, [], _, h => by simp [commentAt] at h
  | s, c :: t, k, h => by
    rw [commentAt] at h
    split at h
    · simp only [Option.some.injEq] at h
      simp [← h]
    · obtain ⟨j, hj, rfl⟩ := Option.map_eq_some_iff.1 h
      have := commentAt_lt hj
      simp
      omega

theorem commentAt_append (s : QuoteState) : ∀ (a b : Bytes), commentAt s (a ++ b) =
    match commentAt s a with
    | some k => some k
    | none => (commentAt (s.after a) b).map (· + a.length)
  | [], b => by simp [commentAt, QuoteState.after]
  | c :: a, b => by
    simp only [List.cons_append, commentAt]
    by_cases hc : s.opensComment c = true
    · simp [hc]
    · have ih := commentAt_append (s.step c) a b
      simp only [hc, Bool.false_eq_true, ↓reduceIte, ih]
      cases commentAt (s.step c) a with
      | some k => rfl
      | none =>
        simp only [Option.map_none, Option.map_map, QuoteState.after, List.foldl_cons, List.length_cons]
        congr 1

theorem inlineCommentLoop_spec {data : Bytes} {s e : Nat} (he : e ≤ data.length) :
    ∀ (n i : Nat) (q : QuoteState), s ≤ i → i + n = e →
      q.afterBlank = (i == s || isConfigSpace (byteAt data (i - 1))) →
      inlineCommentLoop data s e n i q.inQuotes q.escaped =
        match commentAt q (slice data i e) with
        | none => e
        | some k => (trimRange data s (i + k)).2
  | 0, i, q, _, hn, _ => by
    rw [slice_eq_nil (by omega)]
    rfl
  | n + 1, i, q, hs, hn, hq => by
    obtain ⟨x, hx, hc⟩ := slice_cons (l := data) (s := i) (e := e) (by omega) he
    have hxb := byteAt_of_getElem? hx
    have ih := fun q' => inlineCommentLoop_spec (s := s) he n (i + 1) q' (by omega) (by omega)
    have hblank : (i + 1 == s || isConfigSpace (byteAt data (i + 1 - 1))) = isConfigSpace x := by
      rw [Nat.add_sub_cancel, hxb, show (i + 1 == s) = false by simp; omega, Bool.false_or]
    -- the three tests of the loop are the three branches of `step`, the comment test that of `opensComment`
    have hshift : ∀ (o : Option Nat), (match o.map (· + 1) with
        | none => e
        | some k => (trimRange data s (i + k)).2) =
        match o with
        | none => e
        | some k => (trimRange data s (i + 1 + k)).2 := by
      rintro (_ | k)
      · rfl
      · simp only [Option.map_some]
        rw [show i + (k + 1) = i + 1 + k by omega]
    rw [inlineCommentLoop, hc, commentAt, hxb]
    by_cases h1 : (q.inQuotes && x == chBackslash && !q.escaped) = true
    · have hx' : x = chBackslash := by simp at h1; exact h1.1.2
      have ho : q.opensComment x = false := opensComment_of_ne (by rw [hx']; decide) (by rw [hx']; decide)
      have hst : q.step x = ⟨q.inQuotes, true, false⟩ := by simp only [QuoteState.step, h1, ↓reduceIte]
      simp only [h1, ↓reduceIte, ho, Bool.false_eq_true, hshift, hst]
      exact ih ⟨q.inQuotes, true, false⟩ (by rw [hblank, hx']; rfl)
    · by_cases h2 : (x == chQuote) = true
      · have hx' : x = chQuote := by simpa using h2
        have ho : q.opensComment x = false := opensComment_of_ne (by rw [hx']; decide) (by rw [hx']; decide)
        have hst : q.step x = ⟨if q.escaped then q.inQuotes else !q.inQuotes, false, false⟩ := by
          simp only [QuoteState.step, h1, h2, ↓reduceIte]
          rfl
        simp only [h1, h2, ↓reduceIte, ho, Bool.false_eq_true, hshift, hst]
        exact ih ⟨_, false, false⟩ (by rw [hblank, hx']; rfl)
      · have hst : q.step x = ⟨q.inQuotes, false, isConfigSpace x⟩ := by
          simp only [QuoteState.step, h1, h2, Bool.false_eq_true, ↓reduceIte]
        have ho : q.opensComment x = (!q.inQuotes && (x == chHash || x == chSemicolon) &&
            (i == s || isConfigSpace (byteAt data (i - 1)))) := by
          rw [QuoteState.opensComment, hq]
        simp only [h1, h2, Bool.false_eq_true, ↓reduceIte, ← ho]
        by_cases h3 : q.opensComment x = true
        · simp [h3]
        · simp only [h3, Bool.false_eq_true, ↓reduceIte, hshift, hst]
          exact ih ⟨q.inQuotes, false, isConfigSpace x⟩ hblank.symm

/-- **`TrimInlineComment`** followed by a trim leaves the text without its inline comment. -/
theorem trimInlineComment_spec (data : Bytes) {s e : Nat} (hs : s ≤ e) (he : e ≤ data.length) :
    s ≤ trimInlineComment data s e ∧ trimInlineComment data s e ≤ e ∧
      trimmed (slice data s (trimInlineComment data s e)) = uncomment (slice data s e) := by
  have hloop : trimInlineComment data s e = _ :=
    inlineCommentLoop_spec he (e - s) s .init (le_refl _) (by omega) (by simp [QuoteState.init])
  rw [hloop, uncomment, beforeComment]
  cases hk : commentAt .init (slice data s e) with
  | none => exact ⟨hs, le_refl _, rfl⟩
  | some k =>
    have hlt := commentAt_lt hk
    rw [length_slice he] at hlt
    obtain ⟨h1, h2, h3, h4⟩ := trimRange_spec data (s := s) (e := s + k) (by omega) (by omega)
    refine ⟨by simp only; omega, by simp only; omega, ?_⟩
    simp only
    have hlead : ∀ x ∈ slice data s (trimRange data s (s + k)).1, isConfigSpace x = true := by
      intro x hx
      have hd : slice data s (trimRange data s (s + k)).1 = (slice data s (s + k)).takeWhile isConfigSpace :=
        slice_to_skipWhile (by omega) (by omega)
      rw [hd] at hx
      exact List.mem_takeWhile_imp hx
    rw [← slice_append_slice h1 h2, trimmed, trim_prepend_of_all hlead, h4, trimmed, trim_trim,
      ← take_slice (e := e) (by omega)]

/-! ## Moving the comment scan over known text -/

theorem step_of_flags {s t : QuoteState} (h1 : s.inQuotes = t.inQuotes) (h2 : s.escaped = t.escaped)
    (c : UInt8) :
    s.step c = t.step c := by
  simp only [QuoteState.step, h1, h2]

theorem ne_of_isConfigSpace {c d : UInt8} (h : isConfigSpace c = true) (hd : isConfigSpace d = false) :
    c ≠ d := by
  rintro rfl
  simp [h] at hd

/-- What opens a comment is a comment sign, and no blank. -/
theorem of_opensComment {s : QuoteState} {c : UInt8} (h : s.opensComment c = true) :
    s.inQuotes = false ∧ s.afterBlank = true ∧ (c = chHash ∨ c = chSemicolon) ∧
      isConfigSpace c = false := by
  simp only [QuoteState.opensComment, Bool.and_eq_true, Bool.not_eq_true', Bool.or_eq_true,
    beq_iff_eq] at h
  refine ⟨h.1.1, h.2, h.1.2, ?_⟩
  rcases h.1.2 with rfl | rfl <;> rfl

theorem commentAt_cons_of_ne {s : QuoteState} {c : UInt8} {t : Bytes} (h1 : c ≠ chHash)
    (h2 : c ≠ chSemicolon) :
    commentAt s (c :: t) = (commentAt (s.step c) t).map (· + 1) := by
  rw [commentAt, opensComment_of_ne h1 h2]
  simp

theorem commentAt_blanks :
    ∀ {s : QuoteState} {b : Bytes}, (∀ x ∈ b, isConfigSpace x = true) → commentAt s b = none
  | _, [], _ => rfl
  | s, c :: b, h => by
    have hc := h c (by simp)
    rw [commentAt_cons_of_ne (ne_of_isConfigSpace hc rfl) (ne_of_isConfigSpace hc rfl),
      commentAt_blanks (fun x hx => h x (by simp [hx]))]
    rfl

/-- Outside quotes, a run of blanks only leaves a blank in front. -/
theorem after_blanks {b : Bytes} (h : ∀ x ∈ b, isConfigSpace x = true) (hne : b ≠ []) {s : QuoteState}
    (hq : s.inQuotes = false) : s.after b = .init := by
  induction b generalizing s with
  | nil => exact absurd rfl hne
  | cons c b ih =>
    have hc := h c (by simp)
    have hstep : s.step c = .init := by
      have hb : (c == chQuote) = false := by simpa using ne_of_isConfigSpace hc rfl
      simp [QuoteState.step, hq, hb, hc, QuoteState.init]
    show (s.step c).after b = .init
    rw [hstep]
    by_cases hb : b = []
    · rw [hb]
      rfl
    · exact ih (fun x hx => h x (by simp [hx])) hb rfl

/-- Blanks neither open nor close quotes. -/
theorem inQuotes_after_blanks {b : Bytes} (h : ∀ x ∈ b, isConfigSpace x = true) (s : QuoteState) :
    (s.after b).inQuotes = s.inQuotes := by
  induction b generalizing s with
  | nil => rfl
  | cons c b ih =>
    have hc := h c (by simp)
    have h1 : (c == chQuote) = false := by simpa using ne_of_isConfigSpace hc rfl
    have h2 : (c == chBackslash) = false := by simpa using ne_of_isConfigSpace hc rfl
    have hstep : (s.step c).inQuotes = s.inQuotes := by simp [QuoteState.step, h1, h2]
    exact (ih (fun x hx => h x (by simp [hx])) (s.step c)).trans hstep

end Andromeda
