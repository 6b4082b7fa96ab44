import AndromedaBoot.BootConfig.Text

/-!
# The line grammar of the boot configuration

What the text means, said on byte strings and without indices: the text is split at LF, every line
is blank (or a comment), a section header, a malformed header, or data; a data line belongs to the
most recent header, and to the section with the empty name before the first one. This is the
reference the two accessors of `Reader` are compared with in `Scan`.
-/

namespace Andromeda

open Slice

/-- What a line of the configuration is. -/
inductive Line
  | blank
  | header (name : Bytes)
  | malformed
  | data (content : Bytes)
deriving DecidableEq, Repr

/-- The name in a header, given the text after its `[`: there is a `]`, and only blanks or a comment
follow the first one. -/
def headerName (t : Bytes) : Option Bytes :=
  if chClose ∈ t then
    match ((t.dropWhile (· != chClose)).drop 1).dropWhile isConfigSpace with
    | [] => some (trimmed (t.takeWhile (· != chClose)))
    | c :: _ =>
      if c = chHash ∨ c = chSemicolon then some (trimmed (t.takeWhile (· != chClose))) else none
  else none

def lineOf (raw : Bytes) : Line :=
  match trimmed raw with
  | [] => .blank
  | c :: t =>
    if c = chHash ∨ c = chSemicolon then .blank
    else if c = chOpen then
      match headerName t with
      | none => .malformed
      | some name => .header name
    else .data (c :: t)

def configLines (text : Bytes) : List Line := (text.splitOn chLf).map lineOf

/-- Text before the first `=`. -/
def beforeEquals (t : Bytes) : Bytes := t.takeWhile (· != chEquals)

/-- Text after the first `=`. -/
def afterEquals (t : Bytes) : Bytes := (t.dropWhile (· != chEquals)).drop 1

/-- The key and the value of a data line that has an `=`. -/
def keyValue (content : Bytes) : Option (Bytes × Bytes) :=
  if chEquals ∈ content then
    some (trimmed (beforeEquals content), uncomment (trimmed (afterEquals content)))
  else none

/-- The data lines with the section each belongs to, `current` being the section so far. -/
def dataFrom : Bytes → List Line → List (Bytes × Bytes)
  | _, [] => []
  | _, .header name :: ls => dataFrom name ls
  | current, .data content :: ls => (current, content) :: dataFrom current ls
  | current, .blank :: ls => dataFrom current ls
  | current, .malformed :: ls => dataFrom current ls

/-- A key with its value, and the section it is in. -/
structure Entry where
  inSection : Bytes
  key : Bytes
  value : Bytes
deriving DecidableEq, Repr

def entriesFrom (current : Bytes) (ls : List Line) : List Entry :=
  (dataFrom current ls).filterMap fun d => (keyValue d.2).map fun kv => ⟨d.1, kv.1, kv.2⟩

/-- All key/value entries of a text. -/
def entries (text : Bytes) : List Entry := entriesFrom [] (configLines text)

/-- The entry answers a lookup of `key` in `section_`. -/
def Entry.answers (section_ key : Bytes) (e : Entry) : Bool :=
  sameName e.inSection section_ && sameName e.key key

/-- Some header of the text is malformed. -/
def MalformedHeader (text : Bytes) : Prop := Line.malformed ∈ configLines text

instance (text : Bytes) : Decidable (MalformedHeader text) := inferInstanceAs (Decidable (_ ∈ _))

/-- No header of the text is malformed and no key is empty. -/
def SoundText (text : Bytes) : Prop := ¬ MalformedHeader text ∧ ∀ en ∈ entries text, en.key ≠ []

instance (text : Bytes) : Decidable (SoundText text) := inferInstanceAs (Decidable (_ ∧ _))

/-- The records of one section: its data lines without inline comments. -/
def recordsFrom (section_ current : Bytes) (ls : List Line) : List Bytes :=
  ((dataFrom current ls).filter fun d => sameName d.1 section_).map fun d => uncomment d.2

/-- All records of a section of a text. -/
def records (section_ text : Bytes) : List Bytes := recordsFrom section_ [] (configLines text)

/-! ## First facts -/

/-- A data line starts with a byte that is neither blank nor a comment sign nor `[`. -/
theorem lineOf_data {raw content : Bytes} (h : lineOf raw = .data content) :
    content = trimmed raw ∧ ∃ c t, content = c :: t ∧ isConfigSpace c = false ∧ c ≠ chHash ∧
      c ≠ chSemicolon ∧
      c ≠ chOpen := by
  unfold lineOf at h
  cases htr : trimmed raw with
  | nil => simp [htr] at h
  | cons c t =>
    simp only [htr] at h
    split_ifs at h with h1 h2
    · split at h <;> simp at h
    · simp only [Line.data.injEq] at h
      simp only [not_or] at h1
      exact ⟨h.symm, c, t, h.symm, head_trim htr, h1.1, h1.2, h2⟩

theorem mem_dataFrom {cur content sec : Bytes} {ls : List Line} (h : (sec, content) ∈ dataFrom cur ls) :
    Line.data content ∈ ls := by
  induction ls generalizing cur with
  | nil => simp [dataFrom] at h
  | cons l ls ih =>
    cases l with
    | blank => exact List.mem_cons_of_mem _ (ih h)
    | malformed => exact List.mem_cons_of_mem _ (ih h)
    | header n => exact List.mem_cons_of_mem _ (ih h)
    | data c =>
      simp only [dataFrom, List.mem_cons, Prod.mk.injEq] at h
      rcases h with ⟨-, rfl⟩ | h
      · simp
      · exact List.mem_cons_of_mem _ (ih h)

/-- The comment scan never removes the first byte of a data line, so no record is empty. -/
theorem uncomment_ne_nil {c : UInt8} {t : Bytes} (h1 : isConfigSpace c = false) (h2 : c ≠ chHash)
    (h3 : c ≠ chSemicolon) : uncomment (c :: t) ≠ [] := by
  have hfirst : ∃ r, beforeComment .init (c :: t) = c :: r := by
    rw [beforeComment, commentAt, opensComment_of_ne h2 h3]
    cases commentAt (QuoteState.init.step c) t with
    | none => exact ⟨t, rfl⟩
    | some k => exact ⟨t.take k, rfl⟩
  obtain ⟨r, hr⟩ := hfirst
  intro hnil
  rw [uncomment, hr, trimmed, trim_eq_nil_iff] at hnil
  have := hnil c (by simp)
  simp [h1] at this

theorem record_ne_nil {section_ text r : Bytes} (h : r ∈ records section_ text) : r ≠ [] := by
  obtain ⟨⟨sec, content⟩, hd, rfl⟩ := List.mem_map.1 h
  have hl := mem_dataFrom (List.mem_filter.1 hd).1
  obtain ⟨raw, -, hraw⟩ := List.mem_map.1 hl
  obtain ⟨-, c, t, hc, h1, h2, h3, -⟩ := lineOf_data hraw
  simp only [hc]
  exact uncomment_ne_nil h1 h2 h3

theorem mem_of_mem_uncomment {t : Bytes} {x : UInt8} (h : x ∈ uncomment t) : x ∈ t := by
  have hx : x ∈ beforeComment .init t := mem_of_mem_trim h
  unfold beforeComment at hx
  split at hx
  · exact hx
  · exact List.mem_of_mem_take hx

end Andromeda
