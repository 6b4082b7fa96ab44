import AndromedaBoot.MemoryMap.Record
import Mathlib.Data.Nat.Digits.Defs

/-!
# Numerals of the memory map

What `MemoryMapConfigParseUint64` (QcomUefiPlatMemoryMapLib.c:108) reads: decimal digits, or hexadecimal ones behind `0x`
or `0X`. The guard in front of each step, `ParsedValue > ((~(UINT64)0 - Digit) / Radix)`, is what keeps the value in 64
bits, so that the machine number is the number of the digits (`memoryMapConfigParseUint64_iff`).
-/

namespace Andromeda

/-- A digit of radix 10 or 16. -/
def IsDigit (radix : Nat) (c : UInt8) : Prop :=
  0x30 ≤ c ∧ c ≤ 0x39 ∨ radix = 16 ∧ (0x61 ≤ c ∧ c ≤ 0x66 ∨ 0x41 ≤ c ∧ c ≤ 0x46)

instance (radix : Nat) : DecidablePred (IsDigit radix) := fun _ => inferInstanceAs (Decidable (_ ∨ _))

def digitValue (c : UInt8) : Nat :=
  if c ≤ 0x39 then c.toNat - 0x30 else if c ≤ 0x46 then c.toNat - 0x41 + 10 else c.toNat - 0x61 + 10

/-- The number that digits stand for, the most significant one first. -/
def digitsValue (radix : Nat) (digits : Bytes) : Nat := Nat.ofDigits radix (digits.map digitValue).reverse

/-- The text is a numeral for `n`. -/
def Denotes (text : Bytes) (n : Nat) : Prop :=
  (text ≠ [] ∧ (∀ c ∈ text, IsDigit 10 c) ∧ digitsValue 10 text = n) ∨
  ∃ x digits, text = 0x30 :: x :: digits ∧ (x = 0x78 ∨ x = 0x58) ∧ digits ≠ [] ∧ (∀ c ∈ digits, IsDigit 16 c) ∧
    digitsValue 16 digits = n

/-! ## The steps of the loop -/

/-- A step `(ParsedValue * Radix) + Digit`. -/
structure DigitStep where
  parsedValue : UInt64
  radix : UInt64
  digit : UInt64

/-- The step as numbers; it does not wrap if this is below `2 ^ 64`. -/
def DigitStep.result (s : DigitStep) : Nat := s.parsedValue.toNat * s.radix.toNat + s.digit.toNat

/-- The digit loop, with the steps it takes. -/
def digitSteps (radix : UInt64) : Bytes → UInt64 → List DigitStep × Option UInt64
  | [], parsedValue => ([], some parsedValue)
  | c :: t, parsedValue =>
    match digitOf radix c with
    | none => ([], none)
    | some digit =>
      if digit ≥ radix ∨ parsedValue > (0xFFFFFFFFFFFFFFFF - digit) / radix then ([], none)
      else
        let r := digitSteps radix t (parsedValue * radix + digit)
        (⟨parsedValue, radix, digit⟩ :: r.1, r.2)

theorem digitSteps_snd (radix : UInt64) (digits : Bytes) (parsedValue : UInt64) :
    (digitSteps radix digits parsedValue).2 = digitLoop radix digits parsedValue := by
  induction digits generalizing parsedValue with
  | nil => rfl
  | cons c t ih =>
    rw [digitSteps, digitLoop]
    cases digitOf radix c with
    | none => rfl
    | some digit =>
      dsimp only
      split_ifs
      · rfl
      · exact ih _

/-! ## One digit -/

variable {radix : UInt64} {c : UInt8} {digits : Bytes}

theorem digitOf_eq_none (h : ¬ IsDigit radix.toNat c) : digitOf radix c = none := by
  unfold IsDigit at h
  rw [digitOf, if_neg (by tauto), if_neg, if_neg]
  · rintro ⟨rfl, hupper⟩
    exact h (.inr ⟨rfl, .inr hupper⟩)
  · rintro ⟨rfl, hlower⟩
    exact h (.inr ⟨rfl, .inl hlower⟩)

theorem toNat_sub {a b : UInt8} (h : b ≤ a) : (a - b).toUInt64.toNat = a.toNat - b.toNat := by
  rw [UInt8.toNat_toUInt64, UInt8.toNat_sub_of_le _ _ h]

theorem digitOf_eq_some (hradix : radix = 10 ∨ radix = 16) (h : IsDigit radix.toNat c) :
    ∃ digit, digitOf radix c = some digit ∧ digit.toNat = digitValue c ∧ digit.toNat < radix.toNat := by
  unfold digitValue
  rcases h with ⟨hlow, hhigh⟩ | ⟨h16, hletter⟩
  · refine ⟨_, if_pos ⟨hlow, hhigh⟩, ?_⟩
    rw [toNat_sub hlow, if_pos hhigh]
    rw [UInt8.le_iff_toNat_le] at hlow hhigh
    have hten : 10 ≤ radix.toNat := by rcases hradix with rfl | rfl <;> decide
    exact ⟨rfl, by simp at hlow hhigh ⊢; omega⟩
  · obtain rfl : radix = 16 := UInt64.toNat_inj.1 h16
    rcases hletter with ⟨hlow, hhigh⟩ | ⟨hlow, hhigh⟩
    · have hnum : ¬ c ≤ 0x39 := fun h => absurd (UInt8.le_trans hlow h) (by decide)
      have hupper : ¬ c ≤ 0x46 := fun h => absurd (UInt8.le_trans hlow h) (by decide)
      refine ⟨(c - 0x61).toUInt64 + 10, ?_, ?_⟩
      · rw [digitOf, if_neg (fun h => hnum h.2), if_pos ⟨rfl, hlow, hhigh⟩]
      · rw [UInt64.toNat_add, toNat_sub hlow, if_neg hnum, if_neg hupper]
        rw [UInt8.le_iff_toNat_le] at hlow hhigh
        simp at hlow hhigh ⊢
        omega
    · have hnum : ¬ c ≤ 0x39 := fun h => absurd (UInt8.le_trans hlow h) (by decide)
      have hlower : ¬ 0x61 ≤ c := fun h => absurd (UInt8.le_trans h hhigh) (by decide)
      refine ⟨(c - 0x41).toUInt64 + 10, ?_, ?_⟩
      · rw [digitOf, if_neg (fun h => hnum h.2), if_neg (fun h => hlower h.2.1), if_pos ⟨rfl, hlow, hhigh⟩]
      · rw [UInt64.toNat_add, toNat_sub hlow, if_neg hnum, if_pos hhigh]
        rw [UInt8.le_iff_toNat_le] at hlow hhigh
        simp at hlow hhigh ⊢
        omega

/-- The guard refuses exactly the steps that would wrap. -/
theorem guard_iff (hradix : 0 < radix.toNat) {parsedValue digit : UInt64} :
    parsedValue > (0xFFFFFFFFFFFFFFFF - digit) / radix ↔ 2 ^ 64 ≤ parsedValue.toNat * radix.toNat + digit.toNat := by
  have hdigit := digit.toNat_lt
  have hmax : (0xFFFFFFFFFFFFFFFF - digit).toNat = 2 ^ 64 - 1 - digit.toNat := by
    rw [UInt64.toNat_sub_of_le _ _ (by rw [UInt64.le_iff_toNat_le]; change _ ≤ 2 ^ 64 - 1; omega)]
    rfl
  rw [gt_iff_lt, UInt64.lt_iff_toNat_lt, UInt64.toNat_div, hmax, Nat.div_lt_iff_lt_mul hradix]
  omega

/-! ## The loop -/

/-- The value behind further digits. -/
def appendDigits (radix : Nat) (digits : Bytes) (value : Nat) : Nat :=
  (digits.map digitValue).foldl (fun value digit => digit + radix * value) value

theorem digitsValue_eq (radix : Nat) (digits : Bytes) : digitsValue radix digits = appendDigits radix digits 0 := by
  rw [digitsValue, Nat.ofDigits_eq_foldr, List.foldr_reverse]
  rfl

theorem appendDigits_cons (radix : Nat) (c : UInt8) (digits : Bytes) (value : Nat) :
    appendDigits radix (c :: digits) value = appendDigits radix digits (digitValue c + radix * value) := rfl

/-- Further digits do not make a number smaller, so what wraps once is too large in the end. -/
theorem le_appendDigits {radix : Nat} (hradix : 0 < radix) (digits : Bytes) (value : Nat) :
    value ≤ appendDigits radix digits value := by
  induction digits generalizing value with
  | nil => exact le_rfl
  | cons c digits ih =>
    have hstep : value ≤ radix * value := Nat.le_mul_of_pos_left value hradix
    calc value ≤ digitValue c + radix * value := by omega
      _ ≤ appendDigits radix digits (digitValue c + radix * value) := ih _

theorem digitLoop_eq_some_iff (hradix : radix = 10 ∨ radix = 16) (digits : Bytes) (parsedValue n : UInt64) :
    digitLoop radix digits parsedValue = some n ↔
      (∀ c ∈ digits, IsDigit radix.toNat c) ∧ appendDigits radix.toNat digits parsedValue.toNat = n.toNat := by
  have hpos : 0 < radix.toNat := by rcases hradix with rfl | rfl <;> decide
  induction digits generalizing parsedValue with
  | nil =>
    rw [digitLoop, Option.some.injEq, ← UInt64.toNat_inj]
    simp [appendDigits]
  | cons c digits ih =>
    rw [digitLoop, List.forall_mem_cons, appendDigits_cons]
    by_cases hc : IsDigit radix.toNat c
    · obtain ⟨digit, hdigit, hvalue, hlt⟩ := digitOf_eq_some hradix hc
      have hless : ¬ digit ≥ radix := by
        rw [ge_iff_le, UInt64.le_iff_toNat_le]
        omega
      rw [hdigit, ← hvalue]
      dsimp only
      by_cases hwraps : parsedValue > (0xFFFFFFFFFFFFFFFF - digit) / radix
      · rw [if_pos (.inr hwraps)]
        rw [guard_iff hpos] at hwraps
        have hle := le_appendDigits hpos digits (digit.toNat + radix.toNat * parsedValue.toNat)
        have hn := n.toNat_lt
        rw [Nat.mul_comm] at hwraps
        simp only [reduceCtorEq, false_iff, not_and]
        intro _
        omega
      · rw [if_neg (not_or.2 ⟨hless, hwraps⟩)]
        refine (ih _).trans ?_
        rw [guard_iff hpos] at hwraps
        have hstep : (parsedValue * radix + digit).toNat = digit.toNat + radix.toNat * parsedValue.toNat := by
          rw [UInt64.toNat_add, UInt64.toNat_mul, Nat.mod_add_mod, Nat.mod_eq_of_lt (by omega), Nat.mul_comm, Nat.add_comm]
        rw [hstep]
        exact ⟨fun h => ⟨⟨hc, h.1⟩, h.2⟩, fun h => ⟨h.1.2, h.2⟩⟩
    · rw [digitOf_eq_none hc]
      simp [hc]

/-- No step wraps, whether the text is accepted in the end or not. -/
theorem digitSteps_fit (hradix : radix = 10 ∨ radix = 16) (digits : Bytes) (parsedValue : UInt64) :
    ∀ s ∈ (digitSteps radix digits parsedValue).1, s.result < 2 ^ 64 := by
  have hpos : 0 < radix.toNat := by rcases hradix with rfl | rfl <;> decide
  induction digits generalizing parsedValue with
  | nil => exact nofun
  | cons c digits ih =>
    rw [digitSteps]
    cases digitOf radix c with
    | none => exact nofun
    | some digit =>
      dsimp only
      split_ifs with hguard
      · exact nofun
      · rw [not_or, guard_iff hpos] at hguard
        exact List.forall_mem_cons.2 ⟨Nat.lt_of_not_le hguard.2, ih _⟩

/-! ## Whole texts -/

/-- The loop of `MemoryMapConfigParseUint64` on a text, with its steps. -/
def parseSteps (text : Bytes) : List DigitStep × Option UInt64 := digitSteps (radixOf text).1 (radixOf text).2 0

theorem radixOf_radix (text : Bytes) : (radixOf text).1 = 10 ∨ (radixOf text).1 = 16 := by
  unfold radixOf
  split_ifs
  · exact .inr rfl
  · exact .inl rfl

/-- What the radix and the digits behind its prefix are for a numeral. -/
theorem denotes_iff {text : Bytes} {n : Nat} :
    Denotes text n ↔ (radixOf text).2 ≠ [] ∧ (∀ c ∈ (radixOf text).2, IsDigit (radixOf text).1.toNat c) ∧
      digitsValue (radixOf text).1.toNat (radixOf text).2 = n := by
  by_cases hhex : byteAt text 0 = 0x30 ∧ (byteAt text 1 = 0x78 ∨ byteAt text 1 = 0x58)
  · have hradix : radixOf text = (16, text.drop 2) := if_pos hhex
    rw [hradix]
    match text, hhex with
    | a :: x :: digits, ⟨ha, hx⟩ =>
      obtain rfl : a = 0x30 := ha
      replace hx : x = 0x78 ∨ x = 0x58 := hx
      constructor
      · rintro (⟨-, hall, -⟩ | ⟨x', digits', heq, -, hsome, hall, hvalue⟩)
        · have hdigit := hall x (by simp)
          rcases hx with rfl | rfl <;> exact absurd hdigit (by decide)
        · obtain ⟨-, -, rfl⟩ : (0x30 : UInt8) = 0x30 ∧ x = x' ∧ digits = digits' := by simpa using heq
          exact ⟨hsome, hall, hvalue⟩
      · rintro ⟨hsome, hall, hvalue⟩
        exact .inr ⟨x, digits, rfl, hx, hsome, hall, hvalue⟩
    | [], ⟨ha, _⟩ => exact absurd ha (by decide)
    | [a], ⟨_, hx⟩ => exact absurd (show (0 : UInt8) = 0x78 ∨ (0 : UInt8) = 0x58 from hx) (by decide)
  · have hradix : radixOf text = (10, text) := if_neg hhex
    rw [hradix]
    constructor
    · rintro (⟨hsome, hall, hvalue⟩ | ⟨x, digits, rfl, hx, -⟩)
      · exact ⟨hsome, hall, hvalue⟩
      · exact absurd ⟨rfl, hx⟩ hhex
    · exact .inl

theorem parse_eq_success_iff {text : Bytes} {value n : UInt64} :
    memoryMapConfigParseUint64 text value = (.success, n) ↔
      (radixOf text).2 ≠ [] ∧ digitLoop (radixOf text).1 (radixOf text).2 0 = some n := by
  unfold memoryMapConfigParseUint64
  by_cases hnil : text = []
  · subst hnil
    simp [radixOf, byteAt]
  · by_cases hdigits : (radixOf text).2 = []
    · simp [hnil, hdigits]
    · cases hloop : digitLoop (radixOf text).1 (radixOf text).2 0 with
      | none => simp [hnil, hdigits, hloop]
      | some k => simp [hnil, hdigits, hloop]

theorem parse_iff_denotes (text : Bytes) (value n : UInt64) :
    memoryMapConfigParseUint64 text value = (.success, n) ↔ Denotes text n.toNat := by
  rw [parse_eq_success_iff, denotes_iff, digitLoop_eq_some_iff (radixOf_radix text), digitsValue_eq]
  rfl

/-- **`MemoryMapConfigParseUint64` accepts exactly the numerals below `2 ^ 64`**, with their value, leaves `*Value`
alone otherwise, and no step of its loop wraps. -/
theorem memoryMapConfigParseUint64_iff (text : CStr) (value : UInt64) :
    (∀ n, memoryMapConfigParseUint64 text.bytes value = (.success, n) ↔ Denotes text.bytes n.toNat) ∧
    ((¬ ∃ n < 2 ^ 64, Denotes text.bytes n) → memoryMapConfigParseUint64 text.bytes value = (.compromisedData, value)) ∧
    (parseSteps text.bytes).2 = digitLoop (radixOf text.bytes).1 (radixOf text.bytes).2 0 ∧
    ∀ s ∈ (parseSteps text.bytes).1, s.result < 2 ^ 64 := by
  refine ⟨parse_iff_denotes text.bytes value, ?_, digitSteps_snd _ _ _,
    digitSteps_fit (radixOf_radix text.bytes) _ _⟩
  intro hnone
  rcases parseUint64_cases text.bytes with ⟨n, hn⟩ | hrefused
  · exact absurd ⟨n.toNat, n.toNat_lt, (parse_iff_denotes text.bytes value n).1 (hn value)⟩ hnone
  · exact hrefused value

example : Denotes (ascii "0xFfFfFfFfFfFfFfFf") (2 ^ 64 - 1) :=
  .inr ⟨0x78, ascii "FfFfFfFfFfFfFfFf", by decide, by decide, by decide, by decide +kernel, by decide⟩

end Andromeda
