import AndromedaBoot.Lib.ByteMemory
import AndromedaBoot.Lib.OnePass

/-!
# Finding a pattern in the loader (KernelErrataPatcherLib/Utilities.c :59-84)

| here | there |
| --- | --- |
| `getBits`, `getByte` | `GET_BITS`, `GET_BYTE`, `KernelErrataPatcherLib.h` :63-67 |
| `findPatternLoop`, `findPattern` | `FindPattern` |

A pattern is a text of bytes in hexadecimal with a space between them; `?` stands for any byte. The loop reads
each byte of memory once, and on patterns without `?` it is the search of `OnePass`.
-/

namespace Andromeda

/-- `GET_BITS`: the value of a hexadecimal digit, and 0 for anything else. -/
def getBits (x : BitVec 8) : BitVec 8 :=
  if 0x41#8 ≤ x &&& ~~~0x20#8 ∧ x &&& ~~~0x20#8 ≤ 0x46#8 then (x &&& ~~~0x20#8) - 0x41#8 + 0xA#8
  else if 0x30#8 ≤ x ∧ x ≤ 0x39#8 then x - 0x30#8
  else 0

/-- `GET_BYTE`. -/
def getByte (a b : BitVec 8) : BitVec 8 := getBits a <<< 4 ||| getBits b

/-- The loop of `FindPattern` with `n` bytes to go. The pattern is given without its terminating zero. -/
def findPatternLoop (m : ByteMemory) (pattern : List (BitVec 8)) :
    Nat → BitVec 64 → List (BitVec 8) → BitVec 64 → BitVec 64
  | 0, _, _, _ => 0
  | n + 1, current, currentPattern, firstMatch =>
    let byte := currentPattern.getD 0 0
    if byte = 0 then firstMatch
    else if byte = 0x3F#8 ∨ m current = getByte byte (currentPattern.getD 1 0) then
      let firstMatch := if firstMatch = 0 then current else firstMatch
      if currentPattern.getD 2 0 = 0 then firstMatch
      else findPatternLoop m pattern n (current + 1)
        (if byte = 0x3F#8 then currentPattern.drop 2 else currentPattern.drop 3) firstMatch
    else findPatternLoop m pattern n (current + 1) pattern 0

/-- `FindPattern`; there is no round if `baseAddress + size` is not above `baseAddress`. -/
def findPattern (m : ByteMemory) (baseAddress size : BitVec 64) (pattern : List (BitVec 8)) : BitVec 64 :=
  findPatternLoop m pattern ((baseAddress + size).toNat - baseAddress.toNat) baseAddress pattern 0

/-! ## Patterns -/

/-- A hexadecimal digit, with the case it is written in. -/
structure HexDigit where
  value : Fin 16
  upper : Bool
deriving DecidableEq

namespace HexDigit

/-- The digit in ASCII. -/
def char (d : HexDigit) : BitVec 8 :=
  if d.value.val < 10 then BitVec.ofNat 8 (0x30 + d.value.val)
  else BitVec.ofNat 8 ((if d.upper then 0x41 else 0x61) + (d.value.val - 10))

theorem getBits_char (d : HexDigit) : getBits d.char = BitVec.ofNat 8 d.value.val ∧ d.char ≠ 0 ∧ d.char ≠ 0x3F#8 := by
  obtain ⟨value, upper⟩ := d
  revert value upper
  decide

end HexDigit

/-- The value of two digits. -/
def byteValue (d : HexDigit × HexDigit) : BitVec 8 := BitVec.ofNat 8 (16 * d.1.value.val + d.2.value.val)

/-- The text of a pattern: two digits for each byte, with a space between the bytes. -/
def patternText : List (HexDigit × HexDigit) → List (BitVec 8)
  | [] => []
  | [d] => [d.1.char, d.2.char]
  | d :: ds => d.1.char :: d.2.char :: 0x20#8 :: patternText ds

theorem getByte_char (d : HexDigit × HexDigit) : getByte d.1.char d.2.char = byteValue d := by
  rw [getByte, d.1.getBits_char.1, d.2.getBits_char.1, byteValue]
  generalize d.1.value = v
  generalize d.2.value = w
  revert v w
  decide

/-- What the loop reads of a pattern, and how it goes on. -/
theorem patternText_cons (d : HexDigit × HexDigit) (rest : List (HexDigit × HexDigit)) :
    (patternText (d :: rest)).getD 0 0 = d.1.char ∧ (patternText (d :: rest)).getD 1 0 = d.2.char ∧
      ((patternText (d :: rest)).getD 2 0 = 0 ↔ rest = []) ∧ (patternText (d :: rest)).drop 3 = patternText rest := by
  cases rest with
  | nil => exact ⟨rfl, rfl, iff_of_true rfl rfl, rfl⟩
  | cons e rest => exact ⟨rfl, rfl, iff_of_false (by simp [patternText]) (by simp), rfl⟩

/-! ## The search -/

variable {m : ByteMemory} {base : BitVec 64} {ds rest : List (HexDigit × HexDigit)} {n pos k : Nat}

/-- The bytes from `base` on. -/
def textFrom (m : ByteMemory) (base : BitVec 64) (i : Nat) : BitVec 8 := m (base + BitVec.ofNat 64 i)

/-- The address of what is found, and 0 for nothing. -/
def addressOf (base : BitVec 64) : Option Nat → BitVec 64
  | none => 0
  | some a => base + BitVec.ofNat 64 a

/-- The loop in the middle of an attempt, with `k` bytes of the pattern compared. -/
theorem findPatternLoop_eq (hbase : base ≠ 0) (hfit : base.toNat + pos + n < 2 ^ 64) (hk : k ≤ pos)
    (hrest : ds.length = k + rest.length) (hne : rest ≠ []) :
    findPatternLoop m (patternText ds) n (base + BitVec.ofNat 64 pos) (patternText rest)
        (if k = 0 then 0 else base + BitVec.ofNat 64 (pos - k)) =
      addressOf base (OnePass.search (textFrom m base) (ds.map byteValue) n pos (rest.map byteValue)) := by
  induction n generalizing pos k rest with
  | zero => rfl
  | succ n ih =>
    obtain ⟨d, tail, rfl⟩ := List.exists_cons_of_ne_nil hne
    obtain ⟨h0, h1, h2, h3⟩ := patternText_cons d tail
    obtain ⟨-, hzero, hany⟩ := d.1.getBits_char
    rw [List.length_cons] at hrest
    have hnext : base + BitVec.ofNat 64 pos + 1 = base + BitVec.ofNat 64 (pos + 1) := by bv_omega
    have hmatch : (if (if k = 0 then (0 : BitVec 64) else base + BitVec.ofNat 64 (pos - k)) = 0 then base + BitVec.ofNat 64 pos
        else if k = 0 then 0 else base + BitVec.ofNat 64 (pos - k)) = base + BitVec.ofNat 64 (pos - k) := by
      by_cases hk0 : k = 0
      · simp [hk0]
      · rw [if_neg hk0, if_neg (by bv_omega)]
    simp only [findPatternLoop, OnePass.search, h0, h1, if_neg hzero, hany, false_or, getByte_char, List.map_cons,
      List.head?_cons, List.tail_cons, List.map_eq_nil_iff, h2, hmatch, h3, if_false, hnext]
    by_cases hbyte : m (base + BitVec.ofNat 64 pos) = byteValue d
    · have hhead : some (byteValue d) = some (textFrom m base pos) := by rw [← hbyte]; rfl
      rw [if_pos hbyte, if_pos hhead]
      by_cases htail : tail = []
      · subst htail
        rw [if_pos rfl, if_pos rfl, addressOf, List.length_map]
        congr 2
        simp only [List.length_nil] at hrest
        omega
      · rw [if_neg htail, if_neg htail]
        have hstep := ih (k := k + 1) (show base.toNat + (pos + 1) + n < 2 ^ 64 by omega) (by omega) (by omega) htail
        rwa [if_neg (by omega), Nat.add_sub_add_right] at hstep
    · have hhead : some (byteValue d) ≠ some (textFrom m base pos) := fun h => hbyte (Option.some.inj h).symm
      rw [if_neg hbyte, if_neg hhead]
      have hds : ds ≠ [] := by
        rintro rfl
        simp at hrest
      exact ih (k := 0) (show base.toNat + (pos + 1) + n < 2 ^ 64 by omega) (by omega) (by omega) hds

theorem findPattern_eq (hbase : base ≠ 0) {size : BitVec 64} (hfit : base.toNat + size.toNat < 2 ^ 64) (hds : ds ≠ []) :
    findPattern m base size (patternText ds) =
      addressOf base (OnePass.search (textFrom m base) (ds.map byteValue) size.toNat 0 (ds.map byteValue)) := by
  have hloop := findPatternLoop_eq (m := m) (k := 0) hbase (show base.toNat + 0 + size.toNat < 2 ^ 64 by omega) (Nat.le_refl 0)
    (Nat.zero_add _).symm hds
  rw [BitVec.ofNat_eq_ofNat, BitVec.add_zero, if_pos rfl] at hloop
  rw [findPattern, show (base + size).toNat - base.toNat = size.toNat by bv_omega]
  exact hloop

/-! ## What it finds -/

/-- The bytes of a pattern match at `a`, all below `top`. -/
def MatchesAt (m : ByteMemory) (ds : List (HexDigit × HexDigit)) (top : Nat) (a : BitVec 64) : Prop :=
  a.toNat + ds.length ≤ top ∧ ∀ (i : Nat) (h : i < ds.length), m (a + BitVec.ofNat 64 i) = byteValue ds[i]

/-- The lowest match from `base` on, and 0 if there is none. -/
def LowestMatch (m : ByteMemory) (ds : List (HexDigit × HexDigit)) (base size a : BitVec 64) : Prop :=
  (a ≠ 0 → base ≤ a ∧ MatchesAt m ds (base.toNat + size.toNat) a ∧
    ∀ b, base ≤ b → b < a → ¬ MatchesAt m ds (base.toNat + size.toNat) b) ∧
  (a = 0 ↔ ∀ b, base ≤ b → ¬ MatchesAt m ds (base.toNat + size.toNat) b)

section Lowest

variable {size : BitVec 64} {a : Nat}

/-- A match from `base` on is an occurrence in the bytes from `base` on. -/
theorem matchesAt_iff (ha : base.toNat + a < 2 ^ 64) :
    MatchesAt m ds (base.toNat + size.toNat) (base + BitVec.ofNat 64 a) ↔
      OnePass.Occurs (textFrom m base) (ds.map byteValue) a ∧ a + ds.length ≤ size.toNat := by
  have haddr : (base + BitVec.ofNat 64 a).toNat = base.toNat + a := by bv_omega
  have hbyte (i : Nat) : m (base + BitVec.ofNat 64 a + BitVec.ofNat 64 i) = textFrom m base (a + i) := by
    rw [textFrom, BitVec.add_assoc, ← BitVec.ofNat_add]
  rw [MatchesAt, haddr, and_comm]
  refine and_congr ?_ (by omega)
  constructor
  · intro h i hi
    rw [← hbyte, h i (by simpa using hi), List.getElem_map]
  · intro h i hi
    rw [hbyte, h i (by simpa using hi), List.getElem_map]

theorem isFirst_iff (hfit : base.toNat + size.toNat < 2 ^ 64) (ha : base.toNat + a < 2 ^ 64) :
    OnePass.IsFirst (textFrom m base) (ds.map byteValue) size.toNat a ↔
      MatchesAt m ds (base.toNat + size.toNat) (base + BitVec.ofNat 64 a) ∧
        ∀ b, base ≤ b → b < base + BitVec.ofNat 64 a → ¬ MatchesAt m ds (base.toNat + size.toNat) b := by
  rw [OnePass.IsFirst, matchesAt_iff ha, List.length_map]
  constructor
  · rintro ⟨hoccurs, hle, hbefore⟩
    refine ⟨⟨hoccurs, hle⟩, ?_⟩
    intro b hb hlt hmatch
    obtain ⟨c, rfl, hc⟩ : ∃ c, b = base + BitVec.ofNat 64 c ∧ base.toNat + c < 2 ^ 64 :=
      ⟨b.toNat - base.toNat, by bv_omega, by bv_omega⟩
    exact hbefore c (by bv_omega) ((matchesAt_iff hc).1 hmatch).1
  · rintro ⟨⟨hoccurs, hle⟩, hbefore⟩
    refine ⟨hoccurs, hle, ?_⟩
    intro b hb hoccurs'
    exact hbefore (base + BitVec.ofNat 64 b) (by bv_omega) (by bv_omega)
      ((matchesAt_iff (by omega)).2 ⟨hoccurs', by omega⟩)

theorem not_isFirst_iff (hfit : base.toNat + size.toNat < 2 ^ 64) :
    (∀ a, ¬ OnePass.IsFirst (textFrom m base) (ds.map byteValue) size.toNat a) ↔
      ∀ b, base ≤ b → ¬ MatchesAt m ds (base.toNat + size.toNat) b := by
  constructor
  · intro h b hb hmatch
    obtain ⟨c, rfl, hc⟩ : ∃ c, b = base + BitVec.ofNat 64 c ∧ base.toNat + c < 2 ^ 64 :=
      ⟨b.toNat - base.toNat, by bv_omega, by bv_omega⟩
    obtain ⟨hoccurs, hle⟩ := (matchesAt_iff hc).1 hmatch
    obtain ⟨d, ⟨hd, hoccurs'⟩, hleast⟩ := OnePass.exists_first hoccurs
    exact h d ⟨hoccurs', by rw [List.length_map]; omega, hleast⟩
  · intro h a hfirst
    have hle := hfirst.2.1
    rw [List.length_map] at hle
    exact h (base + BitVec.ofNat 64 a) (by bv_omega) ((matchesAt_iff (by omega)).2 ⟨hfirst.1, hle⟩)

/-- What is returned is the lowest match if the search finds the first occurrence. -/
theorem lowestMatch_addressOf (hbase : base ≠ 0) (hfit : base.toNat + size.toNat < 2 ^ 64) {o : Option Nat}
    (ho : ∀ a, o = some a → a + ds.length ≤ size.toNat) :
    LowestMatch m ds base size (addressOf base o) ↔
      ∀ a, o = some a ↔ OnePass.IsFirst (textFrom m base) (ds.map byteValue) size.toNat a := by
  cases o with
  | none =>
    rw [LowestMatch, addressOf]
    simp only [ne_eq, not_true_eq_false, false_imp_iff, true_and, true_iff, reduceCtorEq, false_iff]
    exact (not_isFirst_iff hfit).symm
  | some a =>
    have ha := ho a rfl
    have hne : base + BitVec.ofNat 64 a ≠ 0 := by bv_omega
    have hle : base ≤ base + BitVec.ofNat 64 a := by bv_omega
    rw [LowestMatch, addressOf]
    simp only [hne, ne_eq, not_false_eq_true, true_imp_iff, false_iff]
    constructor
    · rintro ⟨⟨-, hmatch⟩, -⟩ b
      have hfirst := (isFirst_iff hfit (by omega)).2 hmatch
      constructor
      · rintro ⟨⟩
        exact hfirst
      · intro hb
        have hab : ¬ a < b := fun hlt => hb.2.2 a hlt hfirst.1
        have hba : ¬ b < a := fun hlt => hfirst.2.2 b hlt hb.1
        rw [show a = b by omega]
    · intro h
      have hmatch := (isFirst_iff hfit (by omega)).1 ((h a).1 rfl)
      exact ⟨⟨hle, hmatch⟩, fun hnone => hnone _ hle hmatch.1⟩

/-- **`FindPattern` gives the lowest match** if and only if the lowest match, if there is one, is where the loop
begins to compare: at the base, or right behind the first mismatch of an earlier attempt. -/
theorem findPattern_lowest_iff (m : ByteMemory) {base size : BitVec 64} (hbase : base ≠ 0)
    (hfit : base.toNat + size.toNat < 2 ^ 64) {ds : List (HexDigit × HexDigit)} (hds : ds ≠ []) :
    LowestMatch m ds base size (findPattern m base size (patternText ds)) ↔
      ∀ a, base ≤ a → MatchesAt m ds (base.toNat + size.toNat) a →
        (∀ b, base ≤ b → b < a → ¬ MatchesAt m ds (base.toNat + size.toNat) b) →
        ∃ i, a.toNat = base.toNat + OnePass.attempt (textFrom m base) (ds.map byteValue) i := by
  have hpattern : ds.map byteValue ≠ [] := by simpa using hds
  have hfound : OnePass.Found (textFrom m base) (ds.map byteValue) size.toNat
      (OnePass.search (textFrom m base) (ds.map byteValue) size.toNat 0 (ds.map byteValue)) :=
    OnePass.found_search_start hpattern _
  rw [findPattern_eq hbase hfit hds, lowestMatch_addressOf hbase hfit, OnePass.search_isFirst_iff hpattern]
  · constructor
    · intro h x hx hmatch hbefore
      obtain ⟨a, rfl, ha⟩ : ∃ a, x = base + BitVec.ofNat 64 a ∧ base.toNat + a < 2 ^ 64 :=
        ⟨x.toNat - base.toNat, by bv_omega, by bv_omega⟩
      obtain ⟨i, hi⟩ := h a ((isFirst_iff hfit ha).2 ⟨hmatch, hbefore⟩)
      refine ⟨i, ?_⟩
      rw [hi]
      bv_omega
    · intro h a hfirst
      have hle := hfirst.2.1
      rw [List.length_map] at hle
      obtain ⟨hmatch, hbefore⟩ := (isFirst_iff hfit (by omega)).1 hfirst
      obtain ⟨i, hi⟩ := h (base + BitVec.ofNat 64 a) (by bv_omega) hmatch hbefore
      refine ⟨i, ?_⟩
      bv_omega
  · intro a ha
    rw [ha] at hfound
    obtain ⟨-, -, -, hle, -⟩ := hfound
    rwa [List.length_map] at hle

end Lowest

/-! ## Two loaders -/

/-- `28 10 38 D5`, as the fix-up of `ACTLR_EL1` looks for it. -/
def actlrDigits : List (HexDigit × HexDigit) :=
  [(⟨2, true⟩, ⟨8, true⟩), (⟨1, true⟩, ⟨0, true⟩), (⟨3, true⟩, ⟨8, true⟩), (⟨0xD, true⟩, ⟨5, true⟩)]

/-- A loader that begins with the given bytes, at `0x1000`. -/
def loaderWith (bytes : List (BitVec 8)) : ByteMemory := ByteMemory.writeBytes (fun _ => 0) 0x1000#64 bytes

theorem findPattern_lowest_second :
    LowestMatch (loaderWith [0, 0x28, 0x10, 0x38, 0xD5]) actlrDigits 0x1000#64 16#64
      (findPattern (loaderWith [0, 0x28, 0x10, 0x38, 0xD5]) 0x1000#64 16#64 (patternText actlrDigits)) := by
  refine (findPattern_lowest_iff _ (by decide) (by decide) (by decide)).2 fun a hle hmatch hbefore => ⟨1, ?_⟩
  have hsecond : MatchesAt (loaderWith [0, 0x28, 0x10, 0x38, 0xD5]) actlrDigits 0x1010 0x1001#64 :=
    ⟨by decide, by decide +kernel⟩
  have hlow : a ≠ 0x1000#64 := by
    rintro rfl
    exact absurd (hmatch.2 0 (by decide)) (by decide +kernel)
  have hhigh : ¬ 0x1001#64 < a := fun hlt => hbefore _ (by decide) hlt hsecond
  obtain rfl : a = 0x1001#64 := by bv_omega
  decide +kernel

/-- The byte that ends the first attempt begins the match, and is not looked at again. -/
theorem findPattern_misses :
    ¬ LowestMatch (loaderWith [0x28, 0x28, 0x10, 0x38, 0xD5]) actlrDigits 0x1000#64 16#64
      (findPattern (loaderWith [0x28, 0x28, 0x10, 0x38, 0xD5]) 0x1000#64 16#64 (patternText actlrDigits)) := by
  have hzero : findPattern (loaderWith [0x28, 0x28, 0x10, 0x38, 0xD5]) 0x1000#64 16#64 (patternText actlrDigits) = 0 := by
    decide +kernel
  rw [hzero]
  rintro ⟨-, hnone⟩
  refine hnone.1 rfl 0x1001#64 (by decide) ⟨by decide, ?_⟩
  decide +kernel

end Andromeda
