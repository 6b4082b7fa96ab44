import Mathlib.Algebra.Group.Nat.Defs
import Mathlib.Data.List.TakeWhile
import Mathlib.Tactic.Common

/-!
# EFI status codes, bytes and C strings

What every module of the firmware shares. `CHAR8` is a byte; a `CHAR8 *` that the code reads up to
its terminator is a `CStr`, which cannot hold the terminator. An `EFI_STATUS` is one of the codes
this code returns; `EFI_ERROR` holds of all of them but `EFI_SUCCESS`.
-/

namespace Andromeda

abbrev Bytes := List UInt8

/-- `EFI_STATUS`. -/
inductive EfiStatus
  | success
  | invalidParameter
  | bufferTooSmall
  | notReady
  | outOfResources
  | notFound
  | compromisedData
  | badBufferSize
  | unsupported
  | timeout
deriving DecidableEq, Repr

/-- `Data[i]`; a read behind the terminator of a C string gives the terminator. -/
def byteAt (data : Bytes) (i : Nat) : UInt8 := data.getD i 0

theorem byteAt_of_getElem? {data : Bytes} {i : Nat} {x : UInt8} (h : data[i]? = some x) :
    byteAt data i = x := by
  simp [byteAt, List.getD_eq_getElem?_getD, h]

/-- The bytes of a string literal of the source. -/
def ascii (s : String) : Bytes := s.toList.map fun c => c.toNat.toUInt8

/-- A NUL-terminated text, without its terminator. -/
structure CStr where
  bytes : Bytes
  noNul : (0 : UInt8) ∉ bytes
deriving DecidableEq, Repr

/-- The text a pointer into `mem` at `p` denotes: everything up to the next NUL. -/
def cstrAt (mem : Bytes) (p : Nat) : CStr where
  bytes := (mem.drop p).takeWhile (· != 0)
  noNul h := by simpa using List.mem_takeWhile_imp h

/-- The text a caller finds in the buffer it was copied to. -/
theorem cstrAt_copied {text rest : Bytes} (h : (0 : UInt8) ∉ text) :
    (cstrAt (text ++ 0 :: rest) 0).bytes = text := by
  have hall : ∀ x ∈ text, (x != 0) = true := by
    intro x hx
    simp only [bne_iff_ne]
    exact fun h0 => h (h0 ▸ hx)
  change ((text ++ 0 :: rest).drop 0).takeWhile (· != 0) = text
  rw [List.drop_zero, List.takeWhile_append_of_pos hall, List.takeWhile_cons_of_neg (by simp),
    List.append_nil]

/-- Past its last byte a C string reads as NUL, and nowhere before. -/
theorem CStr.byteAt_eq_zero (s : CStr) (i : Nat) : byteAt s.bytes i = 0 ↔ s.bytes.length ≤ i := by
  rw [byteAt, List.getD_eq_getElem?_getD]
  by_cases h : i < s.bytes.length
  · rw [List.getElem?_eq_getElem h, Option.getD_some]
    have hm : s.bytes[i] ∈ s.bytes := List.getElem_mem h
    have hne : s.bytes[i] ≠ 0 := fun h0 => s.noNul (h0 ▸ hm)
    simp [hne]
    omega
  · rw [List.getElem?_eq_none (by omega)]
    simp
    omega

/-- `AsciiCharToUpper` of BaseLib. -/
def asciiCharToUpper (c : UInt8) : UInt8 := if 0x61 ≤ c ∧ c ≤ 0x7A then c - 0x20 else c

/-- `AsciiStriCmp` of BaseLib: the difference of the first two bytes that differ after upper-casing,
zero when the texts agree up to letter case. -/
def asciiStriCmp : Bytes → Bytes → Int
  | [], [] => 0
  | a :: _, [] => (asciiCharToUpper a).toNat
  | [], b :: _ => - ((asciiCharToUpper b).toNat : Int)
  | a :: as, b :: bs =>
    if asciiCharToUpper a = asciiCharToUpper b then asciiStriCmp as bs
    else (asciiCharToUpper a).toNat - (asciiCharToUpper b).toNat

theorem asciiCharToUpper_ne_zero {c : UInt8} (h : c ≠ 0) : asciiCharToUpper c ≠ 0 := by
  unfold asciiCharToUpper
  split_ifs with hc
  · intro h0
    have : c = 0x20 := by
      have := congrArg (· + 0x20) h0
      simpa using this
    rw [this] at hc
    exact absurd hc.1 (by decide)
  · exact h

/-- Texts compare equal exactly when they have the same bytes up to letter case. -/
theorem asciiStriCmp_eq_zero_iff :
    ∀ {a b : Bytes}, (0 : UInt8) ∉ a → (0 : UInt8) ∉ b →
    (asciiStriCmp a b = 0 ↔ a.map asciiCharToUpper = b.map asciiCharToUpper)
  | [], [], _, _ => by simp [asciiStriCmp]
  | x :: a, [], ha, _ => by
    have hx : (asciiCharToUpper x).toNat ≠ 0 := fun h0 =>
      asciiCharToUpper_ne_zero (fun h => ha (by simp [h])) (UInt8.toNat_inj.1 h0)
    simpa [asciiStriCmp] using hx
  | [], y :: b, _, hb => by
    have hy : (asciiCharToUpper y).toNat ≠ 0 := fun h0 =>
      asciiCharToUpper_ne_zero (fun h => hb (by simp [h])) (UInt8.toNat_inj.1 h0)
    simpa [asciiStriCmp] using hy
  | x :: a, y :: b, ha, hb => by
    have ih := asciiStriCmp_eq_zero_iff (fun h0 => ha (List.mem_cons_of_mem x h0)) (fun h0 => hb (List.mem_cons_of_mem y h0))
    rw [asciiStriCmp, List.map_cons, List.map_cons, List.cons.injEq]
    split_ifs with hxy
    · simp [hxy, ih]
    · have : (asciiCharToUpper x).toNat ≠ (asciiCharToUpper y).toNat := fun h => hxy (UInt8.toNat_inj.1 h)
      simp only [hxy, false_and, iff_false]
      omega

/-! ## Bytes the scanners test for -/

abbrev chTab : UInt8 := 0x09
abbrev chLf : UInt8 := 0x0A
abbrev chCr : UInt8 := 0x0D
abbrev chSpace : UInt8 := 0x20
abbrev chQuote : UInt8 := 0x22
abbrev chHash : UInt8 := 0x23
abbrev chComma : UInt8 := 0x2C
abbrev chSemicolon : UInt8 := 0x3B
abbrev chEquals : UInt8 := 0x3D
abbrev chOpen : UInt8 := 0x5B
abbrev chBackslash : UInt8 := 0x5C
abbrev chClose : UInt8 := 0x5D

end Andromeda
