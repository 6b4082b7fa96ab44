import Mathlib.Algebra.Group.Nat.Defs
import Mathlib.Data.List.GetD
import Mathlib.Tactic.Common

/-!
# Fields of packed structures

A packed structure is the list of its bytes. A field is a part of the list; numbers are little-endian. `sum16` adds
up the 16-bit words.
-/

namespace PackedFields

variable {bytes new : List (BitVec 8)} {start start' n n' i : Nat}

def leValue : List (BitVec 8) → Nat
  | [] => 0
  | b :: bytes => b.toNat + 256 * leValue bytes

/-- The lowest `n` bytes of a number. -/
def leBytes : Nat → Nat → List (BitVec 8)
  | 0, _ => []
  | n + 1, v => BitVec.ofNat 8 v :: leBytes n (v / 256)

def field (bytes : List (BitVec 8)) (start n : Nat) : List (BitVec 8) := (bytes.drop start).take n

def setField (bytes : List (BitVec 8)) (start : Nat) (new : List (BitVec 8)) : List (BitVec 8) :=
  bytes.take start ++ (new ++ bytes.drop (start + new.length))

def sum16 : List (BitVec 8) → BitVec 16
  | b0 :: b1 :: bytes => (b1 ++ b0) + sum16 bytes
  | _ => 0

@[simp] theorem length_leBytes (n v : Nat) : (leBytes n v).length = n := by
  induction n generalizing v with
  | zero => rfl
  | succ n ih => rw [leBytes, List.length_cons, ih]

theorem leValue_leBytes (n v : Nat) : leValue (leBytes n v) = v % 256 ^ n := by
  induction n generalizing v with
  | zero => rw [Nat.pow_zero, Nat.mod_one]; rfl
  | succ n ih =>
    have hpow : 256 ^ (n + 1) = 256 * 256 ^ n := Nat.pow_succ'
    rw [leBytes, leValue, ih, BitVec.toNat_ofNat, hpow, Nat.mod_mul]

theorem leValue_lt (bytes : List (BitVec 8)) : leValue bytes < 256 ^ bytes.length := by
  induction bytes with
  | nil => exact Nat.one_pos
  | cons b bytes ih =>
    have hlt := b.isLt
    have hpow : 256 ^ (bytes.length + 1) = 256 * 256 ^ bytes.length := Nat.pow_succ'
    rw [leValue, List.length_cons, hpow]
    omega

theorem leBytes_leValue (bytes : List (BitVec 8)) : leBytes bytes.length (leValue bytes) = bytes := by
  induction bytes with
  | nil => rfl
  | cons b bytes ih =>
    have hlt := b.isLt
    have hbyte : BitVec.ofNat 8 (b.toNat + 256 * leValue bytes) = b := by
      apply BitVec.eq_of_toNat_eq
      rw [BitVec.toNat_ofNat]
      omega
    have hrest : (b.toNat + 256 * leValue bytes) / 256 = leValue bytes := by omega
    rw [List.length_cons, leValue, leBytes, hbyte, hrest, ih]

theorem leBytes_inj {n v v' : Nat} (hv : v < 256 ^ n) (hv' : v' < 256 ^ n) : leBytes n v = leBytes n v' ↔ v = v' := by
  refine ⟨fun h => ?_, congrArg _⟩
  rw [← Nat.mod_eq_of_lt hv, ← Nat.mod_eq_of_lt hv', ← leValue_leBytes, ← leValue_leBytes, h]

theorem field_append_left (hn : bytes.length = n) (rest : List (BitVec 8)) : field (bytes ++ rest) 0 n = bytes := by
  rw [field, List.drop_zero, List.take_left' hn]

/-- A field behind some bytes is one of what is behind them. -/
theorem field_append_right (hstart : bytes.length = start) (rest : List (BitVec 8)) :
    field (bytes ++ rest) (start + i) n = field rest i n := by
  rw [field, ← List.drop_drop, List.drop_left' hstart, field]

theorem length_field (h : start + n ≤ bytes.length) : (field bytes start n).length = n := by
  rw [field, List.length_take, List.length_drop]
  omega

/-- A field and what is behind it. -/
theorem field_append_drop (bytes : List (BitVec 8)) (start n : Nat) :
    field bytes start n ++ bytes.drop (start + n) = bytes.drop start := by
  rw [field, ← List.drop_drop, List.take_append_drop]

/-- A field between others is exchanged. -/
theorem setField_middle (before : List (BitVec 8)) {old : List (BitVec 8)} (h : old.length = new.length)
    (rest : List (BitVec 8)) :
    setField (before ++ (old ++ rest)) before.length new = before ++ (new ++ rest) := by
  rw [setField, List.take_left, ← h, ← List.length_append, ← List.append_assoc before old rest, List.drop_left]

/-- A field at the start is exchanged. -/
theorem setField_append_left (h : bytes.length = new.length) (rest : List (BitVec 8)) :
    setField (bytes ++ rest) 0 new = new ++ rest := by
  rw [setField, List.take_zero, List.nil_append, Nat.zero_add, List.drop_left' h]

theorem length_setField (h : start + new.length ≤ bytes.length) : (setField bytes start new).length = bytes.length := by
  simp only [setField, List.length_append, List.length_take, List.length_drop]
  omega

theorem getElem?_field : (field bytes start n)[i]? = if i < n then bytes[start + i]? else none := by
  rw [field, List.getElem?_take, List.getElem?_drop]

theorem getElem?_setField (h : start + new.length ≤ bytes.length) :
    (setField bytes start new)[i]? = if start ≤ i ∧ i < start + new.length then new[i - start]? else bytes[i]? := by
  have htake : (bytes.take start).length = start := by
    rw [List.length_take]
    omega
  rw [setField]
  rcases Nat.lt_or_ge i start with hbefore | hle
  · rw [List.getElem?_append_left (by omega), List.getElem?_take_of_lt hbefore, if_neg (by omega)]
  · rw [List.getElem?_append_right (by omega), htake]
    rcases Nat.lt_or_ge i (start + new.length) with hin | hbehind
    · rw [List.getElem?_append_left (by omega), if_pos ⟨hle, hin⟩]
    · rw [List.getElem?_append_right (by omega), List.getElem?_drop, if_neg (by omega)]
      congr 1
      omega

theorem field_setField (h : start + new.length ≤ bytes.length) : field (setField bytes start new) start new.length = new := by
  apply List.ext_getElem?
  intro i
  rw [getElem?_field, getElem?_setField h, Nat.add_sub_cancel_left]
  rcases Nat.lt_or_ge i new.length with hin | hout
  · rw [if_pos hin, if_pos (by omega)]
  · rw [if_neg (by omega), List.getElem?_eq_none hout]

theorem field_setField_of_apart (h : start + new.length ≤ bytes.length)
    (hapart : start' + n ≤ start ∨ start + new.length ≤ start') :
    field (setField bytes start new) start' n = field bytes start' n := by
  apply List.ext_getElem?
  intro i
  rw [getElem?_field, getElem?_field]
  split_ifs with hi
  · rw [getElem?_setField h, if_neg (by omega)]
  · rfl

theorem sum16_append {bytes' : List (BitVec 8)} (h : 2 ∣ bytes.length) :
    sum16 (bytes ++ bytes') = sum16 bytes + sum16 bytes' := by
  induction bytes using sum16.induct with
  | case1 b0 b1 bytes ih =>
    rw [List.length_cons, List.length_cons] at h
    rw [List.cons_append, List.cons_append, sum16, ih (by omega), sum16, BitVec.add_assoc]
  | case2 bytes hshort =>
    match bytes with
    | [] => exact (BitVec.zero_add (sum16 bytes')).symm
    | [_] => simp at h
    | b0 :: b1 :: bytes => exact absurd rfl (hshort b0 b1 bytes)

/-- A word set to zero is added on its own. -/
theorem sum16_setField (hstart : 2 ∣ start) (hlen : start + 2 ≤ bytes.length) (hnew : new.length = 2) :
    sum16 (setField bytes start new) = sum16 (setField bytes start (leBytes 2 0)) + sum16 new := by
  have htake : 2 ∣ (bytes.take start).length := by
    rw [List.length_take, Nat.min_eq_left (by omega)]
    exact hstart
  have hzero : sum16 (leBytes 2 0) = 0 := rfl
  rw [setField, setField, sum16_append htake, sum16_append htake, sum16_append (hnew ▸ Nat.dvd_refl 2),
    sum16_append (length_leBytes 2 0 ▸ Nat.dvd_refl 2), hzero, hnew, length_leBytes]
  ac_rfl

theorem sum16_leBytes (v : BitVec 16) : sum16 (leBytes 2 v.toNat) = v := by
  have hlt := v.isLt
  have hsum : sum16 (leBytes 2 v.toNat) = BitVec.ofNat 8 (v.toNat / 256) ++ BitVec.ofNat 8 v.toNat := BitVec.add_zero _
  apply BitVec.eq_of_toNat_eq
  rw [hsum, BitVec.toNat_append, BitVec.toNat_ofNat, BitVec.toNat_ofNat, ← Nat.shiftLeft_add_eq_or_of_lt (by omega),
    Nat.shiftLeft_eq]
  omega

end PackedFields
