import Mathlib.Tactic.Common
import Mathlib.Tactic.IntervalCases

/-!
# Memories of bytes

A memory gives each 64-bit address a byte; words are little-endian and may stand at any address, also
across the end of the address space. Two words whose addresses differ by a multiple of 4 are the same word
or have no byte in common, so a memory is known by the words at such addresses (`ext_words`).
-/

/-- A memory of bytes. -/
abbrev ByteMemory := BitVec 64 → BitVec 8

namespace ByteMemory

variable {m m' : ByteMemory} {a b : BitVec 64}

def read16 (m : ByteMemory) (a : BitVec 64) : BitVec 16 := m (a + 1) ++ m a

def read32 (m : ByteMemory) (a : BitVec 64) : BitVec 32 := m (a + 3) ++ m (a + 2) ++ m (a + 1) ++ m a

def read64 (m : ByteMemory) (a : BitVec 64) : BitVec 64 := m.read32 (a + 4) ++ m.read32 a

def write32 (m : ByteMemory) (a : BitVec 64) (v : BitVec 32) : ByteMemory := fun x =>
  if (x - a).toNat < 4 then v.extractLsb' (8 * (x - a).toNat) 8 else m x

def write64 (m : ByteMemory) (a : BitVec 64) (v : BitVec 64) : ByteMemory := fun x =>
  if (x - a).toNat < 8 then v.extractLsb' (8 * (x - a).toNat) 8 else m x

/-- The bytes of a list written from `a` on. -/
def writeBytes (m : ByteMemory) (a : BitVec 64) (bytes : List (BitVec 8)) : ByteMemory := fun x =>
  bytes.getD (x - a).toNat (m x)

/-- The words of a list written one after the other from `a` on. -/
def writeWords (m : ByteMemory) (a : BitVec 64) : List (BitVec 32) → ByteMemory
  | [] => m
  | w :: words => writeWords (m.write32 a w) (a + 4) words

def writeDwords (m : ByteMemory) (a : BitVec 64) : List (BitVec 64) → ByteMemory
  | [] => m
  | d :: dwords => writeDwords (m.write64 a d) (a + 8) dwords

/-- The bytes of a list stand in memory from `a` on. -/
def Holds (m : ByteMemory) (a : BitVec 64) (bytes : List (BitVec 8)) : Prop :=
  ∀ (i : Nat) (h : i < bytes.length), m (a + BitVec.ofNat 64 i) = bytes[i]

/-- The words of a list stand in memory from `a` on. -/
def HoldsWords (m : ByteMemory) (a : BitVec 64) (words : List (BitVec 32)) : Prop :=
  ∀ (i : Nat) (h : i < words.length), m.read32 (a + BitVec.ofNat 64 (4 * i)) = words[i]

/-- The `n` bytes from `a` on and the `k` bytes from `b` on have no address in common. -/
def Apart (a : BitVec 64) (n : Nat) (b : BitVec 64) (k : Nat) : Prop :=
  ∀ i < n, ∀ j < k, a + BitVec.ofNat 64 i ≠ b + BitVec.ofNat 64 j

theorem Holds.tail {b : BitVec 8} {bytes : List (BitVec 8)} (h : Holds m a (b :: bytes)) : Holds m (a + 1) bytes := by
  intro i hi
  rw [show a + 1 + BitVec.ofNat 64 i = a + BitVec.ofNat 64 (i + 1) by bv_omega]
  exact h (i + 1) (by simpa using hi)

theorem Holds.append {bytes bytes' : List (BitVec 8)} (h : Holds m a (bytes ++ bytes')) :
    Holds m a bytes ∧ Holds m (a + BitVec.ofNat 64 bytes.length) bytes' := by
  constructor
  · intro i hi
    rw [h i (by rw [List.length_append]; omega), List.getElem_append_left hi]
  · intro i hi
    rw [BitVec.add_assoc, ← BitVec.ofNat_add, h (bytes.length + i) (by rw [List.length_append]; omega),
      List.getElem_append_right (by omega)]
    congr 1
    omega

theorem Holds.congr {bytes : List (BitVec 8)} (h : Holds m a bytes)
    (hm : ∀ i < bytes.length, m' (a + BitVec.ofNat 64 i) = m (a + BitVec.ofNat 64 i)) : Holds m' a bytes := by
  intro i hi
  rw [hm i hi, h i hi]

theorem HoldsWords.tail {w : BitVec 32} {words : List (BitVec 32)} (h : HoldsWords m a (w :: words)) :
    HoldsWords m (a + 4) words := by
  intro i hi
  rw [show a + 4 + BitVec.ofNat 64 (4 * i) = a + BitVec.ofNat 64 (4 * (i + 1)) by bv_omega]
  exact h (i + 1) (by simpa using hi)

/-- A part of the words. -/
theorem HoldsWords.part {words part : List (BitVec 32)} (h : HoldsWords m a words) (k : Nat)
    (hpart : (words.drop k).take part.length = part) : HoldsWords m (a + BitVec.ofNat 64 (4 * k)) part := by
  intro i hi
  have hlen := congrArg List.length hpart
  rw [List.length_take, List.length_drop] at hlen
  have hget : words[k + i] = part[i] := by
    rw [← List.getElem_of_eq hpart (by rw [hpart]; exact hi), List.getElem_take, List.getElem_drop]
  rw [BitVec.add_assoc, ← BitVec.ofNat_add, ← Nat.mul_add, h (k + i) (by omega), hget]

theorem holds_writeBytes (m : ByteMemory) (a : BitVec 64) {bytes : List (BitVec 8)} (h : bytes.length ≤ 2 ^ 64) :
    Holds (m.writeBytes a bytes) a bytes := by
  intro i hi
  have hoff : (a + BitVec.ofNat 64 i - a).toNat = i := by
    rw [BitVec.add_comm, BitVec.add_sub_cancel, BitVec.toNat_ofNat, Nat.mod_eq_of_lt (by omega)]
  rw [writeBytes, hoff, List.getD_eq_getElem?_getD, List.getElem?_eq_getElem hi, Option.getD_some]

theorem writeBytes_of_le {x : BitVec 64} {bytes : List (BitVec 8)} (h : bytes.length ≤ (x - a).toNat) :
    m.writeBytes a bytes x = m x := by
  rw [writeBytes, List.getD_eq_getElem?_getD, List.getElem?_eq_none h, Option.getD_none]

theorem writeBytes_singleton (c : BitVec 8) : m.writeBytes a [c] a = c := by
  rw [writeBytes, BitVec.sub_self]
  rfl

theorem apart_of_le {a b : BitVec 64} {n k : Nat} (h : b.toNat + k ≤ a.toNat) (hn : a.toNat + n ≤ 2 ^ 64) :
    Apart a n b k := by
  intro i hi j hj heq
  have := congrArg BitVec.toNat heq
  rw [BitVec.toNat_add, BitVec.toNat_add, BitVec.toNat_ofNat, BitVec.toNat_ofNat] at this
  omega

/-- An address of one of two ranges that are apart is beyond the other, counted from where that begins. -/
theorem Apart.le_sub {n k i : Nat} (h : Apart a n b k) (hi : i < n) : k ≤ (a + BitVec.ofNat 64 i - b).toNat := by
  by_contra hlt
  exact h i hi (a + BitVec.ofNat 64 i - b).toNat (by omega) (by bv_omega)

theorem Apart.symm {n k : Nat} (h : Apart a n b k) : Apart b k a n :=
  fun i hi j hj heq => h j hj i hi heq.symm

theorem not_apart_of_common {n k x : Nat} (ha : a.toNat ≤ x ∧ x < a.toNat + n) (hb : b.toNat ≤ x ∧ x < b.toNat + k) :
    ¬ Apart a n b k := by
  intro h
  refine h (x - a.toNat) (by omega) (x - b.toNat) (by omega) ?_
  apply BitVec.eq_of_toNat_eq
  rw [BitVec.toNat_add, BitVec.toNat_add, BitVec.toNat_ofNat, BitVec.toNat_ofNat, Nat.add_mod_mod, Nat.add_mod_mod]
  congr 1
  omega

/-! ## Single words -/

theorem read32_congr (h : ∀ i < 4, m (a + BitVec.ofNat 64 i) = m' (a + BitVec.ofNat 64 i)) :
    m.read32 a = m'.read32 a := by
  have h0 : m a = m' a := by simpa using h 0 (by decide)
  have h1 : m (a + 1) = m' (a + 1) := h 1 (by decide)
  have h2 : m (a + 2) = m' (a + 2) := h 2 (by decide)
  have h3 : m (a + 3) = m' (a + 3) := h 3 (by decide)
  rw [read32, read32, h0, h1, h2, h3]

theorem read64_congr (h : ∀ i < 8, m (a + BitVec.ofNat 64 i) = m' (a + BitVec.ofNat 64 i)) :
    m.read64 a = m'.read64 a := by
  have hlow : m.read32 a = m'.read32 a := read32_congr fun i hi => h i (by omega)
  have hhigh : m.read32 (a + 4) = m'.read32 (a + 4) := by
    refine read32_congr ?_
    intro i hi
    rw [show a + 4 + BitVec.ofNat 64 i = a + BitVec.ofNat 64 (4 + i) by bv_omega]
    exact h (4 + i) (by omega)
  rw [read64, read64, hlow, hhigh]

theorem write32_of_le {x : BitVec 64} (v : BitVec 32) (h : 4 ≤ (x - a).toNat) : m.write32 a v x = m x :=
  if_neg (by omega)

theorem write64_of_le {x : BitVec 64} (v : BitVec 64) (h : 8 ≤ (x - a).toNat) : m.write64 a v x = m x :=
  if_neg (by omega)

/-- A part of the bytes is apart, too. -/
theorem Apart.sub {n k n' : Nat} (h : Apart a n b k) (o : Nat) (ho : o + n' ≤ n) : Apart (a + BitVec.ofNat 64 o) n' b k := by
  intro i hi j hj
  rw [BitVec.add_assoc, ← BitVec.ofNat_add]
  exact h (o + i) (by omega) j hj

theorem write32_of_apart (v : BitVec 32) {n i : Nat} (h : Apart a 4 b n) (hi : i < n) :
    m.write32 a v (b + BitVec.ofNat 64 i) = m (b + BitVec.ofNat 64 i) := by
  refine write32_of_le v ?_
  by_contra hin
  exact h (b + BitVec.ofNat 64 i - a).toNat (by omega) i hi (by bv_omega)

theorem write64_of_apart (v : BitVec 64) {n i : Nat} (h : Apart a 8 b n) (hi : i < n) :
    m.write64 a v (b + BitVec.ofNat 64 i) = m (b + BitVec.ofNat 64 i) := by
  refine write64_of_le v ?_
  by_contra hin
  exact h (b + BitVec.ofNat 64 i - a).toNat (by omega) i hi (by bv_omega)

theorem writeWords_of_le {x : BitVec 64} (words : List (BitVec 32)) (h : 4 * words.length ≤ (x - a).toNat) :
    m.writeWords a words x = m x := by
  induction words generalizing m a with
  | nil => rfl
  | cons w words ih =>
    rw [List.length_cons] at h
    rw [writeWords, ih (by bv_omega), write32_of_le w (by omega)]

theorem writeWords_of_apart {n i : Nat} (words : List (BitVec 32)) (h : Apart a (4 * words.length) b n) (hi : i < n) :
    m.writeWords a words (b + BitVec.ofNat 64 i) = m (b + BitVec.ofNat 64 i) := by
  refine writeWords_of_le words ?_
  by_contra hin
  exact h (b + BitVec.ofNat 64 i - a).toNat (by omega) i hi (by bv_omega)

theorem write32_add (v : BitVec 32) {i : Nat} (h : i < 4) :
    m.write32 a v (a + BitVec.ofNat 64 i) = v.extractLsb' (8 * i) 8 := by
  have hi : (a + BitVec.ofNat 64 i - a).toNat = i := by
    rw [BitVec.add_comm, BitVec.add_sub_cancel, BitVec.toNat_ofNat, Nat.mod_eq_of_lt (by omega)]
  rw [write32, hi, if_pos h]

theorem append_byte (b0 b1 b2 b3 : BitVec 8) {i : Nat} (h : i < 4) :
    (b3 ++ b2 ++ b1 ++ b0 : BitVec 32).extractLsb' (8 * i) 8 = [b0, b1, b2, b3][i] := by
  have hbit (k : Nat) : (b3 ++ b2 ++ b1 ++ b0 : BitVec 32).getLsbD k = _ := BitVec.getLsbD_append
  ext k hk
  rw [BitVec.getElem_extractLsb', hbit, BitVec.getLsbD_append, BitVec.getLsbD_append]
  interval_cases i <;> interval_cases k <;> simp

/-- A byte of a word. -/
theorem read32_byte (m : ByteMemory) (a : BitVec 64) {i : Nat} (h : i < 4) :
    (m.read32 a).extractLsb' (8 * i) 8 = m (a + BitVec.ofNat 64 i) := by
  rw [read32, append_byte _ _ _ _ h]
  interval_cases i <;> simp

theorem read64_byte (m : ByteMemory) (a : BitVec 64) {i : Nat} (h : i < 8) :
    (m.read64 a).extractLsb' (8 * i) 8 = m (a + BitVec.ofNat 64 i) := by
  by_cases hlow : i < 4
  · rw [← read32_byte m a hlow, read64]
    ext k hk
    rw [BitVec.getElem_extractLsb', BitVec.getElem_extractLsb', BitVec.getLsbD_append, if_pos (by omega)]
  · rw [show a + BitVec.ofNat 64 i = a + 4 + BitVec.ofNat 64 (i - 4) by bv_omega, ← read32_byte m _ (by omega), read64]
    ext k hk
    rw [BitVec.getElem_extractLsb', BitVec.getElem_extractLsb', BitVec.getLsbD_append, if_neg (by omega)]
    congr 1
    omega

theorem read64_eq_read64_iff :
    m.read64 a = m'.read64 a ↔ ∀ i < 8, m (a + BitVec.ofNat 64 i) = m' (a + BitVec.ofNat 64 i) := by
  refine ⟨?_, read64_congr⟩
  intro h i hi
  rw [← read64_byte m a hi, h, read64_byte m' a hi]

theorem ext_bytes {v w : BitVec 32} (h : ∀ i < 4, v.extractLsb' (8 * i) 8 = w.extractLsb' (8 * i) 8) : v = w := by
  apply BitVec.eq_of_getLsbD_eq
  intro k hk
  have hbyte := congrArg (BitVec.getLsbD · (k % 8)) (h (k / 8) (by omega))
  simpa [BitVec.getLsbD_extractLsb', Nat.mod_lt k (by decide : 0 < 8), Nat.div_add_mod k 8] using hbyte

@[simp] theorem read32_write32 (m : ByteMemory) (a : BitVec 64) (v : BitVec 32) : (m.write32 a v).read32 a = v :=
  ext_bytes fun i hi => by rw [read32_byte _ _ hi, write32_add v hi]

theorem read32_write32_of_le (v : BitVec 32) (h : 4 ≤ (b - a).toNat) (h' : 4 ≤ (a - b).toNat) :
    (m.write32 a v).read32 b = m.read32 b :=
  read32_congr fun i hi => write32_of_le v (by bv_omega)

theorem read64_eq_iff (m : ByteMemory) (a v : BitVec 64) :
    m.read64 a = v ↔ m.read32 a = v.extractLsb' 0 32 ∧ m.read32 (a + 4) = v.extractLsb' 32 32 := by
  rw [read64]
  constructor
  · rintro rfl
    exact ⟨(BitVec.extractLsb'_append_eq_right).symm, (BitVec.extractLsb'_append_eq_left).symm⟩
  · rintro ⟨hlow, hhigh⟩
    rw [hlow, hhigh]
    ext k hk
    simp only [BitVec.getElem_append, BitVec.getElem_extractLsb']
    split_ifs with h
    · simp [BitVec.getLsbD_eq_getElem hk]
    · rw [show 32 + (k - 32) = k by omega, BitVec.getLsbD_eq_getElem hk]

/-! ## Words a multiple of 4 apart -/

theorem read32_write32_grid (v : BitVec 32) (h : (b - a).toNat % 4 = 0) :
    (m.write32 a v).read32 b = if b = a then v else m.read32 b := by
  split_ifs with hab
  · rw [hab, read32_write32]
  · have hne : (b - a).toNat ≠ 0 := by bv_omega
    exact read32_write32_of_le v (by bv_omega) (by bv_omega)

/-- Every byte is in a word of the grid. -/
theorem exists_word (base x : BitVec 64) :
    ∃ a : BitVec 64, ∃ i < 4, (a - base).toNat % 4 = 0 ∧ x = a + BitVec.ofNat 64 i := by
  refine ⟨x - BitVec.ofNat 64 ((x - base).toNat % 4), (x - base).toNat % 4, Nat.mod_lt _ (by decide), ?_, ?_⟩
  · bv_omega
  · bv_omega

theorem ext_words (base : BitVec 64) (h : ∀ a, (a - base).toNat % 4 = 0 → m.read32 a = m'.read32 a) : m = m' := by
  funext x
  obtain ⟨a, i, hi, ha, rfl⟩ := exists_word base x
  rw [← read32_byte m a hi, h a ha, read32_byte m' a hi]

/-- A double word is two words. -/
theorem write64_eq (m : ByteMemory) (a v : BitVec 64) :
    m.write64 a v = (m.write32 a (v.extractLsb' 0 32)).write32 (a + 4) (v.extractLsb' 32 32) := by
  funext x
  unfold write64 write32
  split_ifs with h8 h4 h4' h4 h4'
  · have hoff : (x - a).toNat = (x - (a + 4)).toNat + 4 := by bv_omega
    ext k hk
    simp only [BitVec.getElem_extractLsb', BitVec.getLsbD_extractLsb', hoff]
    rw [decide_eq_true (by omega), Bool.true_and]
    congr 1
    omega
  · ext k hk
    simp only [BitVec.getElem_extractLsb', BitVec.getLsbD_extractLsb']
    rw [decide_eq_true (by omega), Bool.true_and, Nat.zero_add]
  · bv_omega
  · bv_omega
  · bv_omega
  · rfl

@[simp] theorem read64_write64 (m : ByteMemory) (a v : BitVec 64) : (m.write64 a v).read64 a = v := by
  rw [read64_eq_iff, write64_eq, read32_write32, read32_write32_of_le _ (by bv_omega) (by bv_omega), read32_write32]
  exact ⟨rfl, rfl⟩

theorem read64_write64_of_le (v : BitVec 64) (h : 8 ≤ (b - a).toNat) (h' : 8 ≤ (a - b).toNat) :
    (m.write64 a v).read64 b = m.read64 b := by
  have hlow : (m.write64 a v).read32 b = m.read32 b := read32_congr fun i hi => write64_of_le v (by bv_omega)
  have hhigh : (m.write64 a v).read32 (b + 4) = m.read32 (b + 4) := read32_congr fun i hi => write64_of_le v (by bv_omega)
  rw [read64, read64, hlow, hhigh]

/-! ## Lists of words -/

theorem writeDwords_eq (m : ByteMemory) (a : BitVec 64) (dwords : List (BitVec 64)) :
    m.writeDwords a dwords = m.writeWords a (dwords.flatMap fun d => [d.extractLsb' 0 32, d.extractLsb' 32 32]) := by
  induction dwords generalizing m a with
  | nil => rfl
  | cons d dwords ih =>
    rw [writeDwords, ih, write64_eq, show a + 8 = a + 4 + 4 by bv_omega]
    rfl

theorem writeDwords_concat (m : ByteMemory) (a : BitVec 64) (dwords : List (BitVec 64)) (d : BitVec 64) :
    m.writeDwords a (dwords ++ [d]) = (m.writeDwords a dwords).write64 (a + BitVec.ofNat 64 (8 * dwords.length)) d := by
  induction dwords generalizing m a with
  | nil => simp [writeDwords]
  | cons d' dwords ih =>
    rw [List.cons_append, writeDwords, ih, writeDwords, List.length_cons,
      show a + 8 + BitVec.ofNat 64 (8 * dwords.length) = a + BitVec.ofNat 64 (8 * (dwords.length + 1)) by bv_omega]

theorem writeWords_concat (m : ByteMemory) (a : BitVec 64) (words : List (BitVec 32)) (w : BitVec 32) :
    m.writeWords a (words ++ [w]) = (m.writeWords a words).write32 (a + BitVec.ofNat 64 (4 * words.length)) w := by
  induction words generalizing m a with
  | nil => simp [writeWords]
  | cons w' words ih =>
    rw [List.cons_append, writeWords, ih, writeWords, List.length_cons,
      show a + 4 + BitVec.ofNat 64 (4 * words.length) = a + BitVec.ofNat 64 (4 * (words.length + 1)) by bv_omega]

/-- A word of the grid is the one that is written there, if there is one. -/
theorem read32_writeWords (words : List (BitVec 32)) (hlen : 4 * words.length < 2 ^ 64)
    (h : (b - a).toNat % 4 = 0) :
    (m.writeWords a words).read32 b = words[(b - a).toNat / 4]?.getD (m.read32 b) := by
  induction words generalizing m a with
  | nil => rfl
  | cons w words ih =>
    rw [List.length_cons] at hlen
    rw [writeWords, ih (by omega) (by bv_omega), read32_write32_grid w h]
    by_cases hab : b = a
    · subst hab
      have hout : words[(b - (b + 4)).toNat / 4]? = none := List.getElem?_eq_none (by bv_omega)
      rw [hout, if_pos rfl, BitVec.sub_self]
      rfl
    · have hoff : (b - a).toNat / 4 = (b - (a + 4)).toNat / 4 + 1 := by
        have hne : (b - a).toNat ≠ 0 := by bv_omega
        bv_omega
      rw [if_neg hab, hoff, List.getElem?_cons_succ]

theorem holdsWords_writeWords (m : ByteMemory) (a : BitVec 64) {words : List (BitVec 32)} (hlen : 4 * words.length < 2 ^ 64) :
    HoldsWords (m.writeWords a words) a words := by
  intro i hi
  have hoff : (a + BitVec.ofNat 64 (4 * i) - a).toNat = 4 * i := by bv_omega
  rw [read32_writeWords _ hlen (by omega), hoff, Nat.mul_div_cancel_left i (by decide), List.getElem?_eq_getElem hi,
    Option.getD_some]

end ByteMemory
