import AndromedaBoot.Lib.ByteMemory

/-!
# Patching words in place

A scan goes over the words of a memory and writes where it finds a match. It writes into the memory it is
still reading, so that a later match could see what an earlier one wrote. `Rule` is a rule for which that
does not happen; its scan equals the patch whose writes are all computed from the memory before it
(`Rule.run_eq_simultaneous`). The words after a scan are given by `Rule.read32_run_of_hit` and
`Rule.read32_run_of_not_hit`, from which follow when a second scan does nothing and when two scans commute.
-/

namespace InPlace

/-- The address of the `k`-th word from `base` on. -/
def cursor (base : BitVec 64) (k : Nat) : BitVec 64 := base + BitVec.ofNat 64 (4 * k)

@[simp] theorem cursor_zero (base : BitVec 64) : cursor base 0 = base := by simp [cursor]

theorem cursor_add (base : BitVec 64) (k d : Nat) : cursor (cursor base k) d = cursor base (k + d) := by
  rw [cursor, cursor, cursor, BitVec.add_assoc, ← BitVec.ofNat_add, Nat.mul_add]

/-- Write what a match asks for. -/
def patch (m : ByteMemory) : Option (BitVec 64 × BitVec 32) → ByteMemory
  | none => m
  | some (a, w) => m.write32 a w

/-- What a match at a cursor writes, and where. A write is on the grid of the cursors, no later cursor
sees it, and two cursors of one memory agree on what they write to one address. -/
structure Rule where
  hit : ByteMemory → BitVec 64 → Option (BitVec 64 × BitVec 32)
  grid : ∀ {m c a w}, hit m c = some (a, w) → (a - c).toNat % 4 = 0
  unseen : ∀ {m m' c a w d}, hit m c = some (a, w) → 0 < d → d ≤ 2 ^ 30 →
    hit (m'.write32 a w) (cursor c d) = hit m' (cursor c d)
  agree : ∀ {m c a w w' d}, hit m c = some (a, w) → d ≤ 2 ^ 30 → hit m (cursor c d) = some (a, w') → w = w'

namespace Rule

variable (r q : Rule) {m : ByteMemory} {base a : BitVec 64} {w : BitVec 32} {k l n : Nat}

/-- The scan of `n` words. -/
def run (base : BitVec 64) (n : Nat) (m : ByteMemory) : ByteMemory :=
  (List.range n).foldl (fun m k => patch m (r.hit m (cursor base k))) m

/-- The byte the matches of `m` put at an address. -/
def patchedByte (base : BitVec 64) (m : ByteMemory) (x : BitVec 64) (k : Nat) : Option (BitVec 8) :=
  (r.hit m (cursor base k)).bind fun (a, w) =>
    if (x - a).toNat < 4 then some (w.extractLsb' (8 * (x - a).toNat) 8) else none

/-- The patch of `n` words with all matches taken in `m` itself. -/
def simultaneous (base : BitVec 64) (n : Nat) (m : ByteMemory) : ByteMemory := fun x =>
  ((List.range n).findSome? (r.patchedByte base m x)).getD (m x)

theorem run_succ (base : BitVec 64) (n : Nat) (m : ByteMemory) :
    r.run base (n + 1) m = patch (r.run base n m) (r.hit (r.run base n m) (cursor base n)) := by
  simp [run, List.range_succ]

/-- Cursors that are still to come match as they did before the scan. -/
theorem hit_run (hk : k ≤ l) (hl : l ≤ 2 ^ 30) :
    r.hit (r.run base k m) (cursor base l) = r.hit m (cursor base l) := by
  induction k with
  | zero => rfl
  | succ k ih =>
    rw [run_succ, ← ih (by omega)]
    cases hhit : r.hit (r.run base k m) (cursor base k) with
    | none => rfl
    | some aw =>
      have hl' : cursor (cursor base k) (l - k) = cursor base l := by rw [cursor_add]; congr 1; omega
      rw [patch, ← hl', r.unseen hhit (by omega) (by omega)]

theorem run_succ_eq (base : BitVec 64) (m : ByteMemory) (hn : n ≤ 2 ^ 30) :
    r.run base (n + 1) m = patch (r.run base n m) (r.hit m (cursor base n)) := by
  rw [run_succ, hit_run r le_rfl hn]

theorem hit_grid (h : r.hit m (cursor base k) = some (a, w)) : (a - base).toNat % 4 = 0 := by
  have hgrid := r.grid h
  simp only [cursor] at hgrid
  bv_omega

/-- The word at a hit is the one the match writes. -/
theorem read32_run_of_hit (hn : n ≤ 2 ^ 30) (hk : k < n) (h : r.hit m (cursor base k) = some (a, w)) :
    (r.run base n m).read32 a = w := by
  induction n with
  | zero => omega
  | succ n ih =>
    rw [run_succ_eq r base m (by omega)]
    have hlast : cursor (cursor base k) (n - k) = cursor base n := by rw [cursor_add]; congr 1; omega
    cases hhit : r.hit m (cursor base n) with
    | none =>
      have hkn : k ≠ n := by
        rintro rfl
        simp [h] at hhit
      exact ih (by omega) (by omega)
    | some aw =>
      obtain ⟨a', w'⟩ := aw
      have hgrid := r.hit_grid h
      have hgrid' := r.hit_grid hhit
      rw [patch, ByteMemory.read32_write32_grid w' (by bv_omega)]
      split_ifs with ha
      · subst ha
        exact (r.agree h (by omega) (hlast ▸ hhit)).symm
      · have hkn : k ≠ n := by
          rintro rfl
          rw [h, Option.some.injEq, Prod.mk.injEq] at hhit
          exact ha hhit.1
        exact ih (by omega) (by omega)

/-- A word that no match writes stays. -/
theorem read32_run_of_not_hit (hn : n ≤ 2 ^ 30) (ha : (a - base).toNat % 4 = 0)
    (h : ∀ k < n, ∀ w, r.hit m (cursor base k) ≠ some (a, w)) : (r.run base n m).read32 a = m.read32 a := by
  induction n with
  | zero => rfl
  | succ n ih =>
    rw [run_succ_eq r base m (by omega), ← ih (by omega) fun k hk => h k (by omega)]
    cases hhit : r.hit m (cursor base n) with
    | none => rfl
    | some aw =>
      obtain ⟨a', w'⟩ := aw
      have hgrid := r.hit_grid hhit
      rw [patch, ByteMemory.read32_write32_grid w' (by bv_omega), if_neg]
      rintro rfl
      exact h n (by omega) w' hhit

/-- A word after the scan: one that a match wrote, or the one before. -/
theorem read32_run_cases (m : ByteMemory) (hn : n ≤ 2 ^ 30) (ha : (a - base).toNat % 4 = 0) :
    (∃ k < n, r.hit m (cursor base k) = some (a, (r.run base n m).read32 a)) ∨
      (∀ k < n, ∀ w, r.hit m (cursor base k) ≠ some (a, w)) ∧ (r.run base n m).read32 a = m.read32 a := by
  by_cases h : ∃ k < n, ∃ w, r.hit m (cursor base k) = some (a, w)
  · obtain ⟨k, hk, w, hhit⟩ := h
    exact .inl ⟨k, hk, by rw [read32_run_of_hit r hn hk hhit, hhit]⟩
  · push Not at h
    exact .inr ⟨h, r.read32_run_of_not_hit hn ha h⟩

/-! ## The scan as one patch -/

theorem patchedByte_eq_some {x : BitVec 64} {b : BitVec 8} : r.patchedByte base m x k = some b ↔
    ∃ a w, r.hit m (cursor base k) = some (a, w) ∧ (x - a).toNat < 4 ∧ b = w.extractLsb' (8 * (x - a).toNat) 8 := by
  unfold patchedByte
  cases r.hit m (cursor base k) with
  | none => simp
  | some aw =>
    obtain ⟨a, w⟩ := aw
    simp only [Option.bind_some, Option.ite_none_right_eq_some, Option.some.injEq, Prod.mk.injEq]
    constructor
    · rintro ⟨hlt, rfl⟩
      exact ⟨a, w, ⟨rfl, rfl⟩, hlt, rfl⟩
    · rintro ⟨a, w, ⟨rfl, rfl⟩, hlt, rfl⟩
      exact ⟨hlt, rfl⟩

theorem run_eq_simultaneous (hn : n ≤ 2 ^ 30) : r.run base n m = r.simultaneous base n m := by
  funext x
  unfold simultaneous
  cases hfind : (List.range n).findSome? (r.patchedByte base m x) with
  | some b =>
    obtain ⟨k, hk, hb⟩ := List.exists_of_findSome?_eq_some hfind
    obtain ⟨a, w, hhit, hlt, rfl⟩ := (r.patchedByte_eq_some).1 hb
    have hx : a + BitVec.ofNat 64 (x - a).toNat = x := by bv_omega
    rw [Option.getD_some, ← r.read32_run_of_hit hn (List.mem_range.1 hk) hhit, ByteMemory.read32_byte _ _ hlt, hx]
  | none =>
    obtain ⟨a, i, hi, ha, rfl⟩ := ByteMemory.exists_word base x
    -- a match on the word of `x` would have covered `x`
    have hnot : ∀ k < n, ∀ w, r.hit m (cursor base k) ≠ some (a, w) := by
      intro k hk w hhit
      have hnone := List.findSome?_eq_none_iff.1 hfind k (List.mem_range.2 hk)
      rw [Option.eq_none_iff_forall_ne_some] at hnone
      exact hnone _ ((r.patchedByte_eq_some).2 ⟨a, w, hhit, by bv_omega, rfl⟩)
    rw [Option.getD_none, ← ByteMemory.read32_byte (r.run base n m) a hi, r.read32_run_of_not_hit hn ha hnot,
      ByteMemory.read32_byte m a hi]

/-! ## Two scans -/

/-- A second scan does nothing if what it writes stands there already. -/
theorem run_run (hn : n ≤ 2 ^ 30)
    (h : ∀ k < n, ∀ a w, r.hit (r.run base n m) (cursor base k) = some (a, w) → (r.run base n m).read32 a = w) :
    r.run base n (r.run base n m) = r.run base n m := by
  refine ByteMemory.ext_words base ?_
  intro a ha
  rcases r.read32_run_cases (r.run base n m) hn ha with ⟨k, hk, hhit⟩ | ⟨-, heq⟩
  · exact (h k hk a _ hhit).symm
  · exact heq

/-- Two scans commute if the first leaves the matches of the second as they are, and the second takes
from the matches of the first those it overwrites. -/
theorem run_comm (hn : n ≤ 2 ^ 30)
    (hq : ∀ k < n, q.hit (r.run base n m) (cursor base k) = q.hit m (cursor base k))
    (hr : ∀ k < n, ∀ a w, r.hit (q.run base n m) (cursor base k) = some (a, w) ↔
      r.hit m (cursor base k) = some (a, w) ∧ ∀ l < n, ∀ w', q.hit m (cursor base l) ≠ some (a, w')) :
    q.run base n (r.run base n m) = r.run base n (q.run base n m) := by
  refine ByteMemory.ext_words base ?_
  intro a ha
  rcases q.read32_run_cases m hn ha with ⟨l, hl, hhit⟩ | ⟨hnot, heq⟩
  · have hright := r.read32_run_of_not_hit (m := q.run base n m) hn ha ?_
    · rw [hright]
      exact q.read32_run_of_hit hn hl ((hq l hl).trans hhit)
    · intro k hk w h
      exact ((hr k hk a w).1 h).2 l hl _ hhit
  · have hleft := q.read32_run_of_not_hit (m := r.run base n m) hn ha fun k hk w h => hnot k hk w ((hq k hk).symm.trans h)
    rw [hleft]
    rcases r.read32_run_cases m hn ha with ⟨k, hk, hhit⟩ | ⟨hnot', heq'⟩
    · exact (r.read32_run_of_hit hn hk ((hr k hk a _).2 ⟨hhit, hnot⟩)).symm
    · rw [heq', ← heq]
      exact (r.read32_run_of_not_hit hn ha fun k hk w h => hnot' k hk w ((hr k hk a w).1 h).1).symm

end Rule

end InPlace
