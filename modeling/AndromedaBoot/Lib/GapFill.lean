import Mathlib.Data.List.Count
import Mathlib.Order.Lattice
import Mathlib.Order.Defs.LinearOrder
import Mathlib.Tactic.Common

/-!
# Filling the gaps between segments

A walk over a list of segments `[lo i, hi i)` with a cursor that remembers the highest end so far. In
front of a segment that starts behind the cursor the walk emits a gap, and at the end one up to `top`.
On a sorted list of disjoint segments the pieces tile the range (`countP_covers_pieces`). On other
lists a segment can reach back into a gap that was emitted before it; `gaps_clear_iff` says exactly
when none does.
-/

namespace GapFill

variable {ι α : Type*} [LinearOrder α] {lo hi : ι → α} {top : α}

/-- What the walk emits. -/
inductive Piece (ι α : Type*)
  | gap (a b : α)
  | seg (i : ι)
deriving DecidableEq

def Piece.isSeg : Piece ι α → Bool
  | .gap _ _ => false
  | .seg _ => true

/-- The piece contains the point. -/
def Piece.Covers (lo hi : ι → α) (x : α) : Piece ι α → Prop
  | .gap a b => a ≤ x ∧ x < b
  | .seg i => lo i ≤ x ∧ x < hi i

instance (x : α) : DecidablePred (Piece.Covers lo hi x) := fun p =>
  match p with
  | .gap a b => inferInstanceAs (Decidable (a ≤ x ∧ x < b))
  | .seg i => inferInstanceAs (Decidable (lo i ≤ x ∧ x < hi i))

@[simp] theorem Piece.covers_gap {x a b : α} :
    (Piece.gap (ι := ι) a b).Covers lo hi x ↔ a ≤ x ∧ x < b := Iff.rfl

@[simp] theorem Piece.covers_seg {x : α} {i : ι} : (Piece.seg i).Covers lo hi x ↔ lo i ≤ x ∧ x < hi i :=
  Iff.rfl

/-- The cursor behind the segments `is`. -/
def cursor (hi : ι → α) (c : α) (is : List ι) : α := is.foldl (fun c i => max c (hi i)) c

/-- The gap from `a` to `b`, if there is one. -/
def gapTo (a b : α) : List (Piece ι α) := if a < b then [.gap a b] else []

/-- The walk from cursor `c`. -/
def pieces (lo hi : ι → α) (top : α) : α → List ι → List (Piece ι α)
  | c, [] => gapTo c top
  | c, i :: is => gapTo c (lo i) ++ .seg i :: pieces lo hi top (max c (hi i)) is

/-! ## The cursor -/

theorem le_cursor (c : α) (is : List ι) : c ≤ cursor hi c is := by
  induction is generalizing c with
  | nil => exact le_refl c
  | cons i is ih => exact le_trans (le_max_left _ _) (ih (max c (hi i)))

theorem hi_le_cursor {c : α} {is : List ι} {i : ι} (h : i ∈ is) : hi i ≤ cursor hi c is := by
  induction is generalizing c with
  | nil => simp at h
  | cons j is ih =>
    rcases List.mem_cons.1 h with rfl | h
    · exact le_trans (le_max_right _ _) (le_cursor _ is)
    · exact ih h

/-! ## Segments and gaps of the walk -/

theorem mem_gapTo {p : Piece ι α} {a b : α} : p ∈ gapTo a b ↔ p = .gap a b ∧ a < b := by
  unfold gapTo
  split_ifs with h <;> simp [h]

theorem filter_isSeg_gapTo (a b : α) : (gapTo a b).filter (Piece.isSeg (ι := ι)) = [] := by
  unfold gapTo
  split_ifs <;> rfl

/-- The walk emits every segment once and in order. -/
theorem filter_isSeg_pieces (c : α) (is : List ι) :
    (pieces lo hi top c is).filter Piece.isSeg = is.map .seg := by
  induction is generalizing c with
  | nil => exact filter_isSeg_gapTo c top
  | cons i is ih =>
    rw [pieces, List.filter_append, filter_isSeg_gapTo, List.nil_append, List.filter_cons_of_pos rfl,
      ih, List.map_cons]

theorem seg_mem_pieces {c : α} {is : List ι} {i : ι} :
    Piece.seg i ∈ pieces lo hi top c is ↔ i ∈ is := by
  induction is generalizing c with
  | nil => simp [pieces, mem_gapTo]
  | cons j is ih => simp [pieces, mem_gapTo, ih]

/-- A gap lies in front of a segment that starts behind the cursor, or at the end. -/
theorem gap_mem_pieces {a b c : α} {is : List ι} :
    Piece.gap a b ∈ pieces lo hi top c is ↔
      (∃ pre i post, is = pre ++ i :: post ∧ a = cursor hi c pre ∧ b = lo i ∧ a < b) ∨
      (a = cursor hi c is ∧ b = top ∧ a < b) := by
  induction is generalizing c with
  | nil =>
    rw [pieces, mem_gapTo]
    constructor
    · rintro ⟨h, hlt⟩
      obtain ⟨rfl, rfl⟩ := Piece.gap.inj h
      exact .inr ⟨rfl, rfl, hlt⟩
    · rintro (⟨pre, i, post, heq, -⟩ | ⟨rfl, rfl, hlt⟩)
      · simp at heq
      · exact ⟨rfl, hlt⟩
  | cons j is ih =>
    have hhead : Piece.gap a b ∈ gapTo (ι := ι) c (lo j) ↔ a = c ∧ b = lo j ∧ a < b := by
      rw [mem_gapTo]
      constructor
      · rintro ⟨h, hlt⟩
        obtain ⟨rfl, rfl⟩ := Piece.gap.inj h
        exact ⟨rfl, rfl, hlt⟩
      · rintro ⟨rfl, rfl, hlt⟩
        exact ⟨rfl, hlt⟩
    rw [pieces, List.mem_append, hhead, List.mem_cons, ih]
    simp only [reduceCtorEq, false_or]
    constructor
    · rintro (⟨h1, h2, h3⟩ | ⟨pre, i, post, rfl, h1, h2, h3⟩ | h)
      · exact .inl ⟨[], j, is, rfl, h1, h2, h3⟩
      · exact .inl ⟨j :: pre, i, post, rfl, h1, h2, h3⟩
      · exact .inr h
    · rintro (⟨pre, i, post, heq, h1, h2, h3⟩ | h)
      · cases pre with
        | nil =>
          obtain ⟨rfl, rfl⟩ := List.cons.inj heq
          exact .inl ⟨h1, h2, h3⟩
        | cons k pre =>
          obtain ⟨rfl, rfl⟩ := List.cons.inj heq
          exact .inr (.inl ⟨pre, i, post, rfl, h1, h2, h3⟩)
      · exact .inr (.inr h)

/-- Gaps start at the cursor or behind it, and end at or before `top`. -/
theorem gap_bounds {a b c : α} {is : List ι} (htop : ∀ i ∈ is, lo i ≤ top)
    (h : Piece.gap a b ∈ pieces lo hi top c is) :
    c ≤ a ∧ a < b ∧ b ≤ top := by
  rcases gap_mem_pieces.1 h with ⟨pre, i, post, rfl, rfl, rfl, hab⟩ | ⟨rfl, rfl, hab⟩
  · exact ⟨le_cursor c pre, hab, htop i (by simp)⟩
  · exact ⟨le_cursor c is, hab, le_refl _⟩

/-! ## Gaps and segments that are listed out of order -/

/-- Segment `j` does not reach back into a gap emitted before it. -/
def ClearsGaps (lo hi : ι → α) (c : α) (is : List ι) (j : ι) : Prop :=
  ∀ pre i post, is = pre ++ i :: post → j ∈ post → cursor hi c pre < lo i → lo i ≤ lo j ∨ hi j ≤ cursor hi c pre

/-- **A segment overlaps no gap** exactly when it does not reach back into one emitted before it. -/
theorem gaps_clear_iff {c : α} {is : List ι} {j : ι} (hj : j ∈ is) :
    (∀ a b, Piece.gap a b ∈ pieces lo hi top c is → b ≤ lo j ∨ hi j ≤ a) ↔ ClearsGaps lo hi c is j := by
  constructor
  · intro h pre i post heq _ hlt
    exact h _ _ (gap_mem_pieces.2 (.inl ⟨pre, i, post, heq, rfl, rfl, hlt⟩))
  · intro h a b hgap
    rcases gap_mem_pieces.1 hgap with ⟨pre, i, post, heq, rfl, rfl, hlt⟩ | ⟨rfl, rfl, -⟩
    · rw [heq, List.mem_append, List.mem_cons] at hj
      rcases hj with hj | rfl | hj
      · exact .inr (hi_le_cursor hj)
      · exact .inl (le_refl _)
      · exact h pre i post heq hj hlt
    · exact .inr (hi_le_cursor hj)

/-- A segment overlaps no gap when everything listed before it starts in front of it. -/
theorem clearsGaps_of_before {c : α} {pre post : List ι} {j : ι} (hpost : j ∉ post)
    (hpre : ∀ i ∈ pre, lo i ≤ lo j) :
    ClearsGaps lo hi c (pre ++ j :: post) j := by
  intro pre' i post' heq hj _
  left
  rcases List.append_eq_append_iff.1 heq with ⟨as, -, hrest⟩ | ⟨as, rfl, hrest⟩
  · cases as with
    | nil =>
      obtain ⟨rfl, -⟩ := List.cons.inj hrest
      exact le_refl _
    | cons k as =>
      obtain ⟨-, rfl⟩ := List.cons.inj hrest
      exact absurd (by simp [hj]) hpost
  · cases as with
    | nil =>
      obtain ⟨rfl, -⟩ := List.cons.inj hrest
      exact le_refl _
    | cons k as =>
      obtain ⟨rfl, -⟩ := List.cons.inj hrest
      exact hpre i (by simp)

/-! ## Sorted, disjoint segments -/

/-- In front of the cursor only segments cover anything. -/
theorem countP_covers_below {x c : α} {is : List ι} (hx : x < c) (hlo : ∀ i ∈ is, x < lo i) :
    (pieces lo hi top c is).countP (fun p => p.Covers lo hi x) = 0 := by
  rw [List.countP_eq_zero]
  intro p hp
  cases p with
  | gap a b =>
    have hca : c ≤ a := by
      rcases gap_mem_pieces.1 hp with ⟨pre, i, post, -, rfl, -, -⟩ | ⟨rfl, -, -⟩
      · exact le_cursor c pre
      · exact le_cursor c is
    rw [decide_eq_true_eq, Piece.covers_gap]
    exact fun h => absurd h.1 (not_le.2 (lt_of_lt_of_le hx hca))
  | seg i =>
    rw [decide_eq_true_eq, Piece.covers_seg]
    exact fun h => absurd h.1 (not_le.2 (hlo i (seg_mem_pieces.1 hp)))

theorem countP_covers_gapTo {x a b : α} (h : a ≤ x) :
    (gapTo a b).countP (fun p => p.Covers lo hi x) = if x < b then 1 else 0 := by
  by_cases hb : x < b
  · simp [gapTo, lt_of_le_of_lt h hb, h, hb]
  · by_cases hab : a < b <;> simp [gapTo, hab, hb]

/-- **The pieces tile the range.** -/
theorem countP_covers_pieces {x : α} : ∀ (is : List ι) (c : α), is.Pairwise (fun i j => hi i ≤ lo j) →
    (∀ i ∈ is, lo i < hi i ∧ c < hi i) → c ≤ x → x < top →
    (pieces lo hi top c is).countP (fun p => p.Covers lo hi x) = 1
  | [], c, _, _, hcx, hxt => by
    rw [pieces, countP_covers_gapTo hcx, if_pos hxt]
  | i :: is, c, hsorted, hpos, hcx, hxt => by
    obtain ⟨hfirst, hrest⟩ := List.pairwise_cons.1 hsorted
    obtain ⟨hi1, hi2⟩ := hpos i (by simp)
    have hmax : max c (hi i) = hi i := max_eq_right (le_of_lt hi2)
    rw [pieces, List.countP_append, List.countP_cons, countP_covers_gapTo hcx, hmax]
    by_cases h1 : x < lo i
    · have h2 : x < hi i := lt_trans h1 hi1
      rw [countP_covers_below h2 fun j hj => lt_of_lt_of_le h2 (hfirst j hj)]
      simp [h1]
    · by_cases h2 : x < hi i
      · rw [countP_covers_below h2 fun j hj => lt_of_lt_of_le h2 (hfirst j hj)]
        simp [h1, h2, not_lt.1 h1]
      · have ih := countP_covers_pieces is (hi i) hrest
          (fun j hj => ⟨(hpos j (by simp [hj])).1,
            lt_of_le_of_lt (hfirst j hj) (hpos j (by simp [hj])).1⟩) (not_lt.1 h2) hxt
        rw [ih]
        simp [h1, h2]

end GapFill
