import Mathlib.Data.Finset.Card
import Mathlib.Data.Finset.Dedup
import Mathlib.Tactic.Common

/-!
# Noting values in a list of bounded size

A list notes each value once and stops growing at its capacity. Whether a value is noted depends on how
many different values came before it: `mem_trackAll_iff`.
-/

namespace Tracked

variable {α : Type*} [DecidableEq α] {cap : Nat}

/-- Note `x`, unless it is noted already or there is no room. -/
def track (cap : Nat) (noted : List α) (x : α) : List α :=
  if x ∈ noted then noted else if noted.length < cap then noted ++ [x] else noted

/-- Note the values of a list one after the other. -/
def trackAll (cap : Nat) (xs : List α) : List α := xs.foldl (track cap) []

theorem trackAll_concat (xs : List α) (x : α) : trackAll cap (xs ++ [x]) = track cap (trackAll cap xs) x := by
  simp [trackAll]

theorem mem_track {noted : List α} {x y : α} :
    y ∈ track cap noted x ↔ y ∈ noted ∨ y = x ∧ noted.length < cap := by
  unfold track
  split_ifs with hx hlen
  · refine ⟨.inl, ?_⟩
    rintro (h | ⟨rfl, -⟩)
    · exact h
    · exact hx
  · simp [hlen]
  · simp [hlen]

theorem mem_of_mem_trackAll {xs : List α} {x : α} (h : x ∈ trackAll cap xs) : x ∈ xs := by
  induction xs using List.reverseRecOn with
  | nil => simp [trackAll] at h
  | append_singleton xs y ih =>
    rw [trackAll_concat, mem_track] at h
    rcases h with h | ⟨rfl, -⟩
    · exact List.mem_append_left _ (ih h)
    · simp

/-- The list has noted as many values as there are, or is full. -/
theorem length_trackAll (cap : Nat) (xs : List α) : (trackAll cap xs).length = min xs.toFinset.card cap ∧
    ((trackAll cap xs).length < cap → ∀ x ∈ xs, x ∈ trackAll cap xs) := by
  induction xs using List.reverseRecOn with
  | nil => simp [trackAll]
  | append_singleton xs y ih =>
    obtain ⟨hlen, hall⟩ := ih
    have hfinset : (xs ++ [y]).toFinset = insert y xs.toFinset := by
      ext
      simp
    rw [trackAll_concat, hfinset]
    by_cases hmem : y ∈ trackAll cap xs
    · have hy : y ∈ xs.toFinset := List.mem_toFinset.2 (mem_of_mem_trackAll hmem)
      rw [track, if_pos hmem, Finset.insert_eq_of_mem hy]
      refine ⟨hlen, ?_⟩
      intro h x hx
      rcases List.mem_append.1 hx with hx | hx
      · exact hall h x hx
      · obtain rfl := List.mem_singleton.1 hx
        exact hmem
    · by_cases hroom : (trackAll cap xs).length < cap
      · have hy : y ∉ xs.toFinset := fun h => hmem (hall hroom y (List.mem_toFinset.1 h))
        rw [track, if_neg hmem, if_pos hroom, List.length_append, List.length_singleton, Finset.card_insert_of_notMem hy]
        refine ⟨by omega, ?_⟩
        intro _ x hx
        rcases List.mem_append.1 hx with hx | hx
        · exact List.mem_append_left _ (hall hroom x hx)
        · exact List.mem_append_right _ hx
      · rw [track, if_neg hmem, if_neg hroom]
        have hle : xs.toFinset.card ≤ (insert y xs.toFinset).card := Finset.card_le_card (Finset.subset_insert _ _)
        exact ⟨by omega, fun h => absurd h hroom⟩

theorem takeWhile_ne_append {xs : List α} {x : α} (hx : x ∉ xs) (ys : List α) :
    (xs ++ x :: ys).takeWhile (· ≠ x) = xs := by
  have hne : ∀ z ∈ xs, decide (z ≠ x) = true := fun z hz => decide_eq_true fun h => hx (h ▸ hz)
  rw [List.takeWhile_append_of_pos hne, List.takeWhile_cons_of_neg (by simp), List.append_nil]

/-- **What is noted**: the values in front of whose first occurrence there are fewer different values
than there is room. -/
theorem mem_trackAll_iff {xs : List α} {x : α} :
    x ∈ trackAll cap xs ↔ x ∈ xs ∧ (xs.takeWhile (· ≠ x)).toFinset.card < cap := by
  induction xs using List.reverseRecOn with
  | nil => simp [trackAll]
  | append_singleton xs y ih =>
    obtain ⟨hlen, hall⟩ := length_trackAll cap xs
    rw [trackAll_concat, mem_track]
    by_cases hx : x ∈ xs
    · -- the first occurrence stands further up, and there the decision was made
      have htake : (xs ++ [y]).takeWhile (· ≠ x) = xs.takeWhile (· ≠ x) := by
        obtain ⟨as, bs, rfl, has⟩ := List.eq_append_cons_of_mem hx
        rw [List.append_assoc, List.cons_append, takeWhile_ne_append has, takeWhile_ne_append has]
      rw [htake]
      simp only [List.mem_append, hx, true_or, true_and]
      rw [ih]
      simp only [hx, true_and]
      constructor
      · rintro (h | ⟨rfl, hroom⟩)
        · exact h
        · exact (ih.1 (hall hroom x hx)).2
      · exact .inl
    · have hno : x ∉ trackAll cap xs := fun h => hx (mem_of_mem_trackAll h)
      by_cases hxy : x = y
      · subst hxy
        rw [takeWhile_ne_append hx]
        simp only [hno, true_and, false_or, List.mem_append, List.mem_singleton, or_true]
        omega
      · simp [hno, hx, hxy]

end Tracked
