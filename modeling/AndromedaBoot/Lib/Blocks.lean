import Mathlib.Data.List.Basic

/-!
# Rows of blocks that say their sizes

Blocks stand one behind the other, and the front of each says how long it is. `walk` is the loop over them: it visits what
is left, and goes on behind the block. `walk_row` replaces it by a fold over the blocks; `exists_row` says that what it went
through to the end is a row of blocks, if each visit makes sure of one.
-/

namespace Blocks

variable {α β σ ρ : Type*}

/-- `while (0 < n && size (rest) <= n) { visit (rest); rest += size (rest); n -= size (rest); }`; a visit may leave the loop
with a result. There is nothing to say if the rounds do not suffice. -/
def walk (size : List β → Nat) (visit : σ → List β → Except ρ σ) : Nat → σ → List β → Nat → Option (Except ρ (σ × Nat))
  | 0, _, _, _ => none
  | rounds + 1, acc, rest, n =>
    if 0 < n ∧ size rest ≤ n then
      match visit acc rest with
      | .error r => some (.error r)
      | .ok acc => walk size visit rounds acc (rest.drop (size rest)) (n - size rest)
    else some (.ok (acc, n))

/-- The loop comes to a place: what is left there, and how much of it counts. -/
inductive Comes (size : List β → Nat) : List β → Nat → List β → Nat → Prop
  | here {rest n} : Comes size rest n rest n
  | behind {rest n rest' n'} : 0 < n → size rest ≤ n → Comes size (rest.drop (size rest)) (n - size rest) rest' n' →
      Comes size rest n rest' n'

theorem Comes.le_length {size : List β → Nat} {rest rest' : List β} {n n' : Nat} (h : Comes size rest n rest' n')
    (hn : n ≤ rest.length) : n' ≤ rest'.length := by
  induction h with
  | here => exact hn
  | behind _ _ _ ih =>
    refine ih ?_
    rw [List.length_drop]
    omega

/-- The loop ends if it moves on in each round. -/
theorem walk_ne_none {size : List β → Nat} (visit : σ → List β → Except ρ σ) {rest : List β} {n rounds : Nat}
    (hpos : ∀ rest' n', Comes size rest n rest' n' → 0 < n' → size rest' ≤ n' → 0 < size rest') (hrounds : n < rounds) (acc : σ) :
    walk size visit rounds acc rest n ≠ none := by
  induction rounds generalizing acc rest n with
  | zero => simp at hrounds
  | succ rounds ih =>
    rw [walk]
    split_ifs with hmore
    · have hmoves := hpos rest n .here hmore.1 hmore.2
      cases visit acc rest with
      | error r => simp
      | ok acc => exact ih (fun rest' n' hcomes => hpos rest' n' (.behind hmore.1 hmore.2 hcomes)) (by omega) acc
    · simp

/-- A result comes from a visit. -/
theorem exists_visit_of_walk {size : List β → Nat} {visit : σ → List β → Except ρ σ} {rest : List β} {n rounds : Nat}
    {acc : σ} {r : ρ}
    (h : walk size visit rounds acc rest n = some (.error r)) : ∃ acc rest, visit acc rest = .error r := by
  induction rounds generalizing acc rest n with
  | zero => simp [walk] at h
  | succ rounds ih =>
    rw [walk] at h
    split_ifs at h with hmore
    · cases hv : visit acc rest with
      | error r' =>
        rw [hv] at h
        have hr : some (Except.error r') = some (Except.error r) := h
        exact ⟨acc, rest, hv.trans (Except.error.inj (Option.some.inj hr) ▸ rfl)⟩
      | ok next =>
        rw [hv] at h
        exact ih h
    · simp at h

/-- Blocks that can be told from what is behind them. -/
structure Format (α β : Type*) where
  bytes : α → List β
  size : List β → Nat
  size_bytes : ∀ x rest, size (bytes x ++ rest) = (bytes x).length
  ne_nil : ∀ x, bytes x ≠ []

namespace Format

variable (F : Format α β)

def row (xs : List α) : List β := xs.flatMap F.bytes

/-- The visits of a row, one after the other; each is told what is behind its block. -/
def foldRow (step : σ → α → List β → Except ρ σ) (behind : List β) : σ → List α → Except ρ σ
  | acc, [] => .ok acc
  | acc, x :: xs =>
    match step acc x (F.row xs ++ behind) with
    | .error r => .error r
    | .ok acc => foldRow step behind acc xs

theorem row_cons (x : α) (xs : List α) : F.row (x :: xs) = F.bytes x ++ F.row xs := List.flatMap_cons

theorem row_append (xs ys : List α) : F.row (xs ++ ys) = F.row xs ++ F.row ys := List.flatMap_append

theorem length_le_row (xs : List α) : xs.length ≤ (F.row xs).length := by
  induction xs with
  | nil => exact Nat.zero_le _
  | cons x xs ih =>
    have hpos := List.length_pos_iff.2 (F.ne_nil x)
    rw [row_cons, List.length_append, List.length_cons]
    omega

variable {F} {visit : σ → List β → Except ρ σ} {step : σ → α → List β → Except ρ σ} {behind : List β}

/-- The loop over a row goes through all of it. -/
theorem walk_row (behind : List β) {xs : List α}
    (hvisit : ∀ acc, ∀ x ∈ xs, ∀ rest, visit acc (F.bytes x ++ rest) = step acc x rest) {rounds : Nat}
    (hrounds : xs.length < rounds) (acc : σ) :
    walk F.size visit rounds acc (F.row xs ++ behind) (F.row xs).length =
      some ((F.foldRow step behind acc xs).map fun acc => (acc, 0)) := by
  induction xs generalizing acc rounds with
  | nil =>
    obtain ⟨rounds, rfl⟩ := Nat.exists_eq_add_of_lt hrounds
    rfl
  | cons x xs ih =>
    obtain ⟨rounds, rfl⟩ : ∃ k, rounds = k + 1 := ⟨rounds - 1, by omega⟩
    have hpos := List.length_pos_iff.2 (F.ne_nil x)
    have hsize := F.size_bytes x (F.row xs ++ behind)
    rw [row_cons, List.append_assoc, List.length_append, walk, hsize, if_pos (by omega), hvisit acc x List.mem_cons_self,
      List.drop_left, Nat.add_sub_cancel_left, foldRow]
    cases step acc x (F.row xs ++ behind) with
    | error r => rfl
    | ok acc =>
      exact ih (fun acc y hy => hvisit acc y (List.mem_cons_of_mem _ hy)) (by simpa using hrounds) acc

/-- A search of a row for a block. -/
theorem foldRow_search (p : α → Prop) [DecidablePred p] (xs : List α) :
    F.foldRow (fun (_ : Unit) x _ => if p x then (.error () : Except Unit Unit) else .ok ()) behind () xs =
      if ∃ x ∈ xs, p x then .error () else .ok () := by
  induction xs with
  | nil => simp [foldRow]
  | cons x xs ih =>
    rw [foldRow]
    by_cases hx : p x
    · simp [hx]
    · simp only [hx, if_false, List.mem_cons, exists_eq_or_imp, false_or]
      exact ih

/-- On a row the loop comes to the fronts of its blocks, and to its end. -/
theorem comes_row {xs : List α} {rest : List β} {n : Nat} (h : Comes F.size (F.row xs ++ behind) (F.row xs).length rest n) :
    ∃ ys, ys <:+ xs ∧ rest = F.row ys ++ behind ∧ n = (F.row ys).length := by
  induction xs with
  | nil =>
    cases h with
    | here => exact ⟨[], List.suffix_rfl, rfl, rfl⟩
    | behind hpos _ _ => simp [row] at hpos
  | cons x xs ih =>
    cases h with
    | here => exact ⟨x :: xs, List.suffix_rfl, rfl, rfl⟩
    | behind hpos hle hcomes =>
      have hsize := F.size_bytes x (F.row xs ++ behind)
      rw [row_cons, List.append_assoc, List.length_append, hsize, List.drop_left, Nat.add_sub_cancel_left] at hcomes
      obtain ⟨ys, hsuffix, hrest, hn⟩ := ih hcomes
      exact ⟨ys, hsuffix.trans (List.suffix_cons x xs), hrest, hn⟩

/-- A loop that came to the end of its data went over a row, if each visit on its way made sure of a block. -/
theorem exists_row {rounds n : Nat} {acc acc' : σ} {rest : List β}
    (hparse : ∀ acc rest' n' acc', Comes F.size rest n rest' n' → 0 < n' → F.size rest' ≤ n' → visit acc rest' = .ok acc' →
      ∃ x after, rest' = F.bytes x ++ after ∧ step acc x after = .ok acc')
    (h : walk F.size visit rounds acc rest n = some (.ok (acc', 0))) :
    ∃ xs behind, rest = F.row xs ++ behind ∧ n = (F.row xs).length ∧ F.foldRow step behind acc xs = .ok acc' := by
  induction rounds generalizing acc rest n with
  | zero => simp [walk] at h
  | succ rounds ih =>
    rw [walk] at h
    split_ifs at h with hmore
    · cases hv : visit acc rest with
      | error r => simp [hv] at h
      | ok next =>
        rw [hv] at h
        obtain ⟨x, rest', hrest, hstep⟩ := hparse acc rest n next .here hmore.1 hmore.2 hv
        have hsize : F.size rest = (F.bytes x).length := by rw [hrest, F.size_bytes]
        have hdrop : rest.drop (F.size rest) = rest' := by rw [hsize, hrest, List.drop_left]
        obtain ⟨xs, behind, hrest', hn, hfold⟩ := ih
          (fun acc rest' n' acc' hcomes => hparse acc rest' n' acc' (.behind hmore.1 hmore.2 hcomes)) h
        have hle := hmore.2
        rw [hdrop] at hrest'
        refine ⟨x :: xs, behind, by rw [hrest, hrest', row_cons, List.append_assoc], ?_, ?_⟩
        · rw [row_cons, List.length_append]
          omega
        · rw [foldRow, ← hrest', hstep]
          exact hfold
    · obtain ⟨rfl, rfl⟩ : acc = acc' ∧ n = 0 := by simpa using h
      exact ⟨[], rest, rfl, rfl, rfl⟩

end Format

end Blocks
