import Mathlib.Data.List.Basic

/-!
# A log of a bounded length

Entries are put at the end as long as there is room; after that nothing changes any more. What a run of `push` leaves
behind, and which of them are taken, is said in one go by `pushAll_eq`.
-/

namespace BoundedLog

variable {α : Type*} {capacity : Nat}

/-- Whether there was room, and the log. -/
def push (capacity : Nat) (log : List α) (x : α) : Bool × List α :=
  if log.length < capacity then (true, log ++ [x]) else (false, log)

def pushAll (capacity : Nat) : List α → List α → List Bool × List α
  | log, [] => ([], log)
  | log, x :: xs =>
    let r := push capacity log x
    let rs := pushAll capacity r.2 xs
    (r.1 :: rs.1, rs.2)

theorem length_push_le {log : List α} (h : log.length ≤ capacity) (x : α) : (push capacity log x).2.length ≤ capacity := by
  unfold push
  split_ifs with hroom
  · rw [List.length_append, List.length_singleton]
    exact hroom
  · exact h

/-- The first ones are taken, as many as there is room for, and the others are refused. -/
theorem pushAll_eq {log : List α} (h : log.length ≤ capacity) (xs : List α) :
    pushAll capacity log xs =
      (List.replicate (min (capacity - log.length) xs.length) true ++
          List.replicate (xs.length - (capacity - log.length)) false,
        log ++ xs.take (capacity - log.length)) := by
  induction xs generalizing log with
  | nil => simp [pushAll]
  | cons x xs ih =>
    rw [pushAll, ih (length_push_le h x), push]
    split_ifs with hroom
    · obtain ⟨k, hk⟩ := Nat.exists_eq_add_of_lt hroom
      have hrest : capacity - (log ++ [x]).length = k := by
        rw [List.length_append, List.length_singleton]
        omega
      have hall : capacity - log.length = k + 1 := by omega
      rw [hrest, hall, List.take_succ_cons, List.append_assoc, List.length_cons, Nat.add_min_add_right, List.replicate_succ,
        Nat.add_sub_add_right]
      rfl
    · have hfull : capacity - log.length = 0 := by omega
      simp [hfull, List.replicate_succ]

end BoundedLog
