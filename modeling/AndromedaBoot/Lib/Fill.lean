import Mathlib.Data.List.Basic
import Mathlib.Tactic.Common

/-!
# Filling a fixed array

A fixed array with a count of the slots in use, filled by appends that check a capacity. A step
returns a status and the new state, or `none` when it touched memory outside the array; `andThen` is
"return on error". Code that only appends, in whatever nest of loops, comes down to `pushAll` of one
list, and `pushAll_eq` says what that leaves in the array.
-/

namespace Fill

variable {α β S σ : Type*} [DecidableEq S] {ok full : S}

/-- An array and the number of its slots in use. -/
structure Buf (α : Type*) where
  slots : List α
  count : Nat
deriving DecidableEq, Repr

/-- `slots[i] = x`; `none` when the slot does not exist. -/
def write (slots : List α) (i : Nat) (x : α) : Option (List α) :=
  if i < slots.length then some (slots.set i x) else none

/-- `if (status is an error) return status;` and go on. -/
def andThen (ok : S) (r : Option (S × σ)) (k : σ → Option (S × σ)) : Option (S × σ) :=
  match r with
  | none => none
  | some (s, t) => if s = ok then k t else some (s, t)

/-- Append one element, refusing when `cap` slots are in use. -/
def push (ok full : S) (cap : Nat) (b : Buf α) (x : α) : Option (S × Buf α) :=
  if b.count ≥ cap then some (full, b)
  else (write b.slots b.count x).map fun slots => (ok, ⟨slots, b.count + 1⟩)

/-- Run a step for every element, stopping at the first error. -/
def forEach (ok : S) (f : β → σ → Option (S × σ)) : List β → σ → Option (S × σ)
  | [], s => some (ok, s)
  | x :: xs, s => andThen ok (f x s) (forEach ok f xs)

/-- Append a list of elements. -/
def pushAll (ok full : S) (cap : Nat) (b : Buf α) (xs : List α) : Option (S × Buf α) :=
  forEach ok (fun x b => push ok full cap b x) xs b

@[simp] theorem andThen_ok (t : σ) (k : σ → Option (S × σ)) : andThen ok (some (ok, t)) k = k t := by
  simp [andThen]

theorem andThen_assoc (r : Option (S × σ)) (f g : σ → Option (S × σ)) :
    andThen ok (andThen ok r f) g = andThen ok r fun t => andThen ok (f t) g := by
  match r with
  | none => rfl
  | some (s, t) =>
    by_cases h : s = ok
    · simp [andThen, h]
    · simp [andThen, h]

/-- A sequence that succeeds succeeded in both parts. -/
theorem andThen_eq_ok {r : Option (S × σ)} {k : σ → Option (S × σ)} {t : σ} :
    andThen ok r k = some (ok, t) ↔ ∃ s, r = some (ok, s) ∧ k s = some (ok, t) := by
  match r with
  | none => simp [andThen]
  | some (s, u) =>
    by_cases h : s = ok
    · simp [andThen, h]
    · simp [andThen, h]

theorem andThen_some_ok (r : Option (S × σ)) : andThen ok r (fun t => some (ok, t)) = r := by
  match r with
  | none => rfl
  | some (s, t) =>
    by_cases h : s = ok
    · simp [andThen, h]
    · simp [andThen, h]

omit [DecidableEq S] in
/-- Two steps that were evaluated together with a test of where they lead. -/
theorem steps_of_eval {ρ : Type*} (ok : S) (first : Option (S × σ)) (second : σ → Option (S × ρ))
    (test : σ → ρ → Bool)
    (h : (first.bind fun r => (second r.2).map fun q => (r.1, q.1, test r.2 q.2)) =
      some (ok, ok, true)) :
    ∃ s t, first = some (ok, s) ∧ second s = some (ok, t) ∧ test s t = true := by
  obtain ⟨⟨a, s⟩, hfirst, hrest⟩ := Option.bind_eq_some_iff.1 h
  obtain ⟨⟨b, t⟩, hsecond, heq⟩ := Option.map_eq_some_iff.1 hrest
  simp only [Prod.mk.injEq] at heq
  obtain ⟨rfl, rfl, htest⟩ := heq
  exact ⟨s, t, hfirst, hsecond, htest⟩

/-- From every state in `P` the step ends with this status, in a state in `Q`. -/
def Ends (P : σ → Prop) (f : σ → Option (S × σ)) (s : S) (Q : σ → Prop) : Prop :=
  ∀ t, P t → ∃ u, f t = some (s, u) ∧ Q u

section Ends

variable {P Q R : σ → Prop} {f g : σ → Option (S × σ)} {s : S}

theorem Ends.andThen_ok (hf : Ends P f ok Q) (hg : Ends Q g s R) :
    Ends P (fun t => andThen ok (f t) g) s R := by
  intro t ht
  obtain ⟨u, hu, hq⟩ := hf t ht
  simp only [hu, Fill.andThen_ok]
  exact hg u hq

theorem Ends.andThen_error (hf : Ends P f s Q) (h : s ≠ ok) :
    Ends P (fun t => andThen ok (f t) g) s Q := by
  intro t ht
  obtain ⟨u, hu, hq⟩ := hf t ht
  refine ⟨u, ?_, hq⟩
  simp only [hu, andThen, h, ↓reduceIte]

end Ends

theorem forEach_append (f : β → σ → Option (S × σ)) (xs ys : List β) (s : σ) :
    forEach ok f (xs ++ ys) s = andThen ok (forEach ok f xs s) (forEach ok f ys) := by
  induction xs generalizing s with
  | nil => simp [forEach]
  | cons x xs ih =>
    rw [List.cons_append, forEach, forEach, andThen_assoc]
    congr 1
    funext t
    exact ih t

@[simp] theorem pushAll_nil (cap : Nat) (b : Buf α) : pushAll ok full cap b [] = some (ok, b) := rfl

theorem pushAll_cons (cap : Nat) (b : Buf α) (x : α) (xs : List α) :
    pushAll ok full cap b (x :: xs) = andThen ok (push ok full cap b x) fun b' => pushAll ok full cap b' xs := rfl

theorem pushAll_singleton (cap : Nat) (b : Buf α) (x : α) :
    pushAll ok full cap b [x] = push ok full cap b x :=
  andThen_some_ok _

theorem pushAll_append (cap : Nat) (b : Buf α) (xs ys : List α) :
    pushAll ok full cap b (xs ++ ys) =
      andThen ok (pushAll ok full cap b xs) fun b' => pushAll ok full cap b' ys :=
  forEach_append _ xs ys b

/-- Loops whose body only appends append everything at once. -/
theorem forEach_pushAll {cap : Nat} {f : β → Buf α → Option (S × Buf α)} {g : β → List α} {xs : List β}
    (h : ∀ x ∈ xs, ∀ b, f x b = pushAll ok full cap b (g x)) (b : Buf α) :
    forEach ok f xs b = pushAll ok full cap b (xs.flatMap g) := by
  induction xs generalizing b with
  | nil => rfl
  | cons x xs ih =>
    rw [forEach, h x (by simp), List.flatMap_cons, pushAll_append]
    congr 1
    funext b'
    exact ih (fun y hy => h y (by simp [hy])) b'

/-- The array with `ys` written from slot `i` on. -/
def overwrite (slots : List α) (i : Nat) (ys : List α) : List α :=
  slots.take i ++ ys ++ slots.drop (i + ys.length)

@[simp] theorem overwrite_nil (slots : List α) (i : Nat) : overwrite slots i [] = slots := by
  simp [overwrite]

theorem overwrite_cons {slots : List α} {i : Nat} (h : i < slots.length) (x : α) (ys : List α) :
    overwrite slots i (x :: ys) = overwrite (slots.set i x) (i + 1) ys := by
  have htake : (slots.set i x).take (i + 1) = slots.take i ++ [x] := by
    rw [List.take_add_one, List.getElem?_set_self h, List.take_set_of_le (Nat.le_refl i)]
    rfl
  rw [overwrite, overwrite, htake, List.drop_set_of_lt (by omega)]
  simp [Nat.add_assoc, Nat.add_comm 1]

theorem set_overwrite {slots ys : List α} {i : Nat} (h : i + ys.length < slots.length) (x : α) :
    (overwrite slots i ys).set (i + ys.length) x = overwrite slots i (ys ++ [x]) := by
  have hlen : (slots.take i ++ ys).length = i + ys.length := by
    rw [List.length_append, List.length_take]
    omega
  rw [overwrite, overwrite, List.set_append_right _ _ (by omega), hlen, Nat.sub_self,
    List.drop_eq_getElem_cons h,
    List.set_cons_zero]
  simp [Nat.add_assoc]

theorem length_overwrite {slots : List α} {i : Nat} {ys : List α} (h : i + ys.length ≤ slots.length) :
    (overwrite slots i ys).length = slots.length := by
  simp only [overwrite, List.length_append, List.length_take, List.length_drop]
  omega

theorem take_overwrite {slots : List α} {i : Nat} (h : i ≤ slots.length) (ys : List α) :
    (overwrite slots i ys).take (i + ys.length) = slots.take i ++ ys := by
  have hlen : (slots.take i ++ ys).length = i + ys.length := by
    rw [List.length_append, List.length_take, Nat.min_eq_left h]
  rw [overwrite, List.take_append_of_le_length (by omega), List.take_of_length_le (by omega)]

/-- Writing the same again changes nothing. -/
theorem overwrite_overwrite {slots ys : List α} {i : Nat} (h : i + ys.length ≤ slots.length) :
    overwrite (overwrite slots i ys) i ys = overwrite slots i ys := by
  have htake : (overwrite slots i ys).take i = slots.take i := by
    rw [overwrite, List.append_assoc, List.take_append_of_le_length (by rw [List.length_take]; omega),
      List.take_of_length_le (by rw [List.length_take]; omega)]
  have hdrop : (overwrite slots i ys).drop (i + ys.length) = slots.drop (i + ys.length) := by
    have hlen : (slots.take i ++ ys).length = i + ys.length := by
      rw [List.length_append, List.length_take, Nat.min_eq_left (by omega)]
    rw [overwrite, ← hlen, List.drop_left]
  rw [overwrite, htake, hdrop, ← overwrite]

/-- Slots outside the written range keep their contents. -/
theorem getElem?_overwrite_of_outside {slots ys : List α} {i k : Nat} (h : i + ys.length ≤ slots.length)
    (hk : k < i ∨ i + ys.length ≤ k) : (overwrite slots i ys)[k]? = slots[k]? := by
  rw [overwrite]
  rcases hk with hk | hk
  · rw [List.append_assoc, List.getElem?_append_left (by rw [List.length_take]; omega),
      List.getElem?_take_of_lt hk]
  · have hlen : (slots.take i ++ ys).length = i + ys.length := by
      rw [List.length_append, List.length_take]
      omega
    rw [List.getElem?_append_right (by omega), hlen, List.getElem?_drop]
    congr 1
    omega

/-- **What a run of appends leaves behind.** Everything, or as much as fits and the error. -/
theorem pushAll_eq {cap : Nat} (hne : full ≠ ok) (xs : List α) :
    ∀ b : Buf α, b.count ≤ cap → cap ≤ b.slots.length →
      pushAll ok full cap b xs =
        some (if b.count + xs.length ≤ cap then ok else full,
          ⟨overwrite b.slots b.count (xs.take (cap - b.count)), min (b.count + xs.length) cap⟩) := by
  induction xs with
  | nil =>
    intro b hb hcap
    simp [hb]
  | cons x xs ih =>
    intro b hb hcap
    rw [pushAll_cons]
    by_cases hfull : b.count ≥ cap
    · have hcount : b.count = cap := by omega
      simp only [push, hfull, ↓reduceIte, andThen, hne, List.length_cons]
      rw [if_neg (by omega), hcount, Nat.sub_self, List.take_zero, overwrite_nil,
        Nat.min_eq_right (by omega), ← hcount]
    · have hlt : b.count < b.slots.length := by omega
      simp only [push, hfull, ↓reduceIte, write, hlt, Option.map_some, andThen_ok]
      rw [ih _ (by simp; omega) (by simp; omega)]
      have hsub : cap - b.count = (cap - (b.count + 1)) + 1 := by omega
      rw [hsub, List.take_succ_cons, overwrite_cons hlt]
      simp only [List.length_cons, Nat.add_assoc, Nat.add_comm 1]

end Fill
