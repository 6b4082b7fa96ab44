import Mathlib.Tactic.Common
import Mathlib.Order.Monotone.Basic

/-!
# Searching in one pass

A search that reads each position of a text once: it compares with the next symbol of the pattern, and after
a mismatch it goes on behind the mismatch with the first. It does not go back, so it tries the pattern at some
positions only, the `attempt`s, and finds the first attempt at which the pattern occurs.
-/

namespace OnePass

variable {α : Type*} {text : Nat → α} {pattern rest : List α} {a n pos i k : Nat}

/-- The pattern occurs at `a`. -/
def Occurs (text : Nat → α) (pattern : List α) (a : Nat) : Prop :=
  ∀ (i : Nat) (h : i < pattern.length), text (a + i) = pattern[i]

/-- The pattern occurs at `a`, below `n`, and nowhere before. -/
def IsFirst (text : Nat → α) (pattern : List α) (n a : Nat) : Prop :=
  Occurs text pattern a ∧ a + pattern.length ≤ n ∧ ∀ b < a, ¬ Occurs text pattern b

/-- Where there is an occurrence, there is a first one. -/
theorem exists_first (h : Occurs text pattern a) :
    ∃ b, (b ≤ a ∧ Occurs text pattern b) ∧ ∀ c < b, ¬ Occurs text pattern c := by
  induction a using Nat.strong_induction_on with
  | _ a ih =>
    by_cases hearlier : ∃ b < a, Occurs text pattern b
    · obtain ⟨b, hb, hoccurs⟩ := hearlier
      obtain ⟨c, ⟨hc, hoccurs'⟩, hleast⟩ := ih b hb hoccurs
      exact ⟨c, ⟨by omega, hoccurs'⟩, hleast⟩
    · exact ⟨a, ⟨Nat.le_refl a, h⟩, fun c hc hoccurs => hearlier ⟨c, hc, hoccurs⟩⟩

variable [DecidableEq α]

/-- The number of symbols of the pattern that agree with the text from `a` on. -/
def agree (text : Nat → α) : List α → Nat → Nat
  | [], _ => 0
  | c :: rest, a => if text a = c then agree text rest (a + 1) + 1 else 0

/-- The positions at which the pattern is tried. -/
def attempt (text : Nat → α) (pattern : List α) : Nat → Nat
  | 0 => 0
  | i + 1 => attempt text pattern i + agree text pattern (attempt text pattern i) + 1

/-- The search with `n` positions to go, `rest` of the pattern still to compare. -/
def search (text : Nat → α) (pattern : List α) : Nat → Nat → List α → Option Nat
  | 0, _, _ => none
  | n + 1, pos, rest =>
    if rest.head? = some (text pos) then
      if rest.tail = [] then some (pos + 1 - pattern.length) else search text pattern n (pos + 1) rest.tail
    else search text pattern n (pos + 1) pattern

theorem attempt_strictMono (text : Nat → α) (pattern : List α) : StrictMono (attempt text pattern) :=
  strictMono_nat_of_lt_succ fun i => by
    rw [attempt]
    omega

/-- The agreement is known at the first mismatch. -/
theorem agree_eq (hk : k < pattern.length) (hagree : ∀ (j : Nat) (h : j < k), text (a + j) = pattern[j])
    (hne : text (a + k) ≠ pattern[k]) : agree text pattern a = k := by
  induction pattern generalizing a k with
  | nil => simp at hk
  | cons c rest ih =>
    cases k with
    | zero => simpa [agree] using hne
    | succ k =>
      have hfirst : text a = c := by simpa using hagree 0 (by omega)
      have hrest : agree text rest (a + 1) = k := by
        refine ih (by simpa using hk) ?_ ?_
        · intro j hj
          rw [show a + 1 + j = a + (j + 1) by omega]
          simpa using hagree (j + 1) (by omega)
        · rw [show a + 1 + k = a + (k + 1) by omega]
          simpa using hne
      rw [agree, if_pos hfirst, hrest]

/-- What the search returns: the first attempt at which the pattern occurs, or nothing if there is none below the
end. -/
def Found (text : Nat → α) (pattern : List α) (n : Nat) : Option Nat → Prop
  | none => ∀ i, Occurs text pattern (attempt text pattern i) → n < attempt text pattern i + pattern.length
  | some a => ∃ i, a = attempt text pattern i ∧ Occurs text pattern a ∧ a + pattern.length ≤ n ∧
      ∀ j < i, ¬ Occurs text pattern (attempt text pattern j)

/-- The search in the middle of its `i`-th attempt, with `k` symbols compared. -/
theorem found_search (hk : k < pattern.length) (hpos : pos = attempt text pattern i + k)
    (hagree : ∀ (j : Nat) (h : j < k), text (attempt text pattern i + j) = pattern[j])
    (hbefore : ∀ j < i, ¬ Occurs text pattern (attempt text pattern j)) :
    Found text pattern (pos + n) (search text pattern n pos (pattern.drop k)) := by
  induction n generalizing pos i k with
  | zero =>
    intro j hj
    have hij : i ≤ j := by
      by_contra hlt
      exact hbefore j (by omega) hj
    have hle := (attempt_strictMono text pattern).monotone hij
    omega
  | succ n ih =>
    have hdrop := List.drop_eq_getElem_cons hk
    rw [search, hdrop, List.head?_cons, List.tail_cons]
    split_ifs with hcompare hlast
    · -- the last symbol of the pattern agrees
      have hlen : pattern.length = k + 1 := by
        have := congrArg List.length hlast
        rw [List.length_drop, List.length_nil] at this
        omega
      refine ⟨i, by omega, ?_, by omega, hbefore⟩
      intro j hj
      rw [show pos + 1 - pattern.length = attempt text pattern i by omega]
      rcases Nat.lt_or_eq_of_le (Nat.lt_succ_iff.1 (hlen ▸ hj)) with hlt | rfl
      · exact hagree j hlt
      · rw [← hpos]
        exact (Option.some.inj hcompare).symm
    · have hmore : k + 1 < pattern.length := by
        by_contra hle
        exact hlast (List.drop_eq_nil_of_le (by omega))
      rw [show pos + (n + 1) = pos + 1 + n by omega]
      refine ih hmore (by omega) ?_ hbefore
      intro j hj
      rcases Nat.lt_or_eq_of_le (Nat.lt_succ_iff.1 hj) with hlt | rfl
      · exact hagree j hlt
      · rw [← hpos]
        exact (Option.some.inj hcompare).symm
    · -- a mismatch: the next attempt is behind it
      have hne : text (attempt text pattern i + k) ≠ pattern[k] := by
        rw [← hpos]
        exact fun heq => hcompare (congrArg some heq.symm)
      have hnext : attempt text pattern (i + 1) = pos + 1 := by
        rw [attempt, agree_eq hk hagree hne, hpos]
      have hstart : Found text pattern (pos + 1 + n) (search text pattern n (pos + 1) (pattern.drop 0)) := by
        refine ih (by omega) (show pos + 1 = attempt text pattern (i + 1) + 0 from hnext.symm) (fun j hj => by omega) ?_
        intro j hj
        rcases Nat.lt_or_eq_of_le (Nat.lt_succ_iff.1 hj) with hlt | rfl
        · exact hbefore j hlt
        · exact fun hoccurs => hne (hoccurs k hk)
      rwa [List.drop_zero, show pos + 1 + n = pos + (n + 1) by omega] at hstart

theorem found_search_start (hpattern : pattern ≠ []) (n : Nat) : Found text pattern n (search text pattern n 0 pattern) := by
  have hfound : Found text pattern (0 + n) (search text pattern n 0 (pattern.drop 0)) :=
    found_search (i := 0) (List.length_pos_iff.2 hpattern) rfl (fun j hj => absurd hj (by omega))
      fun j hj => absurd hj (by omega)
  rwa [List.drop_zero, Nat.zero_add] at hfound

/-- The search from the start finds the first occurrence if and only if the first occurrence is an attempt. -/
theorem search_isFirst_iff (hpattern : pattern ≠ []) (n : Nat) :
    (∀ a, search text pattern n 0 pattern = some a ↔ IsFirst text pattern n a) ↔
      ∀ a, IsFirst text pattern n a → ∃ i, attempt text pattern i = a := by
  have hfound : Found text pattern n (search text pattern n 0 pattern) := found_search_start hpattern n
  constructor
  · intro h a ha
    rw [(h a).2 ha] at hfound
    obtain ⟨i, hi, -⟩ := hfound
    exact ⟨i, hi.symm⟩
  · intro h a
    constructor
    · intro hsearch
      rw [hsearch] at hfound
      obtain ⟨i, hi, hoccurs, hle, hbefore⟩ := hfound
      refine ⟨hoccurs, hle, ?_⟩
      intro b hb hearlier
      -- an earlier occurrence gives a first one, which is an attempt before `a`
      obtain ⟨c, hc, hleast⟩ := exists_first hearlier
      obtain ⟨j, hj⟩ := h c ⟨hc.2, by omega, hleast⟩
      refine hbefore j ?_ (hj ▸ hc.2)
      exact (attempt_strictMono text pattern).lt_iff_lt.1 (by omega)
    · intro hfirst
      obtain ⟨i, rfl⟩ := h a hfirst
      cases hsearch : search text pattern n 0 pattern with
      | none =>
        rw [hsearch] at hfound
        have hlt := hfound i hfirst.1
        have hle := hfirst.2.1
        omega
      | some r =>
        rw [hsearch] at hfound
        obtain ⟨j, rfl, hoccurs, -, hbefore⟩ := hfound
        have hle : i ≤ j := by
          by_contra hlt
          exact hfirst.2.2 _ (attempt_strictMono text pattern (Nat.lt_of_not_le hlt)) hoccurs
        rcases Nat.lt_or_eq_of_le hle with hlt | rfl
        · exact absurd hfirst.1 (hbefore i hlt)
        · rfl

end OnePass
