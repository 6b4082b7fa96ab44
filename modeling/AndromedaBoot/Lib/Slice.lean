import Mathlib.Data.List.DropRight
import Mathlib.Tactic.Common

/-!
# Index ranges of a list

A scanner in C keeps one array and moves indices over it; a specification talks about the list
between two indices. `slice l s e` is that list. The two loops such scanners are made of,
`skipWhile` (advance a start index) and `skipBack` (retreat an end index), are given here with
their meaning on slices: `takeWhile`, `dropWhile` and `rdropWhile`.
-/

namespace Slice

variable {α : Type*} {p : α → Bool} {l : List α} {s e i k : Nat}

/-- The elements of `l` at the indices `s, …, e - 1`. -/
def slice (l : List α) (s e : Nat) : List α := (l.drop s).take (e - s)

@[simp] theorem length_slice (h : e ≤ l.length) : (slice l s e).length = e - s := by
  simp only [slice, List.length_take, List.length_drop]
  omega

@[simp] theorem slice_self : slice l s s = [] := by simp [slice]

theorem slice_eq_nil (h : e ≤ s) : slice l s e = [] := by simp [slice, Nat.sub_eq_zero_of_le h]

theorem slice_to_end (s : Nat) : slice l s l.length = l.drop s := by
  unfold slice
  exact List.take_of_length_le (by simp)

theorem slice_cons (h : s < e) (he : e ≤ l.length) :
    ∃ x, l[s]? = some x ∧ slice l s e = x :: slice l (s + 1) e := by
  have hs : s < l.length := by omega
  refine ⟨l[s], List.getElem?_eq_getElem hs, ?_⟩
  unfold slice
  rw [List.drop_eq_getElem_cons hs, show e - s = (e - (s + 1)) + 1 by omega, List.take_succ_cons]

theorem slice_concat (h : s < e) (he : e ≤ l.length) :
    ∃ x, l[e - 1]? = some x ∧ slice l s e = slice l s (e - 1) ++ [x] := by
  have hs : e - 1 < l.length := by omega
  refine ⟨l[e - 1], List.getElem?_eq_getElem hs, ?_⟩
  unfold slice
  rw [show e - s = (e - 1 - s) + 1 by omega, List.take_add_one, List.getElem?_drop,
    show s + (e - 1 - s) = e - 1 by omega, List.getElem?_eq_getElem hs]
  rfl

theorem drop_slice (k : Nat) : (slice l s e).drop k = slice l (s + k) e := by
  unfold slice
  rw [List.drop_take, List.drop_drop, show e - s - k = e - (s + k) by omega]

theorem take_slice (h : s + k ≤ e) : (slice l s e).take k = slice l s (s + k) := by
  unfold slice
  rw [List.take_take]
  congr 1
  omega

theorem slice_append_slice {m : Nat} (h1 : s ≤ m) (h2 : m ≤ e) :
    slice l s m ++ slice l m e = slice l s e := by
  have h := List.take_append_drop (m - s) (slice l s e)
  rw [take_slice (by omega), drop_slice, show s + (m - s) = m by omega] at h
  exact h

/-! ## Moving a start index forward -/

/-- `while (fuel-- && p (l[i])) i++`. -/
def scan (p : α → Bool) (l : List α) : Nat → Nat → Nat
  | 0, i => i
  | n + 1, i => if (l[i]?).any p then scan p l n (i + 1) else i

/-- `while (i < e && p (l[i])) i++`. -/
def skipWhile (p : α → Bool) (l : List α) (i e : Nat) : Nat := scan p l (e - i) i

theorem skipWhile_eq (he : e ≤ l.length) :
    skipWhile p l i e = i + ((slice l i e).takeWhile p).length := by
  unfold skipWhile
  generalize hn : e - i = n
  induction n generalizing i with
  | zero => rw [slice_eq_nil (by omega)]; simp [scan]
  | succ n ih =>
    obtain ⟨x, hx, hs⟩ := slice_cons (l := l) (s := i) (e := e) (by omega) he
    rw [scan, hx, hs]
    by_cases hp : p x = true
    · simp only [Option.any_some, hp, ↓reduceIte, List.takeWhile_cons, List.length_cons]
      rw [ih (by omega)]
      omega
    · simp [hp]

theorem le_skipWhile (he : e ≤ l.length) : i ≤ skipWhile p l i e := by
  rw [skipWhile_eq he]
  omega

theorem skipWhile_le (h : i ≤ e) (he : e ≤ l.length) : skipWhile p l i e ≤ e := by
  rw [skipWhile_eq he]
  have h1 := (List.takeWhile_prefix (l := slice l i e) p).length_le
  rw [length_slice he] at h1
  omega

theorem slice_to_skipWhile (h : i ≤ e) (he : e ≤ l.length) :
    slice l i (skipWhile p l i e) = (slice l i e).takeWhile p := by
  have hle := skipWhile_le (p := p) h he
  rw [skipWhile_eq he] at hle ⊢
  rw [← take_slice hle]
  exact (List.prefix_iff_eq_take.1 (List.takeWhile_prefix p)).symm

theorem slice_from_skipWhile (he : e ≤ l.length) :
    slice l (skipWhile p l i e) e = (slice l i e).dropWhile p := by
  rw [skipWhile_eq he, ← drop_slice]
  generalize slice l i e = t
  calc t.drop (t.takeWhile p).length
      = (t.takeWhile p ++ t.dropWhile p).drop (t.takeWhile p).length := by
        rw [List.takeWhile_append_dropWhile]
    _ = t.dropWhile p := List.drop_left

/-- The loop stopped before the end exactly when some element of the range fails the test. -/
theorem skipWhile_lt_iff (h : i ≤ e) (he : e ≤ l.length) :
    skipWhile p l i e < e ↔ ∃ x ∈ slice l i e, p x = false := by
  have hd := slice_from_skipWhile (p := p) (i := i) he
  have hle := skipWhile_le (p := p) h he
  have hnil : skipWhile p l i e < e ↔ (slice l i e).dropWhile p ≠ [] := by
    rw [← hd]
    constructor
    · intro hlt hn
      have := congrArg List.length hn
      rw [length_slice he] at this
      simp at this
      omega
    · intro hne
      by_contra hge
      exact hne (slice_eq_nil (by omega))
  rw [hnil, Ne, List.dropWhile_eq_nil_iff]
  simp

theorem head_dropWhile {x : α} {t : List α} (h : l.dropWhile p = x :: t) : p x = false := by
  have := List.head?_dropWhile_not p l
  rw [h] at this
  simpa using this

/-! ## Moving an end index back -/

/-- `while (e > s && p (l[e - 1])) e--`. -/
def skipBack (p : α → Bool) (l : List α) (s : Nat) : Nat → Nat
  | 0 => 0
  | e + 1 => if s < e + 1 ∧ (l[e]?).any p then skipBack p l s e else e + 1

theorem skipBack_spec (h : s ≤ e) (he : e ≤ l.length) :
    s ≤ skipBack p l s e ∧ skipBack p l s e ≤ e ∧
      slice l s (skipBack p l s e) = (slice l s e).rdropWhile p := by
  induction e with
  | zero =>
    obtain rfl : s = 0 := by omega
    simp [skipBack]
  | succ e ih =>
    rw [skipBack]
    by_cases hs : s < e + 1
    · obtain ⟨x, hx, hc⟩ := slice_concat (l := l) hs he
      rw [Nat.add_sub_cancel] at hx hc
      by_cases hp : p x = true
      · simp only [hx, Option.any_some, hp, hs, and_self, ↓reduceIte]
        obtain ⟨h1, h2, h3⟩ := ih (by omega) (by omega)
        refine ⟨h1, by omega, ?_⟩
        rw [h3, hc, List.rdropWhile_concat_pos _ _ _ hp]
      · rw [if_neg (by simp [hx, hp])]
        refine ⟨h, le_refl _, ?_⟩
        rw [hc, List.rdropWhile_concat_neg _ _ _ hp]
    · obtain rfl : s = e + 1 := by omega
      simp

/-! ## Trimming both ends -/

/-- Drop what satisfies `p` at both ends. -/
def trim (p : α → Bool) (l : List α) : List α := (l.dropWhile p).rdropWhile p

@[simp] theorem trim_nil : trim p ([] : List α) = [] := by simp [trim]

theorem trim_eq_nil_iff : trim p l = [] ↔ ∀ x ∈ l, p x = true := by
  rw [trim, List.rdropWhile_eq_nil_iff]
  constructor
  · intro h x hx
    rw [← List.takeWhile_append_dropWhile (p := p) (l := l), List.mem_append] at hx
    rcases hx with hx | hx
    · exact List.mem_takeWhile_imp hx
    · exact h x hx
  · intro h x hx
    exact h x ((List.dropWhile_suffix p).subset hx)

theorem rdropWhile_of_last {x : α} (hx : p x = false) : (l ++ [x]).rdropWhile p = l ++ [x] :=
  List.rdropWhile_concat_neg _ _ _ (by simp [hx])

/-- A trimmed list starts with an element that stays. -/
theorem head_trim {x : α} {t : List α} (h : trim p l = x :: t) : p x = false := by
  have hpre : trim p l <+: l.dropWhile p := List.rdropWhile_prefix p _
  rw [h] at hpre
  obtain ⟨r, hr⟩ := hpre
  exact head_dropWhile hr.symm

/-- A trimmed list ends with an element that stays. -/
theorem last_trim {x : α} {t : List α} (h : trim p l = t ++ [x]) : p x = false := by
  have hne : trim p l ≠ [] := by rw [h]; simp
  have := List.rdropWhile_last_not p (l.dropWhile p) hne
  unfold trim at h
  simp only [h, List.getLast_append_singleton] at this
  simpa using this

theorem trim_eq_self (h1 : ∀ x ∈ l.head?, p x = false) (h2 : ∀ x ∈ l.getLast?, p x = false) :
    trim p l = l := by
  cases hl : l with
  | nil => simp
  | cons x t =>
    have hd : (x :: t).dropWhile p = x :: t := by
      rw [List.dropWhile_cons, h1 x (by simp [hl])]
      simp
    rw [trim, hd]
    have hlast := h2 ((x :: t).getLast (by simp)) (by rw [hl]; exact List.getLast?_eq_getLast_of_ne_nil (by simp))
    rw [← List.dropLast_append_getLast (l := x :: t) (by simp)]
    exact rdropWhile_of_last hlast

theorem trim_trim : trim p (trim p l) = trim p l := by
  apply trim_eq_self
  · intro x hx
    cases ht : trim p l with
    | nil => simp [ht] at hx
    | cons y t =>
      simp only [ht, List.head?_cons, Option.mem_def, Option.some.injEq] at hx
      exact hx ▸ head_trim ht
  · intro x hx
    rw [Option.mem_def, List.getLast?_eq_some_iff] at hx
    obtain ⟨t, ht⟩ := hx
    exact last_trim ht

theorem trim_append_of_all {r : List α} (h : ∀ x ∈ r, p x = true) : trim p (l ++ r) = trim p l := by
  unfold trim
  by_cases hl : ∀ x ∈ l, p x = true
  · have h1 : (l ++ r).dropWhile p = [] := List.dropWhile_eq_nil_iff.2 (by
      intro x hx
      rcases List.mem_append.1 hx with hx | hx
      · exact hl x hx
      · exact h x hx)
    rw [h1, List.dropWhile_eq_nil_iff.2 hl]
  · have hne : l.dropWhile p ≠ [] := by
      rw [Ne, List.dropWhile_eq_nil_iff]
      exact hl
    have h1 : (l ++ r).dropWhile p = l.dropWhile p ++ r := by
      rw [List.dropWhile_append]
      simp [hne]
    rw [h1]
    clear h1
    induction r using List.reverseRecOn with
    | nil => simp
    | append_singleton r x ih =>
      rw [← List.append_assoc, List.rdropWhile_concat_pos _ _ _ (h x (by simp))]
      exact ih (fun y hy => h y (by simp [hy]))

theorem trim_prepend_of_all {r : List α} (h : ∀ x ∈ r, p x = true) : trim p (r ++ l) = trim p l := by
  unfold trim
  rw [List.dropWhile_append_of_pos h]

theorem rdropWhile_decomp (p : α → Bool) (l : List α) :
    ∃ b, l = l.rdropWhile p ++ b ∧ ∀ x ∈ b, p x = true := by
  refine ⟨l.rtakeWhile p, ?_, fun x hx => List.mem_rtakeWhile_imp hx⟩
  induction l using List.reverseRecOn with
  | nil => simp
  | append_singleton l x ih =>
    by_cases hx : p x = true
    · rw [List.rdropWhile_concat_pos _ _ _ hx, List.rtakeWhile_concat_pos _ _ _ hx, ← List.append_assoc,
        ← ih]
    · rw [List.rdropWhile_concat_neg _ _ _ hx, List.rtakeWhile_concat_neg _ _ _ hx, List.append_nil]

/-- A list is its trimmed part between two runs of what was dropped. -/
theorem trim_decomp (p : α → Bool) (l : List α) :
    ∃ a b, l = a ++ trim p l ++ b ∧ (∀ x ∈ a, p x = true) ∧ ∀ x ∈ b, p x = true := by
  obtain ⟨b, hb, hall⟩ := rdropWhile_decomp p (l.dropWhile p)
  refine ⟨l.takeWhile p, b, ?_, fun x hx => List.mem_takeWhile_imp hx, hall⟩
  rw [trim, List.append_assoc, ← hb, List.takeWhile_append_dropWhile]

theorem mem_of_mem_trim {x : α} (h : x ∈ trim p l) : x ∈ l := by
  obtain ⟨a, b, hl, -, -⟩ := trim_decomp p l
  rw [hl]
  simp [h]

theorem mem_trim_of_mem {x : α} (h : x ∈ l) (hx : p x = false) : x ∈ trim p l := by
  obtain ⟨a, b, hl, ha, hb⟩ := trim_decomp p l
  rw [hl] at h
  simp only [List.mem_append] at h
  rcases h with (h | h) | h
  · simp [ha x h] at hx
  · exact h
  · simp [hb x h] at hx

theorem trim_rdropWhile : trim p (l.rdropWhile p) = trim p l := by
  obtain ⟨b, hb, hall⟩ := rdropWhile_decomp p l
  conv_rhs => rw [hb]
  rw [trim_append_of_all hall]

theorem rdropWhile_append_cons {a b : List α} {x : α} (hx : p x = false) :
    (a ++ x :: b).rdropWhile p = a ++ x :: b.rdropWhile p := by
  induction b using List.reverseRecOn with
  | nil => simpa using rdropWhile_of_last (l := a) hx
  | append_singleton b y ih =>
    rw [← List.cons_append, ← List.append_assoc]
    by_cases hy : p y = true
    · rw [List.rdropWhile_concat_pos _ _ _ hy, List.rdropWhile_concat_pos _ _ _ hy, ih]
    · rw [List.rdropWhile_concat_neg _ _ _ hy, List.rdropWhile_concat_neg _ _ _ hy]
      simp

/-- A kept element behind `a` makes the trimmed list longer. -/
theorem length_trim_lt {a b : List α} {x : α} (hx : p x = false) :
    (trim p a).length < (trim p (a ++ x :: b)).length := by
  have hle : (trim p a).length ≤ (a.dropWhile p).length := (List.rdropWhile_prefix p _).length_le
  have hd : (a ++ x :: b).dropWhile p = a.dropWhile p ++ x :: b := by
    rw [List.dropWhile_append]
    split
    · next h =>
      rw [List.isEmpty_iff] at h
      rw [h, List.nil_append, List.dropWhile_cons, hx]
      simp
    · rfl
  rw [trim, trim, hd, rdropWhile_append_cons hx, List.length_append, List.length_cons]
  unfold trim at hle
  omega

end Slice
