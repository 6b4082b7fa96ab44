import AndromedaBoot.Lib.Slice

/-!
# A line loop with early exit

`lineLoop` is the loop of a line-oriented scanner: find the end of the current line, run a body on
the index range of the line, go on behind the separator. The body carries a state and may leave the
loop with a result (`Except.error`). `lineLoop_sim` replaces it by a fold over the list of lines: it
is enough that the body simulates, line by line, a step function that sees only the line's contents.
-/

namespace Lines

open Slice

variable {α σ τ ρ ρ' : Type*} [DecidableEq α]

/-- `while (i < |l|) { e = end of line; body (i, e); i = (e < |l|) ? e + 1 : |l|; }`. Every round
moves `i` forward, so `|l|` rounds are always enough. -/
def lineLoop (sep : α) (l : List α) (body : Nat → Nat → σ → Except ρ σ) : Nat → Nat → σ → Except ρ σ
  | 0, _, s => .ok s
  | n + 1, i, s =>
    if i < l.length then
      let e := skipWhile (· != sep) l i l.length
      match body i e s with
      | .error r => .error r
      | .ok s' => lineLoop sep l body n (if e < l.length then e + 1 else l.length) s'
    else .ok s

/-- Run a step over a list of lines, stopping at the first exit. -/
def foldLines {β : Type*} (f : β → τ → Except ρ τ) : List β → τ → Except ρ τ
  | [], t => .ok t
  | x :: xs, t => match f x t with
    | .error r => .error r
    | .ok t' => foldLines f xs t'

/-- Two outcomes agree: both leave the loop with related results, or both go on with related
states. -/
inductive Sim (E : ρ → ρ' → Prop) (R : σ → τ → Prop) : Except ρ σ → Except ρ' τ → Prop
  | exit {r r'} : E r r' → Sim E R (.error r) (.error r')
  | cont {s t} : R s t → Sim E R (.ok s) (.ok t)

theorem drop_eq_line (sep : α) {l : List α} {i : Nat} :
    let e := skipWhile (· != sep) l i l.length
    (e < l.length → (l.drop i).splitOn sep = slice l i e :: (l.drop (e + 1)).splitOn sep) ∧
    (¬ e < l.length → i ≤ l.length → (l.drop i).splitOn sep = [slice l i e]) := by
  intro e
  have hfree : i ≤ l.length → sep ∉ slice l i e := by
    intro hi hm
    rw [slice_to_skipWhile hi (le_refl _)] at hm
    simpa using List.mem_takeWhile_imp hm
  constructor
  · intro he
    by_cases hi : i ≤ l.length
    · have h1 := slice_from_skipWhile (p := (· != sep)) (l := l) (i := i) (le_refl _)
      obtain ⟨x, hx, hc⟩ := slice_cons (l := l) he (le_refl _)
      have hxs : x = sep := by
        have := head_dropWhile (h1.symm.trans hc)
        simpa using this
      subst hxs
      rw [← slice_to_end, ← slice_append_slice (l := l) (le_skipWhile (le_refl _))
        (skipWhile_le (p := (· != x)) hi (le_refl _)), hc,
        List.splitOn_append_cons_self_of_not_mem (hfree hi), slice_to_end]
    · exact absurd (le_skipWhile (p := (· != sep)) (l := l) (i := i) (le_refl _)) (by
        have : e < l.length := he
        omega)
  · intro he hi
    have hle : e = l.length := by
      have := skipWhile_le (p := (· != sep)) hi (le_refl _)
      omega
    rw [← slice_to_end, ← hle]
    exact List.splitOn_eq_singleton (hfree hi)

/-- **The line loop is a fold over the lines.** -/
theorem lineLoop_sim (sep : α) {l : List α} {body : Nat → Nat → σ → Except ρ σ}
    {f : List α → τ → Except ρ' τ} {E : ρ → ρ' → Prop} {R : σ → τ → Prop}
    (hbody : ∀ i e s t, i ≤ e → e ≤ l.length → R s t → Sim E R (body i e s) (f (slice l i e) t))
    (hnil : ∀ t, f [] t = .ok t) :
    ∀ (n i : Nat) (s : σ) (t : τ), i ≤ l.length → l.length ≤ i + n → R s t →
      Sim E R (lineLoop sep l body n i s) (foldLines f ((l.drop i).splitOn sep) t) := by
  intro n
  induction n with
  | zero =>
    intro i s t hi hn hR
    rw [List.drop_eq_nil_of_le (by omega), List.splitOn_nil]
    simpa [lineLoop, foldLines, hnil] using Sim.cont hR
  | succ n ih =>
    intro i s t hi hn hR
    by_cases hlt : i < l.length
    · simp only [lineLoop, hlt, ↓reduceIte]
      obtain ⟨hcut, hlast⟩ := drop_eq_line sep (l := l) (i := i)
      have hile := le_skipWhile (p := (· != sep)) (l := l) (i := i) (le_refl _)
      have hele := skipWhile_le (p := (· != sep)) hi (le_refl l.length)
      have hb := hbody i _ s t hile hele hR
      generalize skipWhile (· != sep) l i l.length = e at *
      generalize body i e s = b at hb
      generalize hc : f (slice l i e) t = c at hb
      by_cases he : e < l.length
      · rw [hcut he, foldLines, hc]
        cases hb with
        | exit h => exact .exit h
        | cont h =>
          simp only [he, ↓reduceIte]
          exact ih _ _ _ (by omega) (by omega) h
      · rw [hlast he hi, foldLines, hc]
        cases hb with
        | exit h => exact .exit h
        | cont h =>
          simp only [he, ↓reduceIte, foldLines]
          have := ih l.length _ _ (le_refl _) (by omega) h
          simpa [foldLines, hnil] using this
    · rw [List.drop_eq_nil_of_le (by omega), List.splitOn_nil]
      simpa [lineLoop, hlt, foldLines, hnil] using Sim.cont hR

theorem foldLines_map {β γ : Type*} (f : γ → τ → Except ρ τ) (g : β → γ) (xs : List β) (t : τ) :
    foldLines (fun x => f (g x)) xs t = foldLines f (xs.map g) t := by
  induction xs generalizing t with
  | nil => rfl
  | cons x xs ih =>
    simp only [List.map_cons, foldLines]
    cases f (g x) t with
    | error r => rfl
    | ok t' => exact ih t'

/-! ## The lines of an extended text -/

/-- A text is one line, or a line, a separator and another text. -/
theorem splitOn_cases (sep : α) (l : List α) :
    (sep ∉ l ∧ l.splitOn sep = [l]) ∨
      ∃ a b, l = a ++ sep :: b ∧ sep ∉ a ∧ l.splitOn sep = a :: b.splitOn sep := by
  by_cases h : sep ∈ l
  · obtain ⟨a, b, rfl, ha⟩ := List.eq_append_cons_of_mem h
    exact .inr ⟨a, b, rfl, ha, List.splitOn_append_cons_self_of_not_mem ha b⟩
  · exact .inl ⟨h, List.splitOn_eq_singleton h⟩

theorem mem_of_mem_splitOn {sep x : α} {l line : List α} (h : line ∈ l.splitOn sep) (hx : x ∈ line) :
    x ∈ l := by
  induction hn : l.length using Nat.strong_induction_on generalizing l with
  | _ n ih =>
    rcases splitOn_cases sep l with ⟨-, hs⟩ | ⟨a, b, rfl, -, hs⟩
    · rw [hs, List.mem_singleton] at h
      exact h ▸ hx
    · rw [hs, List.mem_cons] at h
      rcases h with rfl | h
      · simp [hx]
      · have := ih b.length (by simp at hn; omega) h rfl
        simp [this]

/-- The lines that end in a separator. -/
def closedLines (sep : α) (l : List α) : List (List α) := (l.splitOn sep).dropLast

/-- What follows the last separator. -/
def lastLine (sep : α) (l : List α) : List α := (l.splitOn sep).getLastD []

theorem splitOn_eq_closed (sep : α) (l : List α) :
    l.splitOn sep = closedLines sep l ++ [lastLine sep l] := by
  have hne := List.splitOn_ne_nil sep l
  rw [closedLines, lastLine, List.getLastD_eq_getLast?, List.getLast?_eq_some_getLast hne,
    Option.getD_some,
    List.dropLast_append_getLast hne]

/-- Text appended behind a list only changes its last line. -/
theorem splitOn_append (sep : α) (l ext : List α) :
    (l ++ ext).splitOn sep = closedLines sep l ++ (lastLine sep l ++ ext).splitOn sep := by
  induction hn : l.length using Nat.strong_induction_on generalizing l with
  | _ n ih =>
    rcases splitOn_cases sep l with ⟨-, hs⟩ | ⟨a, b, rfl, ha, hs⟩
    · simp [closedLines, lastLine, hs]
    · have hb := ih b.length (by simp at hn; omega) b rfl
      have hc := splitOn_eq_closed sep b
      have hclosed : closedLines sep (a ++ sep :: b) = a :: closedLines sep b := by
        rw [closedLines, hs, hc, ← List.cons_append, List.dropLast_concat]
      have hlast : lastLine sep (a ++ sep :: b) = lastLine sep b := by
        rw [lastLine, hs, hc, ← List.cons_append, List.getLastD_concat]
      rw [hclosed, hlast, List.append_assoc, List.cons_append,
        List.splitOn_append_cons_self_of_not_mem ha, hb,
        List.cons_append]

theorem sep_notMem_line {sep : α} {l line : List α} (h : line ∈ l.splitOn sep) : sep ∉ line := by
  induction hn : l.length using Nat.strong_induction_on generalizing l with
  | _ n ih =>
    rcases splitOn_cases sep l with ⟨hsep, hs⟩ | ⟨a, b, rfl, ha, hs⟩
    · rw [hs, List.mem_singleton] at h
      exact h ▸ hsep
    · rw [hs, List.mem_cons] at h
      rcases h with rfl | h
      · exact ha
      · exact ih b.length (by simp at hn; omega) h rfl

theorem sep_notMem_lastLine (sep : α) (l : List α) : sep ∉ lastLine sep l :=
  sep_notMem_line (l := l) (by rw [splitOn_eq_closed]; simp)

/-- The first line of an extended line. -/
theorem splitOn_append_head {sep : α} {a : List α} (ha : sep ∉ a) (ext : List α) :
    ∃ e rest, (a ++ ext).splitOn sep = (a ++ e) :: rest := by
  rcases splitOn_cases sep ext with ⟨hsep, -⟩ | ⟨e, r, rfl, he, -⟩
  · exact ⟨ext, [], List.splitOn_eq_singleton (by simp [ha, hsep])⟩
  · refine ⟨e, r.splitOn sep, ?_⟩
    rw [← List.append_assoc, List.splitOn_append_cons_self_of_not_mem (by simp [ha, he])]

end Lines
