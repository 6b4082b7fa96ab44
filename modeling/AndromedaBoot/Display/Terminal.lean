import AndromedaBoot.Display.Console

/-!
# The console as a terminal

`Terminal` is a plain terminal with the console's columns and lines: a character is drawn in one cell, and a full
screen is cleared. The console differs from it in one place only: on a screen it has just cleared it takes the byte
again (`putChars_eq_runAgain`), so a character that fills the screen is drawn on the new one, too, and a line feed
that does so leaves the first line of the new screen empty (`receiveAgain_eq_receive_iff`).
-/

namespace Andromeda

/-- A terminal whose rows are `step` lines apart. -/
structure Terminal where
  columns : Nat
  lines : Nat
  step : Nat

namespace Terminal

variable (t : Terminal)

/-- Go to the next row, or to the first one of a cleared screen. -/
def nextRow (y : Int) : List FbEvent × FbconPosition :=
  if y + t.step ≥ t.lines - (t.step : Int) then ([.clear], ⟨0, 0⟩) else ([], ⟨0, y + t.step⟩)

/-- A printable byte is drawn and moves right, LF goes to the next row, CR to the first column. -/
def receive (c : BitVec 8) (p : FbconPosition) : List FbEvent × FbconPosition :=
  if c = 10#8 then t.nextRow p.y
  else if c = 13#8 then ([], ⟨0, p.y⟩)
  else if 32 ≤ c.toNat ∧ c.toNat ≤ 127 ∧ ¬ (c = 32#8 ∧ p.x = 0) then
    if p.x + 1 < t.columns then ([.glyph ((c.toNat - 32) * 2) p], ⟨p.x + 1, p.y⟩)
    else (.glyph ((c.toNat - 32) * 2) p :: (t.nextRow p.y).1, (t.nextRow p.y).2)
  else ([], p)

/-- The same, but a byte that clears the screen is received again on the cleared one. -/
def receiveAgain (c : BitVec 8) (p : FbconPosition) : List FbEvent × FbconPosition :=
  if .clear ∈ (t.receive c p).1 then ((t.receive c p).1 ++ (t.receive c ⟨0, 0⟩).1, (t.receive c ⟨0, 0⟩).2)
  else t.receive c p

/-- Receive one byte after the other. -/
def run (step : BitVec 8 → FbconPosition → List FbEvent × FbconPosition) :
    List (BitVec 8) → FbconPosition → List FbEvent × FbconPosition
  | [], p => ([], p)
  | c :: bytes, p => ((step c p).1 ++ (run step bytes (step c p).2).1, (run step bytes (step c p).2).2)

variable {t} {c : BitVec 8} {p : FbconPosition}

theorem nextRow_clear {y : Int} (h : .clear ∈ (t.nextRow y).1) : (t.nextRow y).2 = ⟨0, 0⟩ := by
  unfold nextRow at h ⊢
  split_ifs at h ⊢ with hfull
  · rfl
  · exact absurd h List.not_mem_nil

theorem receive_clear (h : .clear ∈ (t.receive c p).1) :
    (t.receive c p).2 = ⟨0, 0⟩ ∧ (c = 10#8 ∨ 32 ≤ c.toNat ∧ c.toNat ≤ 127) := by
  unfold receive at h ⊢
  split_ifs at h ⊢ with hlf hcr hprint hwide
  · exact ⟨nextRow_clear h, .inl hlf⟩
  · exact absurd h List.not_mem_nil
  · simp at h
  · refine ⟨nextRow_clear ?_, .inr ⟨hprint.1, hprint.2.1⟩⟩
    simpa using h
  · exact absurd h List.not_mem_nil

theorem receive_printable_ne_nil (h : 32 ≤ c.toNat ∧ c.toNat ≤ 127 ∧ ¬ (c = 32#8 ∧ p.x = 0)) : (t.receive c p).1 ≠ [] := by
  have hlf : c ≠ 10#8 := by bv_omega
  have hcr : c ≠ 13#8 := by bv_omega
  unfold receive
  rw [if_neg hlf, if_neg hcr, if_pos h]
  split_ifs
  · exact List.cons_ne_nil _ _
  · exact List.cons_ne_nil _ _

/-- Where the two terminals differ: on a byte, other than a space, that clears the screen. -/
theorem receiveAgain_eq_receive_iff (hstep : 1 ≤ t.step) (hlines : 2 * t.step < t.lines) :
    t.receiveAgain c p = t.receive c p ↔ .clear ∈ (t.receive c p).1 → c = 32#8 := by
  by_cases hclear : .clear ∈ (t.receive c p).1
  · obtain ⟨hposition, hbyte⟩ := receive_clear hclear
    have hrow : t.nextRow 0 = ([], ⟨0, t.step⟩) := by
      refine (if_neg ?_).trans ?_
      · omega
      · rw [Int.zero_add]
    rw [receiveAgain, if_pos hclear]
    constructor
    · intro heq _
      have hnone : (t.receive c ⟨0, 0⟩).1 = [] := List.append_right_eq_self.1 (congrArg (·.1) heq)
      have hend : (t.receive c ⟨0, 0⟩).2 = ⟨0, 0⟩ := (congrArg (·.2) heq).trans hposition
      rcases hbyte with rfl | hprint
      · have hlf : t.receive 10#8 ⟨0, 0⟩ = t.nextRow 0 := if_pos rfl
        rw [hlf, hrow, FbconPosition.mk.injEq] at hend
        omega
      · by_contra hc
        refine receive_printable_ne_nil ⟨hprint.1, hprint.2, fun h => hc h.1⟩ hnone
    · intro h
      obtain rfl := h hclear
      have hskip : t.receive 32#8 ⟨0, 0⟩ = ([], ⟨0, 0⟩) := by
        simp [receive]
      rw [hskip, List.append_nil, ← hposition]
  · rw [receiveAgain, if_neg hclear]
    exact iff_of_true rfl fun h => absurd h hclear

end Terminal

/-- The terminal of a console. -/
def FrameBuffer.terminal (fb : FrameBuffer) (scaleFactor : BitVec 32) : Terminal where
  columns := fb.width.toNat / 6 / scaleFactor.toNat
  lines := (fb.height.toNat - 1) / 12
  step := scaleFactor.toNat

variable {fb : FrameBuffer} {scaleFactor : BitVec 32} {c : BitVec 8} {p : FbconPosition}

theorem newline_eq_nextRow (h : 1 ≤ fb.height.toNat) (events : List FbEvent) (y : Int) :
    newline fb scaleFactor events y =
      (events ++ ((fb.terminal scaleFactor).nextRow y).1, ((fb.terminal scaleFactor).nextRow y).2,
        decide (.clear ∈ ((fb.terminal scaleFactor).nextRow y).1)) := by
  have hmax := maxY_eq h
  by_cases hfull : y + scaleFactor.toNat ≥ fb.maxY - scaleFactor.toNat
  · have hrow : (fb.terminal scaleFactor).nextRow y = ([.clear], ⟨0, 0⟩) := if_pos (hmax ▸ hfull)
    rw [hrow]
    exact if_pos hfull
  · have hrow : (fb.terminal scaleFactor).nextRow y = ([], ⟨0, y + scaleFactor.toNat⟩) := if_neg (hmax ▸ hfull)
    rw [hrow, List.append_nil]
    exact if_neg hfull

/-- A round of the console is what its terminal does. -/
theorem paint_eq_receive (h : 1 ≤ fb.height.toNat) (c : BitVec 8) (p : FbconPosition) :
    paint fb scaleFactor c .common p = (((fb.terminal scaleFactor).receive c p).1, ((fb.terminal scaleFactor).receive c p).2,
      decide (.clear ∈ ((fb.terminal scaleFactor).receive c p).1)) := by
  have hcolumns : (fb.terminal scaleFactor).columns = fb.width.toNat / 6 / scaleFactor.toNat := rfl
  unfold paint Terminal.receive
  rw [columns_eq, hcolumns]
  rcases Nat.lt_or_ge c.toNat 32 with hlow | hhigh
  · have hascii : ¬ c.toNat > 127 := by omega
    have hprint : ¬ (32 ≤ c.toNat ∧ c.toNat ≤ 127 ∧ ¬ (c = 32#8 ∧ p.x = 0)) := fun h => absurd h.1 (by omega)
    by_cases hlf : c = 10#8
    · simp only [if_neg hascii, if_pos hlow, if_pos hlf]
      exact newline_eq_nextRow h [] p.y
    · by_cases hcr : c = 13#8
      · simp only [if_neg hascii, if_pos hlow, if_neg hlf, if_pos hcr]
        rfl
      · simp only [if_neg hascii, if_pos hlow, if_neg hlf, if_neg hcr, if_neg hprint]
        rfl
  · have hlf : c ≠ 10#8 := by bv_omega
    have hcr : c ≠ 13#8 := by bv_omega
    have hcontrol : ¬ c.toNat < 32 := by omega
    by_cases hascii : c.toNat > 127
    · have hprint : ¬ (32 ≤ c.toNat ∧ c.toNat ≤ 127 ∧ ¬ (c = 32#8 ∧ p.x = 0)) := fun h => absurd h.2.1 (by omega)
      simp only [if_pos hascii, if_neg hlf, if_neg hcr, if_neg hprint]
      rfl
    · by_cases hspace : c = 32#8 ∧ p.x = 0
      · have hskip : p.x = 0 ∧ c = 32#8 ∧ FbConMsgType.common ≠ .subtitle ∧ FbConMsgType.common ≠ .title :=
          ⟨hspace.2, hspace.1, by decide, by decide⟩
        have hprint : ¬ (32 ≤ c.toNat ∧ c.toNat ≤ 127 ∧ ¬ (c = 32#8 ∧ p.x = 0)) := fun h => h.2.2 hspace
        simp only [if_neg hascii, if_neg hcontrol, if_pos hskip, if_neg hlf, if_neg hcr, if_neg hprint]
        rfl
      · have hskip : ¬ (p.x = 0 ∧ c = 32#8 ∧ FbConMsgType.common ≠ .subtitle ∧ FbConMsgType.common ≠ .title) :=
          fun h => hspace ⟨h.2.1, h.1⟩
        have hprint : 32 ≤ c.toNat ∧ c.toNat ≤ 127 ∧ ¬ (c = 32#8 ∧ p.x = 0) := ⟨hhigh, by omega, hspace⟩
        by_cases hlast : p.x + 1 ≥ (fb.width.toNat / 6 / scaleFactor.toNat : Nat)
        · simp only [if_neg hascii, if_neg hcontrol, if_neg hskip, if_neg hlf, if_neg hcr, if_pos hprint, if_pos hlast,
            if_neg (Int.not_lt.2 hlast)]
          rw [newline_eq_nextRow h]
          simp
        · simp only [if_neg hascii, if_neg hcontrol, if_neg hskip, if_neg hlf, if_neg hcr, if_pos hprint, if_neg hlast,
            if_pos (Int.not_le.1 hlast)]
          rfl

/-- The console is a terminal that receives a byte again when it has cleared the screen. -/
theorem fbConPutCharWithFactor_eq_receiveAgain (hrows : 2 * scaleFactor.toNat < (fb.height.toNat - 1) / 12) (c : BitVec 8)
    (p : FbconPosition) :
    fbConPutCharWithFactor fb scaleFactor c .common 2 p = some ((fb.terminal scaleFactor).receiveAgain c p) := by
  rw [fbConPutCharWithFactor_eq hrows, paint_eq_receive (by omega), paint_eq_receive (by omega)]
  simp only [decide_eq_true_eq]
  rfl

/-- **The console is a terminal**, whatever bytes it is given, but for the byte that it takes again. -/
theorem putChars_eq_runAgain (hrows : 2 * scaleFactor.toNat < (fb.height.toNat - 1) / 12) (bytes : List (BitVec 8)) :
    putChars fb scaleFactor 2 (bytes.map fun c => (c, .common)) ⟨0, 0⟩ =
      some (Terminal.run (fb.terminal scaleFactor).receiveAgain bytes ⟨0, 0⟩) := by
  generalize (⟨0, 0⟩ : FbconPosition) = p
  induction bytes generalizing p with
  | nil => rfl
  | cons c bytes ih =>
    rw [List.map_cons, putChars, fbConPutCharWithFactor_eq_receiveAgain hrows, Option.bind_eq_bind, Option.bind_some]
    dsimp only
    rw [ih]
    rfl

/-- A screen of two columns and two rows. -/
def smallFrameBuffer : FrameBuffer := ⟨0x1000#64, 12#32, 37#32, 32#32⟩

theorem putChars_eq_runAgain_small :
    putChars smallFrameBuffer 1#32 2 ([65#8, 66#8, 67#8, 68#8].map fun c => (c, .common)) ⟨0, 0⟩ =
      some (Terminal.run (smallFrameBuffer.terminal 1#32).receiveAgain [65#8, 66#8, 67#8, 68#8] ⟨0, 0⟩) :=
  putChars_eq_runAgain (by decide) [65#8, 66#8, 67#8, 68#8]

/-- The last of four characters fills the screen: it is drawn again on the cleared screen, and the cursor moves on. -/
theorem putChars_ne_run : putChars smallFrameBuffer 1#32 2 ([65#8, 66#8, 67#8, 68#8].map fun c => (c, .common)) ⟨0, 0⟩ ≠
    some (Terminal.run (smallFrameBuffer.terminal 1#32).receive [65#8, 66#8, 67#8, 68#8] ⟨0, 0⟩) := by
  decide +kernel

end Andromeda
