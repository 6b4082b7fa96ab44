import AndromedaBoot.Errata.Redirect

/-!
# Both redirections on one kernel (OsLoaderIntercepter.c :41-47)

`OslArm64TransferToKernelShellCode` has the bytes of `IRM` and right behind them those of `IRM_X8`. Each
searches the kernel as the one before has left it, and both put their trampoline in front of a marker of the
same value. `StandsAt` follows a trampoline through the writes: it is whole in the end if it was written as a
whole and nothing was written over it, since no part of a trampoline begins like a trampoline.
-/

namespace Andromeda

open Arm64 ByteMemory InPlace

/-! ## Areas -/

/-- The address the branch at `gicInstr` leads to. -/
def Places.target (p : Places) : BitVec 64 :=
  p.gicInstr + branchOffset (((p.codeLocation - p.gicInstr) / 4#64).setWidth 26)

/-- An address is in the 92 bytes of the trampoline at `a`. -/
def InArea (a x : BitVec 64) : Prop := (x - a).toNat < 92

/-- The trampolines at `a` and `b` have no byte in common. -/
def AreasApart (a b : BitVec 64) : Prop := ¬ InArea a b ∧ ¬ InArea b a

instance : DecidableRel InArea := fun a x => inferInstanceAs (Decidable ((x - a).toNat < 92))

instance : DecidableRel AreasApart := fun a b => inferInstanceAs (Decidable (¬ InArea a b ∧ ¬ InArea b a))

namespace SgiSource

variable {r r' : SgiSource} {m : ByteMemory} {a b x : BitVec 64} {p : Places}

/-- Only the first word of a trampoline saves the frame. -/
theorem trampoline_stp (r : SgiSource) {i : Nat} (hi : i < 23) : r.trampoline[i]? = some 0xA9BF7BFD#32 ↔ i = 0 := by
  cases r <;> interval_cases i <;> decide +kernel

theorem trampoline_no_branch (r : SgiSource) {w : BitVec 32} (h : w ∈ r.trampoline) :
    w.extractLsb' 26 6 ≠ 0b100101#6 := by
  have hall : r.trampoline.all (fun w => w.extractLsb' 26 6 != 0b100101#6) = true := by
    cases r <;> decide +kernel
  simpa using List.all_eq_true.1 hall w h

/-- A word of the trampoline, as `HoldsWords` gives it. -/
theorem holdsWords_iff (r : SgiSource) : HoldsWords m a r.trampoline ↔
    ∀ i < 23, r.trampoline[i]? = some (m.read32 (a + BitVec.ofNat 64 (4 * i))) := by
  constructor
  · intro h i hi
    have hi' : i < r.trampoline.length := by rwa [length_trampoline]
    rw [h i hi', List.getElem?_eq_getElem hi']
  · intro h i hi
    have hword := h i (by rwa [length_trampoline] at hi)
    rw [List.getElem?_eq_getElem hi, Option.some.injEq] at hword
    exact hword.symm

/-! A word of the grid after a trampoline is written. -/

theorem read32_inArea (h : (x - b).toNat % 4 = 0) (hin : InArea b x) :
    r.trampoline[(x - b).toNat / 4]? = some ((m.writeWords b r.trampoline).read32 x) := by
  have hlen := r.length_trampoline
  unfold InArea at hin
  rw [read32_writeWords _ (by omega) h, List.getElem?_eq_getElem (by omega), Option.getD_some]

theorem read32_not_inArea (h : (x - b).toNat % 4 = 0) (hout : ¬ InArea b x) :
    (m.writeWords b r.trampoline).read32 x = m.read32 x := by
  have hlen := r.length_trampoline
  unfold InArea at hout
  rw [read32_writeWords _ (by omega) h, List.getElem?_eq_none (by omega), Option.getD_none]

theorem holdsWords_congr {m' : ByteMemory}
    (h : ∀ i < 23, m.read32 (a + BitVec.ofNat 64 (4 * i)) = m'.read32 (a + BitVec.ofNat 64 (4 * i))) :
    HoldsWords m a r.trampoline ↔ HoldsWords m' a r.trampoline := by
  rw [holdsWords_iff, holdsWords_iff]
  exact forall₂_congr fun i hi => by rw [h i hi]

/-- The two trampolines differ in their third word. -/
theorem holdsWords_unique (h : HoldsWords m a r.trampoline) (h' : HoldsWords m a r'.trampoline) : r = r' := by
  have hthird := (r.holdsWords_iff.1 h 2 (by decide)).trans (r'.holdsWords_iff.1 h' 2 (by decide)).symm
  cases r <;> cases r'
  · rfl
  · exact absurd hthird (by decide +kernel)
  · exact absurd hthird (by decide +kernel)
  · rfl

theorem holdsWords_of_apart (hgrid : (a - b).toNat % 4 = 0) (hapart : AreasApart a b) :
    HoldsWords (m.writeWords b r'.trampoline) a r.trampoline ↔ HoldsWords m a r.trampoline := by
  obtain ⟨hab, hba⟩ := hapart
  refine holdsWords_congr fun i hi => read32_not_inArea (by bv_omega) ?_
  unfold InArea at hab hba ⊢
  bv_omega

/-- Where two trampolines overlap, the first word of one is not the first of the other. -/
theorem not_holdsWords_of_overlap (hgrid : (a - b).toNat % 4 = 0) (hne : a ≠ b) (hover : ¬ AreasApart a b) :
    ¬ HoldsWords (m.writeWords b r'.trampoline) a r.trampoline := by
  intro h
  have hlen := r'.length_trampoline
  rw [holdsWords_iff] at h
  by_cases hin : InArea b a
  · have hfirst := h 0 (by decide)
    rw [(r.trampoline_stp (by decide)).2 rfl, Nat.mul_zero, BitVec.add_zero] at hfirst
    have hword := read32_inArea (m := m) (r := r') hgrid hin
    rw [← hfirst, trampoline_stp] at hword
    · bv_omega
    · unfold InArea at hin
      omega
  · have hin' : InArea a b := by
      by_contra hout
      exact hover ⟨hout, hin⟩
    have hoff : (b - a).toNat / 4 < 23 ∧ (b - a).toNat / 4 ≠ 0 ∧ b = a + BitVec.ofNat 64 (4 * ((b - a).toNat / 4)) := by
      unfold InArea at hin'
      bv_omega
    have hfirst := r'.holdsWords_iff.1 (holdsWords_writeWords m b (by omega)) 0 (by decide)
    rw [(r'.trampoline_stp (by decide)).2 rfl, Nat.mul_zero, BitVec.add_zero] at hfirst
    have hword := h ((b - a).toNat / 4) hoff.1
    rw [← hoff.2.2, ← hfirst, trampoline_stp _ hoff.1] at hword
    exact hoff.2.1 hword

/-- A trampoline that is whole after another is written is that one, or was whole before and is not touched. -/
theorem holdsWords_trampoline (hgrid : (a - b).toNat % 4 = 0) :
    HoldsWords (m.writeWords b r'.trampoline) a r.trampoline ↔
      (a = b ∧ r = r') ∨ (AreasApart a b ∧ HoldsWords m a r.trampoline) := by
  have hself : HoldsWords (m.writeWords b r'.trampoline) b r'.trampoline :=
    holdsWords_writeWords m b (by rw [length_trampoline]; decide)
  by_cases hab : a = b
  · subst hab
    have hnot : ¬ AreasApart a a := by
      rintro ⟨h, -⟩
      exact h (by simp [InArea])
    constructor
    · exact fun h => .inl ⟨rfl, holdsWords_unique h hself⟩
    · rintro (⟨-, rfl⟩ | ⟨h, -⟩)
      · exact hself
      · exact absurd h hnot
  · by_cases hapart : AreasApart a b
    · rw [holdsWords_of_apart hgrid hapart]
      simp [hab, hapart]
    · simp [hab, hapart, not_holdsWords_of_overlap hgrid hab hapart]

/-- A trampoline has no branch with a link, so it is not whole after one is written into it. -/
theorem holdsWords_write32 {w : BitVec 32} (hw : w.extractLsb' 26 6 = 0b100101#6) (hgrid : (x - a).toNat % 4 = 0) :
    HoldsWords (m.write32 x w) a r.trampoline ↔ ¬ InArea a x ∧ HoldsWords m a r.trampoline := by
  by_cases hin : InArea a x
  · have hoff : (x - a).toNat / 4 < 23 ∧ x = a + BitVec.ofNat 64 (4 * ((x - a).toNat / 4)) := by
      unfold InArea at hin
      bv_omega
    have hnot : ¬ HoldsWords (m.write32 x w) a r.trampoline := by
      intro h
      have hword := r.holdsWords_iff.1 h ((x - a).toNat / 4) hoff.1
      rw [← hoff.2, read32_write32] at hword
      exact r.trampoline_no_branch (List.mem_of_getElem? hword) hw
    simp [hin, hnot]
  · have hsame : HoldsWords (m.write32 x w) a r.trampoline ↔ HoldsWords m a r.trampoline := by
      refine holdsWords_congr ?_
      intro i hi
      unfold InArea at hin
      rw [read32_write32_grid w (by bv_omega), if_neg (by bv_omega)]
    simp [hin, hsame]

/-- The trampolines that are whole after a redirection. -/
theorem holdsWords_patchAt_iff (hcode : (a - p.codeLocation).toNat % 4 = 0) (hsite : (p.gicInstr - a).toNat % 4 = 0) :
    HoldsWords (r'.patchAt p m) a r.trampoline ↔ (a = p.codeLocation ∧ r = r') ∨
      (AreasApart a p.codeLocation ∧ ¬ InArea a p.gicInstr ∧ HoldsWords m a r.trampoline) := by
  rw [patchAt_eq, holdsWords_trampoline hcode, holdsWords_write32 (branch_top _ _) hsite]

/-! The words of the grid after a redirection. -/

theorem read32_patchAt_inArea (hgrid : (x - p.codeLocation).toNat % 4 = 0) (hin : InArea p.codeLocation x) :
    (r.patchAt p m).read32 x ∈ r.trampoline := by
  rw [patchAt_eq]
  exact List.mem_of_getElem? (read32_inArea hgrid hin)

theorem read32_patchAt (hgrid : (x - p.codeLocation).toNat % 4 = 0) (hsite : (x - p.gicInstr).toNat % 4 = 0)
    (hout : ¬ InArea p.codeLocation x) : (r.patchAt p m).read32 x =
      if x = p.gicInstr then branchLocationInstruction p.gicInstr p.codeLocation else m.read32 x := by
  rw [patchAt_eq, read32_not_inArea hgrid hout, read32_write32_grid _ hsite]

end SgiSource

/-! ## One redirection after the other -/

/-- A redirection: the register of the write, and the places that are found for it. -/
structure Redirection where
  reg : SgiSource
  places : Places
deriving DecidableEq

/-- The memory after some redirections, the last of them first in the list. -/
def redirectAll (m : ByteMemory) : List Redirection → ByteMemory
  | [] => m
  | d :: earlier => d.reg.patchAt d.places (redirectAll m earlier)

/-- A trampoline for `r` stands at `a` after some redirections: one of them has put it there and no later one has
written to it, or it was there before and none has written to it. -/
def StandsAt (m : ByteMemory) (r : SgiSource) (a : BitVec 64) : List Redirection → Prop
  | [] => HoldsWords m a r.trampoline
  | d :: earlier => (a = d.places.codeLocation ∧ r = d.reg) ∨
      (AreasApart a d.places.codeLocation ∧ ¬ InArea a d.places.gicInstr ∧ StandsAt m r a earlier)

/-- The redirection is on the grid of a module. -/
structure Redirection.OnGrid (base : BitVec 64) (d : Redirection) : Prop where
  gicInstr : (d.places.gicInstr - base).toNat % 4 = 0
  codeLocation : (d.places.codeLocation - base).toNat % 4 = 0

variable {m : ByteMemory} {base a : BitVec 64} {r : SgiSource} {d : Redirection} {l : List Redirection}

theorem holdsWords_redirectAll (hl : ∀ d ∈ l, d.OnGrid base) (ha : (a - base).toNat % 4 = 0) :
    HoldsWords (redirectAll m l) a r.trampoline ↔ StandsAt m r a l := by
  induction l with
  | nil => rfl
  | cons d earlier ih =>
    obtain ⟨hsite, hcode⟩ := hl d List.mem_cons_self
    rw [redirectAll, StandsAt, SgiSource.holdsWords_patchAt_iff (by bv_omega) (by bv_omega),
      ih fun e he => hl e (List.mem_cons_of_mem d he)]

/-- No two sites are the same, and none is in the trampoline of an earlier redirection. -/
def SitesApart (l : List Redirection) : Prop :=
  l.Pairwise fun d e => d.places.gicInstr ≠ e.places.gicInstr ∧ ¬ InArea e.places.codeLocation d.places.gicInstr

/-- The branch stays if its site is in no trampoline. -/
theorem read32_site (hl : ∀ d ∈ l, d.OnGrid base) (hsites : SitesApart l) (hd : d ∈ l)
    (hout : ∀ e ∈ l, ¬ InArea e.places.codeLocation d.places.gicInstr) :
    (redirectAll m l).read32 d.places.gicInstr = branchLocationInstruction d.places.gicInstr d.places.codeLocation := by
  induction l with
  | nil => simp at hd
  | cons e earlier ih =>
    obtain ⟨hfirst, hrest⟩ := List.pairwise_cons.1 hsites
    have hgrid := hl e List.mem_cons_self
    have hgrid' := hl d hd
    obtain ⟨hsite, hcode⟩ := hgrid
    have hsite' := hgrid'.gicInstr
    rw [redirectAll, SgiSource.read32_patchAt (by bv_omega) (by bv_omega) (hout e List.mem_cons_self)]
    rcases List.mem_cons.1 hd with rfl | hd'
    · rw [if_pos rfl]
    · rw [if_neg fun heq => (hfirst d hd').1 heq.symm]
      exact ih (fun e' he' => hl e' (List.mem_cons_of_mem e he')) hrest hd' fun e' he' => hout e' (List.mem_cons_of_mem e he')

/-- Otherwise a word of a trampoline is there. -/
theorem read32_site_inArea (hl : ∀ d ∈ l, d.OnGrid base) (hsites : SitesApart l) (hd : d ∈ l) {e : Redirection}
    (he : e ∈ l) (hin : InArea e.places.codeLocation d.places.gicInstr) :
    ∃ r : SgiSource, (redirectAll m l).read32 d.places.gicInstr ∈ r.trampoline := by
  induction l with
  | nil => simp at hd
  | cons e' earlier ih =>
    obtain ⟨hfirst, hrest⟩ := List.pairwise_cons.1 hsites
    obtain ⟨hsite, hcode⟩ := hl e' List.mem_cons_self
    have hsite' := (hl d hd).gicInstr
    by_cases hlast : InArea e'.places.codeLocation d.places.gicInstr
    · exact ⟨e'.reg, SgiSource.read32_patchAt_inArea (by bv_omega) hlast⟩
    · have he' : e ∈ earlier := by
        rcases List.mem_cons.1 he with rfl | he'
        · exact absurd hin hlast
        · exact he'
      rcases List.mem_cons.1 hd with rfl | hd'
      · exact absurd hin (hfirst e he').2
      · rw [redirectAll, SgiSource.read32_patchAt (by bv_omega) (by bv_omega) hlast,
          if_neg fun heq => (hfirst d hd').1 heq.symm]
        exact ih (fun d' h => hl d' (List.mem_cons_of_mem e' h)) hrest hd' he'

/-- The word at `site` is a branch to a trampoline for `r`. -/
def SgiSource.Redirected (r : SgiSource) (m : ByteMemory) (site : BitVec 64) : Prop :=
  ∃ offset, decode (m.read32 site) = some (.bl offset) ∧ HoldsWords m (site + offset) r.trampoline

theorem trampoline_not_bl (r : SgiSource) {w : BitVec 32} (h : w ∈ r.trampoline) (offset : BitVec 64) :
    decode w ≠ some (.bl offset) := by
  have hall : r.trampoline.all (fun w => match decode w with | some (.bl _) => false | _ => true) = true := by
    cases r <;> decide +kernel
  intro hbl
  have hw := List.all_eq_true.1 hall w h
  simp [hbl] at hw

theorem target_grid (hsite : (d.places.gicInstr - base).toNat % 4 = 0) : (d.places.target - base).toNat % 4 = 0 := by
  have hshift (v : BitVec 64) : (v <<< 2).toNat % 4 = 0 := by
    rw [BitVec.toNat_shiftLeft, Nat.shiftLeft_eq]
    omega
  have hoff := hshift ((((d.places.codeLocation - d.places.gicInstr) / 4#64).setWidth 26).signExtend 64)
  unfold Places.target branchOffset
  generalize ((((d.places.codeLocation - d.places.gicInstr) / 4#64).setWidth 26).signExtend 64) <<< 2 = o at hoff
  bv_omega

/-- A site is redirected in the end if it is in no trampoline and its own trampoline stands where its branch leads. -/
theorem redirected_iff (hl : ∀ d ∈ l, d.OnGrid base) (hsites : SitesApart l) (hd : d ∈ l) :
    d.reg.Redirected (redirectAll m l) d.places.gicInstr ↔
      (∀ e ∈ l, ¬ InArea e.places.codeLocation d.places.gicInstr) ∧ StandsAt m d.reg d.places.target l := by
  have htarget := target_grid (hl d hd).gicInstr
  constructor
  · rintro ⟨offset, hbl, hwords⟩
    have hout : ∀ e ∈ l, ¬ InArea e.places.codeLocation d.places.gicInstr := by
      intro e he hin
      obtain ⟨r, hr⟩ := read32_site_inArea hl hsites hd he hin
      exact trampoline_not_bl r hr offset hbl
    rw [read32_site hl hsites hd hout, decode_branch, Option.some.injEq, Instr.bl.injEq] at hbl
    rw [← hbl] at hwords
    exact ⟨hout, (holdsWords_redirectAll hl htarget).1 hwords⟩
  · rintro ⟨hout, hstands⟩
    refine ⟨_, ?_, (holdsWords_redirectAll hl htarget).2 hstands⟩
    rw [read32_site hl hsites hd hout, decode_branch]

/-! ## The second search -/

/-- The memory with the 92 bytes of the trampoline at `a` left out. -/
def blank (m : ByteMemory) (a : BitVec 64) : ByteMemory := m.writeWords a (List.replicate 23 0#32)

/-- The redirections of a module, the last first. `IRM_X8` searches what `IRM` has left of the module. -/
def redirections (base : BitVec 64) (size : BitVec 32) (m : ByteMemory) : List Redirection :=
  let p := SgiSource.x10.places base size m
  let q := SgiSource.x8.places base size (if p.Found then blank m p.codeLocation else m)
  (if q.Found then [⟨.x8, q⟩] else []) ++ (if p.Found then [⟨.x10, p⟩] else [])

variable {x : BitVec 64} {p q : Places} {size : BitVec 32} {w : BitVec 32}

theorem read32_blank (h : (x - a).toNat % 4 = 0) : (blank m a).read32 x = if InArea a x then 0#32 else m.read32 x := by
  rw [blank, read32_writeWords _ (by simp) h, List.getElem?_replicate]
  by_cases hin : InArea a x
  · rw [if_pos hin, if_pos (by unfold InArea at hin; omega), Option.getD_some]
  · rw [if_neg hin, if_neg (by unfold InArea at hin; omega), Option.getD_none]

theorem SgiSource.FoundIn.onGrid (h : r.FoundIn m base size p) (hfound : p.Found) :
    Redirection.OnGrid base ⟨r, p⟩ := by
  obtain ⟨⟨k, hk, hsite⟩, -⟩ := h.gicInstr hfound.1
  obtain ⟨⟨j, hj, hfunc⟩, -⟩ := h.realEstateFunc hfound.2
  have hwords := moduleWords_le size
  constructor
  · change (p.gicInstr - base).toNat % 4 = 0
    rw [hsite, cursor]
    bv_omega
  · change (p.codeLocation - base).toNat % 4 = 0
    rw [Places.codeLocation, hfunc, cursor]
    bv_omega

/-- The words the second search looks for: `IRM` writes none of them, and replaces none by its branch. -/
theorem searched_word (hw : w ∈ [0xD518CBA8#32, 0x00090003#32, 0x00090016#32]) :
    w ∉ SgiSource.x10.trampoline ∧ w ≠ 0#32 ∧ w.extractLsb' 26 6 ≠ 0b100101#6 ∧ w ≠ SgiSource.x10.msr := by
  simp only [List.mem_cons, List.not_mem_nil, or_false] at hw
  rcases hw with rfl | rfl | rfl <;> decide +kernel

theorem read32_patched_iff (h : SgiSource.x10.FoundIn m base size p) (hfound : p.Found) (hx : (x - base).toNat % 4 = 0)
    (hw : w ∈ [0xD518CBA8#32, 0x00090003#32, 0x00090016#32]) :
    (SgiSource.x10.patchAt p m).read32 x = w ↔ (blank m p.codeLocation).read32 x = w := by
  obtain ⟨hsite, hcode⟩ := h.onGrid hfound
  simp only at hsite hcode
  obtain ⟨htrampoline, hzero, hbranch, hmsr⟩ := searched_word hw
  rw [read32_blank (by bv_omega)]
  by_cases hin : InArea p.codeLocation x
  · have hword := SgiSource.read32_patchAt_inArea (m := m) (r := .x10) (by bv_omega) hin
    rw [if_pos hin]
    constructor
    · rintro rfl
      exact absurd hword htrampoline
    · exact fun h0 => absurd h0.symm hzero
  · rw [if_neg hin, SgiSource.read32_patchAt (by bv_omega) (by bv_omega) hin]
    split_ifs with heq
    · rw [heq, (h.gicInstr hfound.1).2]
      constructor
      · rintro rfl
        exact absurd (branch_top _ _) hbranch
      · exact fun h0 => absurd h0.symm hmsr
    · rfl

/-- `IRM_X8` finds what it would find with the trampoline of `IRM` left out. -/
theorem x8_places_patch (base : BitVec 64) (size : BitVec 32) (m : ByteMemory) :
    SgiSource.x8.places base size (SgiSource.x10.patch base size m) =
      SgiSource.x8.places base size (if (SgiSource.x10.places base size m).Found then
        blank m (SgiSource.x10.places base size m).codeLocation else m) := by
  unfold SgiSource.patch
  split_ifs with hfound
  · have hin := SgiSource.x10.foundIn_places m base size
    have hwords := moduleWords_le size
    refine SgiSource.search_congr ?_
    intro k hk c
    have hx : (cursor base k - base).toNat % 4 = 0 := by
      unfold cursor
      bv_omega
    have hmsr := read32_patched_iff hin hfound hx (w := 0xD518CBA8#32) (by decide)
    have hlow := read32_patched_iff hin hfound hx (w := 0x00090003#32) (by decide)
    have hhigh := read32_patched_iff (x := cursor base k + 4) hin hfound (by bv_omega) (w := 0x00090016#32) (by decide)
    have hmarker : (SgiSource.x10.patchAt (SgiSource.x10.places base size m) m).read64 (cursor base k) =
          0x0009001600090003#64 ↔
        (blank m (SgiSource.x10.places base size m).codeLocation).read64 (cursor base k) = 0x0009001600090003#64 := by
      rw [read64_eq_iff, read64_eq_iff]
      exact and_congr hlow hhigh
    exact congrArg₂ Places.mk (if_congr hmsr rfl rfl) (if_congr hmarker rfl rfl)
  · rfl

theorem redirectAll_redirections (base : BitVec 64) (size : BitVec 32) (m : ByteMemory) :
    redirectAll m (redirections base size m) = SgiSource.x8.patch base size (SgiSource.x10.patch base size m) := by
  have hsecond := x8_places_patch base size m
  rw [SgiSource.patch, hsecond]
  unfold redirections SgiSource.patch
  dsimp only
  split_ifs <;> rfl

theorem mem_redirections : d ∈ redirections base size m ↔
    (SgiSource.x10.places base size m).Found ∧ d = ⟨.x10, SgiSource.x10.places base size m⟩ ∨
    (SgiSource.x8.places base size (SgiSource.x10.patch base size m)).Found ∧
      d = ⟨.x8, SgiSource.x8.places base size (SgiSource.x10.patch base size m)⟩ := by
  rw [x8_places_patch]
  unfold redirections
  rw [List.mem_append, or_comm]
  refine or_congr ?_ ?_
  · split_ifs with hfound <;> simp [hfound]
  · by_cases hfound : (SgiSource.x8.places base size (if (SgiSource.x10.places base size m).Found then
        blank m (SgiSource.x10.places base size m).codeLocation else m)).Found
    · simp [hfound]
    · simp [hfound]

theorem redirections_onGrid : ∀ d ∈ redirections base size m, d.OnGrid base := by
  intro d hd
  rcases mem_redirections.1 hd with ⟨hfound, rfl⟩ | ⟨hfound, rfl⟩
  · exact (SgiSource.foundIn_places _ _ _ _).onGrid hfound
  · exact (SgiSource.foundIn_places _ _ _ _).onGrid hfound

theorem sitesApart_redirections : SitesApart (redirections base size m) := by
  unfold redirections SitesApart
  by_cases hp : (SgiSource.x10.places base size m).Found
  · by_cases hq : (SgiSource.x8.places base size (blank m (SgiSource.x10.places base size m).codeLocation)).Found
    · have hfirst := SgiSource.x10.foundIn_places m base size
      have hsecond := SgiSource.x8.foundIn_places (blank m (SgiSource.x10.places base size m).codeLocation) base size
      have hmsr := (hsecond.gicInstr hq.1).2
      have hgrid := (hsecond.onGrid hq).gicInstr
      have hcode := (hfirst.onGrid hp).codeLocation
      simp only at hgrid hcode
      rw [read32_blank (by bv_omega)] at hmsr
      split_ifs at hmsr with hin
      · exact absurd hmsr (by decide)
      · simp only [hp, hq, if_true, List.singleton_append, List.pairwise_cons, List.mem_singleton, forall_eq,
          List.not_mem_nil, false_imp_iff, implies_true, List.Pairwise.nil, and_true]
        refine ⟨?_, hin⟩
        intro heq
        rw [heq, (hfirst.gicInstr hp.1).2] at hmsr
        exact absurd hmsr (by decide)
    · simp [hp, hq]
  · by_cases hq : (SgiSource.x8.places base size m).Found
    · simp [hp, hq]
    · simp [hp, hq]

/-! ## The run -/

/-- A shellcode replaces the word at `site` by a branch. -/
def SgiSource.Replaces (r : SgiSource) (base : BitVec 64) (size : BitVec 32) (m : ByteMemory) (site : BitVec 64) : Prop :=
  (r.places base size m).Found ∧ site = (r.places base size m).gicInstr

/-- The redirections do not get in each other's way: no site is in a trampoline, and where each branch leads the
trampoline for its register stands. -/
def Compatible (m : ByteMemory) (l : List Redirection) : Prop :=
  ∀ d ∈ l, (∀ e ∈ l, ¬ InArea e.places.codeLocation d.places.gicInstr) ∧ StandsAt m d.reg d.places.target l

theorem redirected_all_iff (base : BitVec 64) (size : BitVec 32) (m : ByteMemory) :
    ((∀ site, SgiSource.x10.Replaces base size m site →
        SgiSource.x10.Redirected (SgiSource.x8.patch base size (SgiSource.x10.patch base size m)) site) ∧
      (∀ site, SgiSource.x8.Replaces base size (SgiSource.x10.patch base size m) site →
        SgiSource.x8.Redirected (SgiSource.x8.patch base size (SgiSource.x10.patch base size m)) site)) ↔
    Compatible m (redirections base size m) := by
  have hiff {d : Redirection} (hd : d ∈ redirections base size m) :=
    redirected_iff (m := m) redirections_onGrid sitesApart_redirections hd
  rw [redirectAll_redirections] at hiff
  constructor
  · rintro ⟨hfirst, hsecond⟩ d hd
    refine (hiff hd).1 ?_
    rcases mem_redirections.1 hd with ⟨hfound, rfl⟩ | ⟨hfound, rfl⟩
    · exact hfirst _ ⟨hfound, rfl⟩
    · exact hsecond _ ⟨hfound, rfl⟩
  · intro hall
    constructor
    · rintro site ⟨hfound, rfl⟩
      have hd := mem_redirections.2 (.inl ⟨hfound, rfl⟩)
      exact (hiff hd).2 (hall _ hd)
    · rintro site ⟨hfound, rfl⟩
      have hd := mem_redirections.2 (.inr ⟨hfound, rfl⟩)
      exact (hiff hd).2 (hall _ hd)

/-- A patch leaves alone what is apart from the module and the 168 bytes in front of it. -/
theorem SgiSource.patch_of_apart {b : BitVec 64} {n i : Nat} (h : Apart (base - 168#64) (171 + size.toNat) b n) (hi : i < n) :
    r.patch base size m (b + BitVec.ofNat 64 i) = m (b + BitVec.ofNat 64 i) := by
  unfold patch
  split_ifs with hfound
  · obtain ⟨hsite, hcode⟩ := (r.foundIn_places m base size).apart hfound h
    have hlen : 4 * r.trampoline.length = 92 := by rw [length_trampoline]
    rw [patchAt_eq, writeWords_of_apart _ (hlen ▸ hcode) hi, write32_of_apart _ hsite hi]
  · rfl

/-- The kernel as the loader provides it: below the end of the address space, and with the 168 bytes in front of it
apart from the code and from what the code reads of the loader block. -/
structure KernelApart (m : ByteMemory) (x0 c : BitVec 64) (len : Nat) (base : BitVec 64) (size : BitVec 32) : Prop where
  fit : base.toNat + size.toNat + 4 < 2 ^ 64
  code : Apart (base - 168#64) (171 + size.toNat) c len
  head : Apart (base - 168#64) (171 + size.toNat) (x0 + 16#64) 8
  dllBase : Apart (base - 168#64) (171 + size.toNat) (m.read64 (x0 + 16#64) + 0x30#64) 8
  sizeOfImage : Apart (base - 168#64) (171 + size.toNat) (m.read64 (x0 + 16#64) + 0x40#64) 4

theorem firstModule_patch {x0 c : BitVec 64} {len : Nat} (h : KernelApart m x0 c len base size) :
    firstModule (r.patch base size m) x0 = firstModule m x0 := by
  have hhead : (r.patch base size m).read64 (x0 + 16#64) = m.read64 (x0 + 16#64) :=
    read64_congr fun i hi => SgiSource.patch_of_apart h.head hi
  have hbase := read64_congr (m := r.patch base size m) fun i hi => SgiSource.patch_of_apart h.dllBase hi
  have hsize := read32_congr (m := r.patch base size m) fun i hi => SgiSource.patch_of_apart h.sizeOfImage hi
  simp only [firstModule, hhead, hbase, hsize]

/-- The bytes of `IRM` and right behind them those of `IRM_X8`, run on a kernel. -/
theorem bothShellCodes_run {s : Cpu}
    (hcode : Holds s.mem s.pc (gicV3WithoutIrmFlagSupportPatch ++ gicV3WithoutIrmFlagSupportX8VariantPatch))
    (hmod : firstModule s.mem (s.x .x0) = some (base, size)) (hapart : KernelApart s.mem (s.x .x0) s.pc 832 base size) :
    Reaches (fun s₁ => s₁.pc = s.pc + 416#64 ∧ s₁.mem = SgiSource.x10.patch base size s.mem ∧
      Reaches (fun s₂ => s₂.pc = s.pc + 832#64 ∧
        s₂.mem = SgiSource.x8.patch base size (SgiSource.x10.patch base size s.mem)) s₁) s := by
  obtain ⟨hfirst, hsecond⟩ := hcode.append
  have hlen : gicV3WithoutIrmFlagSupportPatch.length = 416 := SgiSource.x10.length_shellCode
  have hlen' : gicV3WithoutIrmFlagSupportX8VariantPatch.length = 416 := SgiSource.x8.length_shellCode
  have hall := hapart.code
  have hload := Loaded.of_holds hfirst SgiSource.x10.disassemble_shellCode
  have hfront : Apart (base - 168#64) (171 + size.toNat) s.pc 416 := fun i hi j hj => hall i hi j (by omega)
  have hback : Apart (base - 168#64) (171 + size.toNat) (s.pc + 416#64) 416 := by
    intro i hi j hj
    rw [BitVec.add_assoc, show 416#64 + BitVec.ofNat 64 j = BitVec.ofNat 64 (416 + j) by rw [BitVec.ofNat_add]]
    exact hall i hi (416 + j) (by omega)
  refine (SgiSource.shellCode_run hload hmod hapart.fit hfront).mono fun s₁ h₁ => ⟨h₁.pc, h₁.mem, ?_⟩
  have hx0 : s₁.x .x0 = s.x .x0 := h₁.kept .x0 rfl
  have hcode₁ : Holds s₁.mem s₁.pc gicV3WithoutIrmFlagSupportX8VariantPatch := by
    rw [h₁.pc, h₁.mem]
    rw [hlen] at hsecond
    refine hsecond.congr ?_
    intro i hi
    rw [hlen'] at hi
    exact SgiSource.patch_of_apart hback hi
  have hload₁ := Loaded.of_holds hcode₁ SgiSource.x8.disassemble_shellCode
  have hmod₁ : firstModule s₁.mem (s₁.x .x0) = some (base, size) := by
    rw [h₁.mem, hx0, firstModule_patch hapart, hmod]
  rw [← h₁.pc] at hback
  refine (SgiSource.shellCode_run hload₁ hmod₁ hapart.fit hback).mono fun s₂ h₂ => ⟨?_, ?_⟩
  · rw [h₂.pc, h₁.pc, BitVec.add_assoc]
    rfl
  · rw [h₂.mem, h₁.mem]

/-- **After both shellcodes** every word that was replaced by a branch leads to a trampoline for its register if and
only if the redirections of the kernel are compatible. -/
theorem bothShellCodes_redirect_iff (s : Cpu)
    (hcode : Holds s.mem s.pc (gicV3WithoutIrmFlagSupportPatch ++ gicV3WithoutIrmFlagSupportX8VariantPatch))
    {base : BitVec 64} {size : BitVec 32} (hmod : firstModule s.mem (s.x .x0) = some (base, size))
    (hapart : KernelApart s.mem (s.x .x0) s.pc 832 base size) :
    Reaches (fun s₁ => s₁.pc = s.pc + 416#64 ∧ Reaches (fun s₂ => s₂.pc = s.pc + 832#64 ∧
      (((∀ site, SgiSource.x10.Replaces base size s.mem site → SgiSource.x10.Redirected s₂.mem site) ∧
        (∀ site, SgiSource.x8.Replaces base size s₁.mem site → SgiSource.x8.Redirected s₂.mem site)) ↔
      Compatible s.mem (redirections base size s.mem))) s₁) s := by
  refine (bothShellCodes_run hcode hmod hapart).mono fun s₁ ⟨hpc₁, hmem₁, hrun⟩ => ⟨hpc₁, ?_⟩
  refine hrun.mono fun s₂ ⟨hpc₂, hmem₂⟩ => ⟨hpc₂, ?_⟩
  rw [hmem₁, hmem₂]
  exact redirected_all_iff base size s.mem

/-! Two kernels with a site for each register. -/

/-- A processor about to run both shellcodes, with a module of `size` bytes at `0x20000`. -/
def sampleBoth (image : ByteMemory) (size : BitVec 32) : Cpu where
  x r := if r = .x0 then 0x8000#64 else 0
  pc := 0x1000#64
  flags := ⟨false, false, false, false⟩
  mem x := if 0x10000#64 ≤ x then image x else
    ByteMemory.writeBytes (((ByteMemory.write64 (fun _ => 0) 0x8010#64 0x9000#64).write64 0x9030#64 0x20000#64).write32
      0x9040#64 size) 0x1000#64 (gicV3WithoutIrmFlagSupportPatch ++ gicV3WithoutIrmFlagSupportX8VariantPatch) x
  mpidr := 0x80000100#64
  sgi := []

theorem holds_sampleBoth (image : ByteMemory) (size : BitVec 32) : Holds (sampleBoth image size).mem 0x1000#64
    (gicV3WithoutIrmFlagSupportPatch ++ gicV3WithoutIrmFlagSupportX8VariantPatch) := by
  have hlen : (gicV3WithoutIrmFlagSupportPatch ++ gicV3WithoutIrmFlagSupportX8VariantPatch).length = 832 := by decide +kernel
  refine (holds_writeBytes _ _ (by omega)).congr fun i hi => if_neg ?_
  rw [hlen] at hi
  bv_omega

theorem kernelApart_sampleBoth {image : ByteMemory} {size : BitVec 32}
    (hentry : (sampleBoth image size).mem.read64 0x8010#64 = 0x9000#64) :
    KernelApart (sampleBoth image size).mem 0x8000#64 0x1000#64 832 0x20000#64 size where
  fit := by bv_omega
  code := apart_of_le (by decide) (by bv_omega)
  head := apart_of_le (by decide) (by bv_omega)
  dllBase := by
    rw [show (0x8000#64 + 16#64) = 0x8010#64 from rfl, hentry]
    exact apart_of_le (by decide) (by bv_omega)
  sizeOfImage := by
    rw [show (0x8000#64 + 16#64) = 0x8010#64 from rfl, hentry]
    exact apart_of_le (by decide) (by bv_omega)

/-- A marker for each site, the second 96 bytes behind the first. -/
def twoMarkers : ByteMemory :=
  (((ByteMemory.write64 (fun _ => 0) 0x200A8#64 0x0009001600090003#64).write32 0x200C0#64 0xD518CBAA#32).write64
    0x20108#64 0x0009001600090003#64).write32 0x20110#64 0xD518CBA8#32

theorem redirections_twoMarkers : redirections 0x20000#64 0x118#32 (sampleBoth twoMarkers 0x118#32).mem =
    [⟨.x8, ⟨0x20110#64, 0x20108#64⟩⟩, ⟨.x10, ⟨0x200C0#64, 0x200A8#64⟩⟩] := by
  decide +kernel

theorem bothShellCodes_redirect_twoMarkers :
    Reaches (fun s₁ => Reaches (fun s₂ =>
        (∀ site, SgiSource.x10.Replaces 0x20000#64 0x118#32 (sampleBoth twoMarkers 0x118#32).mem site →
          SgiSource.x10.Redirected s₂.mem site) ∧
        (∀ site, SgiSource.x8.Replaces 0x20000#64 0x118#32 s₁.mem site → SgiSource.x8.Redirected s₂.mem site)) s₁)
      (sampleBoth twoMarkers 0x118#32) := by
  have hrun := bothShellCodes_redirect_iff (sampleBoth twoMarkers 0x118#32) (holds_sampleBoth _ _)
    (show _ = some (0x20000#64, 0x118#32) by decide +kernel) (kernelApart_sampleBoth (by decide +kernel))
  refine hrun.mono fun s₁ ⟨_, hrun₁⟩ => hrun₁.mono fun s₂ ⟨_, hiff⟩ => hiff.2 ?_
  rw [redirections_twoMarkers]
  intro d hd
  rcases List.mem_cons.1 hd with rfl | hd
  · exact ⟨by decide, .inl ⟨by decide, rfl⟩⟩
  · rw [List.mem_singleton.1 hd]
    exact ⟨by decide, .inr ⟨by decide, by decide, .inl ⟨by decide, rfl⟩⟩⟩

/-- One marker for both sites. -/
def oneMarker : ByteMemory :=
  ((ByteMemory.write64 (fun _ => 0) 0x200A8#64 0x0009001600090003#64).write32 0x200B0#64 0xD518CBAA#32).write32
    0x200B4#64 0xD518CBA8#32

theorem redirections_oneMarker : redirections 0x20000#64 0xB8#32 (sampleBoth oneMarker 0xB8#32).mem =
    [⟨.x8, ⟨0x200B4#64, 0x200A8#64⟩⟩, ⟨.x10, ⟨0x200B0#64, 0x200A8#64⟩⟩] := by
  decide +kernel

/-- The trampoline of `IRM_X8` is written over the one of `IRM`, to which the site of `IRM` still branches. -/
theorem bothShellCodes_one_marker :
    Reaches (fun s₁ => Reaches (fun s₂ => s₂.pc = 0x1340#64 ∧
        SgiSource.x10.Replaces 0x20000#64 0xB8#32 (sampleBoth oneMarker 0xB8#32).mem 0x200B0#64 ∧
        ¬ SgiSource.x10.Redirected s₂.mem 0x200B0#64) s₁) (sampleBoth oneMarker 0xB8#32) := by
  have hrun := bothShellCodes_run (holds_sampleBoth oneMarker 0xB8#32)
    (show _ = some (0x20000#64, 0xB8#32) by decide +kernel) (kernelApart_sampleBoth (by decide +kernel))
  have hlist := redirections_oneMarker
  have hfirst : (⟨.x10, ⟨0x200B0#64, 0x200A8#64⟩⟩ : Redirection) ∈
      redirections 0x20000#64 0xB8#32 (sampleBoth oneMarker 0xB8#32).mem := by
    rw [hlist]
    decide
  have hplaces : SgiSource.x10.places 0x20000#64 0xB8#32 (sampleBoth oneMarker 0xB8#32).mem = ⟨0x200B0#64, 0x200A8#64⟩ := by
    decide +kernel
  refine hrun.mono fun s₁ ⟨_, _, hrun₁⟩ => hrun₁.mono fun s₂ ⟨hpc, hmem⟩ => ⟨hpc, ?_, fun hred => ?_⟩
  · rw [SgiSource.Replaces, hplaces]
    exact ⟨by decide, rfl⟩
  · rw [hmem, ← redirectAll_redirections] at hred
    have hstands := ((redirected_iff redirections_onGrid sitesApart_redirections hfirst).1 hred).2
    rw [hlist] at hstands
    rcases hstands with ⟨_, hreg⟩ | ⟨hapart, _⟩
    · exact absurd hreg (by decide)
    · exact absurd hapart (by decide)

end Andromeda
