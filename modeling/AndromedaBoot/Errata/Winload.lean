import AndromedaBoot.Errata.FindPattern
import AndromedaBoot.Errata.OsLoader

/-!
# What is written to the OS loader (KernelErrataPatcherLib/OsLoaderIntercepter.c)

| here | there |
| --- | --- |
| `Errata.shellCode` | `OslArm64TransferToKernelShellCode`, :19-53 |
| `applyReadACTLREL1Patches` | `KernelErrataPatcherApplyReadACTLREL1Patches`, :56-72 |
| `locateWinloadBase` | `LocateWinloadBase`, `Utilities.c` :21-47 |
| `unprotectWinload` | `UnprotectWinload`, `MmuProtectionHelper.c` :21-57 |
| `oslInterceptMain` | `OslInterceptMain`, :125-209 |

`ReProtectWinload` comes after the last write and has no say in them. Where it is written follows from the first
section of the loader, whose size `LocateWinloadBase` reads; where it may be written is what was unprotected.
-/

namespace Andromeda

open Arm64 ByteMemory

/-- The errata the build selects; without any, it does not compile. -/
structure Errata where
  actlrEl1 : Bool
  amcntenset0El0 : Bool
  gicV3WithoutIrm : Bool
  psciMemprotect : Bool
  selected : (actlrEl1 || amcntenset0El0 || gicV3WithoutIrm || psciMemprotect) = true

/-- `OslArm64TransferToKernelShellCode`. -/
def Errata.shellCode (e : Errata) : List (BitVec 8) :=
  (if e.actlrEl1 then actlrEl1UnimplementedPatch else []) ++
  (if e.amcntenset0El0 then amcntenset0El0UnimplementedPatch else []) ++
  (if e.gicV3WithoutIrm then gicV3WithoutIrmFlagSupportPatch ++ gicV3WithoutIrmFlagSupportX8VariantPatch else []) ++
  (if e.psciMemprotect then psciMemprotectFailingPatch else [])

/-! ## The loader -/

/-- Round up to a page. -/
def pageUp (x : BitVec 64) : BitVec 64 := if x &&& 0xFFF#64 ≠ 0 then (x &&& ~~~0xFFF#64) + 0x1000#64 else x

/-- `newBase`, the headers of an image. -/
def headersOf (m : ByteMemory) (base : BitVec 64) : BitVec 64 := base + (m.read32 (base + 0x3C#64)).setWidth 64

/-- An image begins at `base`. -/
def IsImage (m : ByteMemory) (base : BitVec 64) : Prop := m.read16 base = 0x5A4D#16 ∧ m.read16 (headersOf m base) = 0x4550#16

instance (m : ByteMemory) : DecidablePred (IsImage m) := fun base =>
  inferInstanceAs (Decidable (m.read16 base = 0x5A4D#16 ∧ m.read16 (headersOf m base) = 0x4550#16))

/-- The loop of `LocateWinloadBase`: the base of the image and the size of its first section. -/
def locateWinloadLoop (m : ByteMemory) : Nat → BitVec 64 → Option (BitVec 64 × BitVec 64)
  | 0, _ => none
  | n + 1, base =>
    if IsImage m base then some (base, pageUp ((m.read32 (headersOf m base + 0x110#64)).setWidth 64))
    else locateWinloadLoop m n (base - 0x1000#64)

/-- `LocateWinloadBase`; `none` stands for a loop that has been at all pages of the address space and goes on for ever. -/
def locateWinloadBase (m : ByteMemory) (base : BitVec 64) : Option (BitVec 64 × BitVec 64) :=
  locateWinloadLoop m (2 ^ 52) (pageUp base)

/-- `EFI_MEMORY_ATTRIBUTE_PROTOCOL`; `none` and `false` stand for an error. -/
structure MemoryAttributeProtocol where
  getMemoryAttributes : BitVec 64 → BitVec 64 → Option (BitVec 64)
  clearMemoryAttributes : BitVec 64 → BitVec 64 → BitVec 64 → Bool

/-- `UnprotectWinload`: whether it succeeds. -/
def unprotectWinload (protocol : Option MemoryAttributeProtocol) (winloadBase winloadLength : BitVec 64) : Bool :=
  match protocol with
  | none => true
  | some p =>
    match p.getMemoryAttributes winloadBase winloadLength with
    | none => false
    | some attributes =>
      if attributes &&& 0x20000#64 ≠ 0 then p.clearMemoryAttributes winloadBase winloadLength 0x20000#64 else true

/-- The pattern of `mrs x8, actlr_el1`. -/
def illegalInstruction0 (m : ByteMemory) (base size : BitVec 64) : BitVec 64 := findPattern m base size (patternText actlrDigits)

/-- `KernelErrataPatcherApplyReadACTLREL1Patches`. -/
def applyReadACTLREL1Patches (m : ByteMemory) (base size : BitVec 64) : List Write :=
  if illegalInstruction0 m base size ≠ 0 then [⟨illegalInstruction0 m base size, [0x08#8, 0x00#8, 0x80#8, 0xD2#8]⟩] else []

/-- The fix-up as the build has it. -/
def fixUp (e : Errata) (m : ByteMemory) (fwpKernelSetupPhase1 : BitVec 64) : List Write :=
  if e.actlrEl1 then applyReadACTLREL1Patches m fwpKernelSetupPhase1 scanMax else []

/-- What `OslInterceptMain` writes; `none` stands for not returning. -/
def oslInterceptMain (protocol : Option MemoryAttributeProtocol) (e : Errata) (m : ByteMemory)
    (fwpKernelSetupPhase1 : BitVec 64) : Option (List Write) :=
  (locateWinloadBase m fwpKernelSetupPhase1).map fun (winloadBase, tempSize) =>
    if unprotectWinload protocol (winloadBase + 0x1000#64) tempSize then
      fixUp e m fwpKernelSetupPhase1 ++
        injectFirst (applyWrites m (fixUp e m fwpKernelSetupPhase1)) e.shellCode winloadBase offsets
    else []

/-! ## Finding the loader -/

/-- The loop goes down to the first page with an image, however many rounds it is given beyond that. -/
theorem locateWinloadLoop_eq {m : ByteMemory} {base : BitVec 64} {n k : Nat} (hk : k < n)
    (himage : IsImage m (base - BitVec.ofNat 64 (0x1000 * k)))
    (hfirst : ∀ j < k, ¬ IsImage m (base - BitVec.ofNat 64 (0x1000 * j))) :
    locateWinloadLoop m n base = some (base - BitVec.ofNat 64 (0x1000 * k),
      pageUp ((m.read32 (headersOf m (base - BitVec.ofNat 64 (0x1000 * k)) + 0x110#64)).setWidth 64)) := by
  induction n generalizing base k with
  | zero => omega
  | succ n ih =>
    cases k with
    | zero =>
      rw [Nat.mul_zero, BitVec.sub_zero] at himage ⊢
      rw [locateWinloadLoop, if_pos himage]
    | succ k =>
      have hnext (j : Nat) : base - 0x1000#64 - BitVec.ofNat 64 (0x1000 * j) = base - BitVec.ofNat 64 (0x1000 * (j + 1)) := by
        bv_omega
      have hnot := hfirst 0 (Nat.succ_pos k)
      rw [Nat.mul_zero, BitVec.sub_zero] at hnot
      rw [locateWinloadLoop, if_neg hnot,
        ih (by omega) ((hnext k).symm ▸ himage) fun j hj => (hnext j).symm ▸ hfirst (j + 1) (by omega),
        hnext]

/-- An image at a page below, or round the end of the address space, is enough. -/
theorem locateWinloadLoop_exists {m : ByteMemory} {base : BitVec 64} {k : Nat}
    (himage : IsImage m (base - BitVec.ofNat 64 (0x1000 * k))) :
    ∃ j ≤ k, IsImage m (base - BitVec.ofNat 64 (0x1000 * j)) ∧ (∀ i < j, ¬ IsImage m (base - BitVec.ofNat 64 (0x1000 * i))) := by
  have hex : ∃ k, IsImage m (base - BitVec.ofNat 64 (0x1000 * k)) := ⟨k, himage⟩
  exact ⟨Nat.find hex, Nat.find_min' hex himage, Nat.find_spec hex, fun i hi => Nat.find_min hex hi⟩

theorem and_pageMask (x : BitVec 64) : x &&& ~~~0xFFF#64 = (x >>> 12) <<< 12 := by
  ext i hi
  simp only [BitVec.getElem_and, BitVec.getElem_shiftLeft, BitVec.getElem_not]
  interval_cases i <;> simp

/-- The next multiple of a page. -/
def roundUp (n : Nat) : Nat := (n + 0xFFF) / 0x1000 * 0x1000

/-- Rounding up in the last page of the address space ends at address 0. -/
theorem toNat_pageUp (x : BitVec 64) : (pageUp x).toNat = roundUp x.toNat % 2 ^ 64 := by
  have hlow : (x &&& 0xFFF#64).toNat = x.toNat % 2 ^ 12 := by
    rw [BitVec.toNat_and]
    exact Nat.and_two_pow_sub_one_eq_mod x.toNat 12
  have hhigh : (x &&& ~~~0xFFF#64).toNat = x.toNat / 0x1000 * 0x1000 := by
    rw [and_pageMask, BitVec.toNat_shiftLeft, Nat.shiftLeft_eq, BitVec.toNat_ushiftRight, Nat.shiftRight_eq_div_pow]
    exact Nat.mod_eq_of_lt (by omega)
  unfold pageUp roundUp
  split_ifs with hpage
  · have hne : (x &&& 0xFFF#64).toNat ≠ 0 := fun h => hpage (BitVec.eq_of_toNat_eq h)
    rw [BitVec.toNat_add, hhigh, show (0x1000#64).toNat = 0x1000 from rfl]
    omega
  · have hzero : (x &&& 0xFFF#64).toNat = 0 := by
      rw [not_not.1 hpage]
      rfl
    omega

theorem pageUp_aligned (x : BitVec 64) : (pageUp x).toNat % 0x1000 = 0 := by
  rw [toNat_pageUp, roundUp]
  omega

/-- The loader is found if there is an image at all. -/
theorem locateWinloadBase_isSome {m : ByteMemory} {b : BitVec 64} (himage : IsImage m b) (hb : b.toNat % 0x1000 = 0)
    (base : BitVec 64) : (locateWinloadBase m base).isSome := by
  have hpage := pageUp_aligned base
  have hback : b = pageUp base - BitVec.ofNat 64 (0x1000 * ((pageUp base - b).toNat / 0x1000)) := by bv_omega
  obtain ⟨j, hj, hfound, hfirst⟩ := locateWinloadLoop_exists (hback ▸ himage)
  rw [locateWinloadBase, locateWinloadLoop_eq (by bv_omega) hfound hfirst]
  rfl

/-- **With an image at a page that is not above the start** the loop stops at the greatest such page, and the size is
that of the image, in whole pages. -/
theorem locateWinloadBase_greatest (m : ByteMemory) (start : BitVec 64)
    (hsome : ∃ p : BitVec 64, p.toNat % 0x1000 = 0 ∧ p.toNat ≤ roundUp start.toNat % 2 ^ 64 ∧ IsImage m p) :
    ∃ (p size : BitVec 64) (pages : Nat), locateWinloadBase m start = some (p, size) ∧
      (∀ n, pages < n → locateWinloadLoop m n (pageUp start) = some (p, size)) ∧
      p.toNat % 0x1000 = 0 ∧ p.toNat ≤ roundUp start.toNat % 2 ^ 64 ∧ IsImage m p ∧
      (∀ q : BitVec 64, q.toNat % 0x1000 = 0 → q.toNat ≤ roundUp start.toNat % 2 ^ 64 → IsImage m q → q.toNat ≤ p.toNat) ∧
      size.toNat = roundUp (m.read32 (headersOf m p + 0x110#64)).toNat := by
  obtain ⟨q, hq, hle, himage⟩ := hsome
  have hpage := pageUp_aligned start
  rw [← toNat_pageUp] at hle ⊢
  -- the pages that are not above the start, as numbers of pages below it
  have hback (q : BitVec 64) (hq : q.toNat % 0x1000 = 0) (hle : q.toNat ≤ (pageUp start).toNat) :
      q = pageUp start - BitVec.ofNat 64 (0x1000 * (((pageUp start).toNat - q.toNat) / 0x1000)) := by bv_omega
  obtain ⟨k, hk, hfound, hfirst⟩ := locateWinloadLoop_exists (hback q hq hle ▸ himage)
  have hnat : (pageUp start - BitVec.ofNat 64 (0x1000 * k)).toNat = (pageUp start).toNat - 0x1000 * k := by bv_omega
  have hloop (n : Nat) (hn : k < n) := locateWinloadLoop_eq hn hfound hfirst
  refine ⟨_, _, k, hloop _ (by omega), hloop, by omega, by omega, hfound, ?_, ?_⟩
  · intro r hr hle' himage'
    by_contra habove
    exact hfirst _ (by omega) (hback r hr hle' ▸ himage')
  · rw [toNat_pageUp, BitVec.toNat_setWidth, roundUp, roundUp]
    omega

/-- One image of `0x3210` bytes at `0x10000`, looked for from above. -/
def oneImage : ByteMemory :=
  (((ByteMemory.write32 (fun _ => 0) 0x10000#64 0x5A4D#32).write32 0x1003C#64 0x80#32).write32 0x10080#64 0x4550#32).write32
    0x10190#64 0x3210#32

theorem locateWinloadBase_greatest_oneImage :
    ∃ p size : BitVec 64, locateWinloadBase oneImage 0x11234#64 = some (p, size) ∧ 0x10000 ≤ p.toNat := by
  have himage : IsImage oneImage 0x10000#64 := by decide +kernel
  obtain ⟨p, size, -, hlocate, -, -, -, -, hgreatest, -⟩ :=
    locateWinloadBase_greatest oneImage 0x11234#64 ⟨0x10000#64, by decide, by decide, himage⟩
  exact ⟨p, size, hlocate, hgreatest 0x10000#64 (by decide) (by decide) himage⟩

/-! ## Where it writes -/

/-- An address is in the range that was made writable. -/
def Unprotected (winloadBase tempSize x : BitVec 64) : Prop := (x - (winloadBase + 0x1000#64)).toNat < tempSize.toNat

/-- The bytes of a write are all in that range. -/
def Write.Inside (winloadBase tempSize : BitVec 64) (w : Write) : Prop :=
  ∀ i < w.bytes.length, Unprotected winloadBase tempSize (w.address + BitVec.ofNat 64 i)

/-- The call site an attempt finds. -/
def callSite (m : ByteMemory) (winloadBase : BitVec 64) (o : BitVec 32 × BitVec 32) : Option (BitVec 64) :=
  findCallSite m (functionAddress winloadBase o.1) o.2 (windowWords (functionAddress winloadBase o.1))
    (functionAddress winloadBase o.1)

/-- The first element for which something is found, and what is found. -/
def firstFound {α β : Type} (find : α → Option β) : List α → Option (α × β)
  | [] => none
  | a :: l =>
    match find a with
    | none => firstFound find l
    | some b => some (a, b)

/-- Word `k` of the window of an offset is a call of the function there, with the instruction behind it. -/
def IsCall (m : ByteMemory) (winloadBase : BitVec 64) (o : BitVec 32 × BitVec 32) (k : Nat) : Prop :=
  let current := functionAddress winloadBase o.1 + BitVec.ofNat 64 (4 * k)
  branchLocationInstruction current (functionAddress winloadBase o.1) = m.read32 current ∧ m.read32 (current + 4) = o.2

/-- The offset is the first of the seven with a call in its window, and the call is its lowest. -/
structure FirstCall (m : ByteMemory) (winloadBase : BitVec 64) (o : BitVec 32 × BitVec 32) (k : Nat) : Prop where
  first : ∃ before after, offsets = before ++ o :: after ∧
    ∀ o' ∈ before, ∀ j < windowWords (functionAddress winloadBase o'.1), ¬ IsCall m winloadBase o' j
  inWindow : k < windowWords (functionAddress winloadBase o.1)
  isCall : IsCall m winloadBase o k
  lowest : ∀ j < k, ¬ IsCall m winloadBase o j

/-- What holds of a loader that is written only where it was made writable: the fix-up is in the range, the injected
code does not begin in front of it and the call site does not end behind it. -/
structure StaysInside (e : Errata) (m : ByteMemory) (fwpKernelSetupPhase1 winloadBase tempSize : BitVec 64) : Prop where
  fixUp : e.actlrEl1 = true → illegalInstruction0 m fwpKernelSetupPhase1 scanMax ≠ 0 →
    (illegalInstruction0 m fwpKernelSetupPhase1 scanMax - (winloadBase + 0x1000#64)).toNat + 4 ≤ tempSize.toNat
  injection : ∀ o k, FirstCall (applyWrites m (Andromeda.fixUp e m fwpKernelSetupPhase1)) winloadBase o k →
    0x400 + e.shellCode.length ≤ o.1.toNat ∧ o.1.toNat + 4 * k + 4 ≤ 0x400 + tempSize.toNat

variable {m : ByteMemory} {winloadBase tempSize : BitVec 64} {shellCode : List (BitVec 8)}

/-- The writes for the offset and the call site that are found. -/
def injectionAt (shellCode : List (BitVec 8)) (winloadBase : BitVec 64) :
    Option ((BitVec 32 × BitVec 32) × BitVec 64) → List Write
  | none => []
  | some (o, c) => injectCode shellCode (functionAddress winloadBase o.1 - BitVec.ofNat 64 shellCode.length) c

theorem firstFound_cons {α β : Type} (find : α → Option β) (a : α) (l : List α) :
    firstFound find (a :: l) = (find a).elim (firstFound find l) fun b => some (a, b) := by
  rw [firstFound]
  cases find a <;> rfl

theorem firstFound_eq_some {α β : Type} {find : α → Option β} {l : List α} {a : α} {b : β}
    (h : firstFound find l = some (a, b)) :
    ∃ before after, l = before ++ a :: after ∧ (∀ a' ∈ before, find a' = none) ∧ find a = some b := by
  induction l with
  | nil => cases h
  | cons a' l ih =>
    rw [firstFound_cons] at h
    cases hfind : find a' with
    | none =>
      rw [hfind] at h
      obtain ⟨before, after, rfl, hbefore, hfound⟩ := ih h
      exact ⟨a' :: before, after, rfl, List.forall_mem_cons.2 ⟨hfind, hbefore⟩, hfound⟩
    | some b' =>
      rw [hfind] at h
      obtain ⟨rfl, rfl⟩ : a' = a ∧ b' = b := by simpa using h
      exact ⟨[], l, rfl, by simp, hfind⟩

theorem firstFound_append {α β : Type} {find : α → Option β} {before after : List α} {a : α} {b : β}
    (hbefore : ∀ a' ∈ before, find a' = none) (hfound : find a = some b) :
    firstFound find (before ++ a :: after) = some (a, b) := by
  induction before with
  | nil => rw [List.nil_append, firstFound_cons, hfound, Option.elim_some]
  | cons a' before ih =>
    obtain ⟨hnone, hbefore⟩ := List.forall_mem_cons.1 hbefore
    rw [List.cons_append, firstFound_cons, hnone, Option.elim_none, ih hbefore]

theorem findAndInject_eq (o : BitVec 32 × BitVec 32) : findAndInject m shellCode winloadBase o.1 o.2 =
    injectAt shellCode (functionAddress winloadBase o.1) (callSite m winloadBase o) := by
  rw [findAndInject, callSite]

theorem injectFirst_cons (o : BitVec 32 × BitVec 32) (rest : List (BitVec 32 × BitVec 32)) :
    injectFirst m shellCode winloadBase (o :: rest) =
      if (findAndInject m shellCode winloadBase o.1 o.2).1 then (findAndInject m shellCode winloadBase o.1 o.2).2
      else (findAndInject m shellCode winloadBase o.1 o.2).2 ++
        injectFirst (applyWrites m (findAndInject m shellCode winloadBase o.1 o.2).2) shellCode winloadBase rest := by
  rw [injectFirst]

theorem injectFirst_eq (l : List (BitVec 32 × BitVec 32)) : injectFirst m shellCode winloadBase l =
    injectionAt shellCode winloadBase (firstFound (callSite m winloadBase) l) := by
  induction l with
  | nil => rfl
  | cons o rest ih =>
    rw [injectFirst_cons, findAndInject_eq, firstFound_cons]
    generalize callSite m winloadBase o = found
    cases found with
    | none => simp only [injectAt, Bool.false_eq_true, if_false, List.nil_append, applyWrites, ih, Option.elim_none]
    | some c => simp only [injectAt, if_true, Option.elim_some, injectionAt]

variable {o : BitVec 32 × BitVec 32} {function : BitVec 64} {instruction : BitVec 32}

theorem findCallSite_eq_none {n : Nat} {current : BitVec 64} (h : findCallSite m function instruction n current = none) :
    ∀ k < n, ¬ (branchLocationInstruction (current + BitVec.ofNat 64 (4 * k)) function =
        m.read32 (current + BitVec.ofNat 64 (4 * k)) ∧ m.read32 (current + BitVec.ofNat 64 (4 * k) + 4) = instruction) := by
  induction n generalizing current with
  | zero =>
    intro k hk
    omega
  | succ n ih =>
    rw [findCallSite] at h
    split_ifs at h with hcall
    intro k hk
    cases k with
    | zero => simpa using hcall
    | succ k =>
      rw [show current + BitVec.ofNat 64 (4 * (k + 1)) = current + 4 + BitVec.ofNat 64 (4 * k) by bv_omega]
      exact ih h k (by omega)

theorem findCallSite_eq_some {n : Nat} {current c : BitVec 64} (h : findCallSite m function instruction n current = some c) :
    ∃ k < n, c = current + BitVec.ofNat 64 (4 * k) ∧
      (branchLocationInstruction c function = m.read32 c ∧ m.read32 (c + 4) = instruction) ∧
      ∀ j < k, ¬ (branchLocationInstruction (current + BitVec.ofNat 64 (4 * j)) function =
        m.read32 (current + BitVec.ofNat 64 (4 * j)) ∧ m.read32 (current + BitVec.ofNat 64 (4 * j) + 4) = instruction) := by
  induction n generalizing current with
  | zero => cases h
  | succ n ih =>
    rw [findCallSite] at h
    split_ifs at h with hcall
    · obtain rfl : current = c := Option.some.inj h
      exact ⟨0, by omega, by simp, hcall, fun j hj => by omega⟩
    · obtain ⟨k, hk, hc, hthere, hbefore⟩ := ih h
      refine ⟨k + 1, by omega, by rw [hc]; bv_omega, hthere, ?_⟩
      intro j hj
      cases j with
      | zero => simpa using hcall
      | succ j =>
        rw [show current + BitVec.ofNat 64 (4 * (j + 1)) = current + 4 + BitVec.ofNat 64 (4 * j) by bv_omega]
        exact hbefore j (by omega)

theorem callSite_eq_none (h : callSite m winloadBase o = none) :
    ∀ k < windowWords (functionAddress winloadBase o.1), ¬ IsCall m winloadBase o k := by
  rw [callSite] at h
  exact findCallSite_eq_none h

theorem callSite_eq_some {c : BitVec 64} (h : callSite m winloadBase o = some c) :
    ∃ k < windowWords (functionAddress winloadBase o.1), c = functionAddress winloadBase o.1 + BitVec.ofNat 64 (4 * k) ∧
      IsCall m winloadBase o k ∧ ∀ j < k, ¬ IsCall m winloadBase o j := by
  rw [callSite] at h
  obtain ⟨k, hk, rfl, hcall, hbefore⟩ := findCallSite_eq_some h
  exact ⟨k, hk, rfl, hcall, hbefore⟩

theorem firstFound_of_firstCall {k : Nat} (h : FirstCall m winloadBase o k) :
    firstFound (callSite m winloadBase) offsets =
      some (o, functionAddress winloadBase o.1 + BitVec.ofNat 64 (4 * k)) := by
  obtain ⟨before, after, hsplit, hbefore⟩ := h.first
  rw [hsplit]
  refine firstFound_append ?_ ?_
  · intro o' ho'
    cases hsite : callSite m winloadBase o' with
    | none => rfl
    | some c =>
      obtain ⟨j, hj, -, hcall, -⟩ := callSite_eq_some hsite
      exact absurd hcall (hbefore o' ho' j hj)
  · cases hsite : callSite m winloadBase o with
    | none => exact absurd h.isCall (callSite_eq_none hsite k h.inWindow)
    | some c =>
      obtain ⟨j, hj, rfl, hcall, hlowest⟩ := callSite_eq_some hsite
      have hjk : j = k := by
        rcases Nat.lt_trichotomy j k with hlt | heq | hgt
        · exact absurd hcall (h.lowest j hlt)
        · exact heq
        · exact absurd h.isCall (hlowest k hgt)
      rw [hjk]

theorem firstCall_of_firstFound {c : BitVec 64} (h : firstFound (callSite m winloadBase) offsets = some (o, c)) :
    ∃ k, FirstCall m winloadBase o k ∧ c = functionAddress winloadBase o.1 + BitVec.ofNat 64 (4 * k) := by
  obtain ⟨before, after, hsplit, hbefore, hsite⟩ := firstFound_eq_some h
  obtain ⟨k, hk, hc, hcall, hlowest⟩ := callSite_eq_some hsite
  exact ⟨k, ⟨⟨before, after, hsplit, fun o' ho' => callSite_eq_none (hbefore o' ho')⟩, hk, hcall, hlowest⟩, hc⟩

/-! ## When it stays in the range -/

theorem inside_iff {address : BitVec 64} {bytes : List (BitVec 8)} (hpos : 0 < bytes.length) (hlen : bytes.length < 2 ^ 64) :
    Write.Inside winloadBase tempSize ⟨address, bytes⟩ ↔
      (address - (winloadBase + 0x1000#64)).toNat + bytes.length ≤ tempSize.toNat := by
  unfold Write.Inside Unprotected
  dsimp only
  constructor
  · intro h
    -- the bytes do not run over the end of the address space: the last address there is in no range
    have hend : (address - (winloadBase + 0x1000#64)).toNat + bytes.length ≤ 2 ^ 64 := by
      by_contra hover
      have hlast := h (2 ^ 64 - 1 - (address - (winloadBase + 0x1000#64)).toNat) (by omega)
      bv_omega
    have hlast := h (bytes.length - 1) (by omega)
    bv_omega
  · intro h i hi
    bv_omega

theorem windowWords_le (function : BitVec 64) : windowWords function ≤ 0xC0000 := by
  unfold windowWords scanMax
  bv_omega

theorem offsets_above : ∀ o ∈ offsets, 0x400 ≤ o.1.toNat ∧ o.1.toNat ≤ 0xE80 := by
  have hall : offsets.all (fun o => decide (0x400 ≤ o.1.toNat ∧ o.1.toNat ≤ 0xE80)) = true := by decide
  exact fun o ho => of_decide_eq_true (List.all_eq_true.1 hall o ho)

theorem length_shellCode (e : Errata) : 0 < e.shellCode.length ∧ e.shellCode.length < 0x1000 := by
  have hactlr : actlrEl1UnimplementedPatch.length = 144 := by decide +kernel
  have hamcnt : amcntenset0El0UnimplementedPatch.length = 112 := by decide +kernel
  have hgic : gicV3WithoutIrmFlagSupportPatch.length = 416 := by decide +kernel
  have hgic8 : gicV3WithoutIrmFlagSupportX8VariantPatch.length = 416 := by decide +kernel
  have hpsci : psciMemprotectFailingPatch.length = 208 := by decide +kernel
  obtain ⟨actlr, amcnt, gic, psci, hselected⟩ := e
  simp only [Errata.shellCode, List.length_append, apply_ite List.length, List.length_nil, hactlr, hamcnt, hgic, hgic8, hpsci]
  cases actlr <;> cases amcnt <;> cases gic <;> cases psci <;> simp at hselected ⊢

/-- The injected code and the call to it stay in the range if there is room for the code between the range's begin and
the function, and the call site is in the range. -/
theorem injectCode_inside_iff {k : Nat} (hpos : 0 < shellCode.length) (hlen : shellCode.length < 0x1000)
    (h : FirstCall m winloadBase o k) :
    (∀ w ∈ injectCode shellCode (functionAddress winloadBase o.1 - BitVec.ofNat 64 shellCode.length)
        (functionAddress winloadBase o.1 + BitVec.ofNat 64 (4 * k)), w.Inside winloadBase tempSize) ↔
      0x400 + shellCode.length ≤ o.1.toNat ∧ o.1.toNat + 4 * k + 4 ≤ 0x400 + tempSize.toNat := by
  obtain ⟨before, after, hsplit, -⟩ := h.first
  have ho := offsets_above o (by rw [hsplit]; simp)
  have hk : k < 0xC0000 := lt_of_lt_of_le h.inWindow (windowWords_le _)
  have hfunction : functionAddress winloadBase o.1 - (winloadBase + 0x1000#64) = BitVec.ofNat 64 (o.1.toNat - 0x400) := by
    unfold functionAddress
    bv_omega
  rw [injectCode, List.forall_mem_cons, List.forall_mem_singleton, inside_iff (by simp [wordBytes]) (by simp [wordBytes]),
    inside_iff hpos (by omega), length_wordBytes]
  generalize functionAddress winloadBase o.1 = function at hfunction
  constructor
  · rintro ⟨hsite, hcode⟩
    bv_omega
  · rintro ⟨hroom, hend⟩
    bv_omega

theorem injectFirst_inside_iff (hpos : 0 < shellCode.length) (hlen : shellCode.length < 0x1000) :
    (∀ w ∈ injectFirst m shellCode winloadBase offsets, w.Inside winloadBase tempSize) ↔
      ∀ o k, FirstCall m winloadBase o k →
        0x400 + shellCode.length ≤ o.1.toNat ∧ o.1.toNat + 4 * k + 4 ≤ 0x400 + tempSize.toNat := by
  rw [injectFirst_eq]
  constructor
  · intro h o k hfirst
    rw [firstFound_of_firstCall hfirst] at h
    exact (injectCode_inside_iff hpos hlen hfirst).1 h
  · intro h
    cases hfound : firstFound (callSite m winloadBase) offsets with
    | none =>
      intro w hw
      cases hw
    | some found =>
      obtain ⟨k, hfirst, hc⟩ := firstCall_of_firstFound hfound
      rw [injectionAt, hc]
      exact (injectCode_inside_iff hpos hlen hfirst).2 (h _ k hfirst)

theorem fixUp_inside_iff (e : Errata) (fwpKernelSetupPhase1 : BitVec 64) :
    (∀ w ∈ fixUp e m fwpKernelSetupPhase1, w.Inside winloadBase tempSize) ↔
      (e.actlrEl1 = true → illegalInstruction0 m fwpKernelSetupPhase1 scanMax ≠ 0 →
        (illegalInstruction0 m fwpKernelSetupPhase1 scanMax - (winloadBase + 0x1000#64)).toNat + 4 ≤ tempSize.toNat) := by
  rw [fixUp, applyReadACTLREL1Patches]
  split_ifs with hactlr hfound
  · rw [List.forall_mem_singleton, inside_iff (by simp) (by simp)]
    exact ⟨fun h _ _ => h, fun h => h hactlr hfound⟩
  · exact ⟨fun _ _ hne => absurd hne hfound, fun _ w hw => by cases hw⟩
  · exact ⟨fun _ hselected => absurd hselected hactlr, fun _ w hw => by cases hw⟩

/-- **The loader is found and all that is written to it is in the range that was made writable**, if and only if that
failed, so that nothing is written, or what is found there leaves room for the code. There is never room in front of
the last of the seven offsets, which is where the range begins. -/
theorem oslInterceptMain_writes_iff (protocol : Option MemoryAttributeProtocol) (e : Errata) (m : ByteMemory)
    (fwpKernelSetupPhase1 : BitVec 64) {b : BitVec 64} (himage : IsImage m b) (hb : b.toNat % 0x1000 = 0) :
    ∃ winloadBase tempSize writes, locateWinloadBase m fwpKernelSetupPhase1 = some (winloadBase, tempSize) ∧
      oslInterceptMain protocol e m fwpKernelSetupPhase1 = some writes ∧
      ((∀ w ∈ writes, w.Inside winloadBase tempSize) ↔
        unprotectWinload protocol (winloadBase + 0x1000#64) tempSize = false ∨
        StaysInside e m fwpKernelSetupPhase1 winloadBase tempSize) := by
  obtain ⟨⟨winloadBase, tempSize⟩, hlocate⟩ :=
    Option.isSome_iff_exists.1 (locateWinloadBase_isSome himage hb fwpKernelSetupPhase1)
  obtain ⟨hpos, hlen⟩ := length_shellCode e
  refine ⟨winloadBase, tempSize, _, hlocate, by rw [oslInterceptMain, hlocate, Option.map_some], ?_⟩
  dsimp only
  cases hunprotect : unprotectWinload protocol (winloadBase + 0x1000#64) tempSize with
  | false =>
    refine ⟨fun _ => .inl rfl, ?_⟩
    intro _ w hw
    rw [if_neg (by decide)] at hw
    cases hw
  | true =>
    rw [if_pos rfl, List.forall_mem_append, fixUp_inside_iff, injectFirst_inside_iff hpos hlen]
    constructor
    · rintro ⟨hfixUp, hinjection⟩
      exact .inr ⟨hfixUp, hinjection⟩
    · rintro (hfalse | hstays)
      · cases hfalse
      · exact ⟨hstays.fixUp, hstays.injection⟩

/-- A loader at `0x10000` that calls the function 16 bytes in front of the call, with an instruction behind the call. -/
def loaderCalling (site : BitVec 64) (instruction : BitVec 32) : ByteMemory :=
  ((((ByteMemory.write32 (fun _ => 0) 0x10000#64 0x5A4D#32).write32 0x1003C#64 0x80#32).write32 0x10080#64 0x4550#32).write32
    0x10190#64 0x4000#32).write32 site 0x97FFFFFC#32 |>.write32 (site + 4) instruction

/-- The build for AMCNTENSET0_EL0 only. -/
def amcntOnly : Errata := ⟨false, true, false, false, rfl⟩

theorem locateWinloadBase_loaderCalling {site : BitVec 64} {instruction : BitVec 32}
    (h1 : ¬ IsImage (loaderCalling site instruction) 0x12000#64) (h2 : ¬ IsImage (loaderCalling site instruction) 0x11000#64)
    (himage : IsImage (loaderCalling site instruction) 0x10000#64)
    (hsize : (loaderCalling site instruction).read32 (headersOf (loaderCalling site instruction) 0x10000#64 + 0x110#64) = 0x4000#32) :
    locateWinloadBase (loaderCalling site instruction) 0x12000#64 = some (0x10000#64, 0x4000#64) := by
  have hfuel : 2 ^ 52 = (2 ^ 52 - 3) + 1 + 1 + 1 := by norm_num
  rw [locateWinloadBase, hfuel, show pageUp 0x12000#64 = 0x12000#64 by decide, locateWinloadLoop, if_neg h1, locateWinloadLoop,
    show (0x12000#64 - 0x1000#64) = 0x11000#64 by decide, if_neg h2, locateWinloadLoop,
    show (0x11000#64 - 0x1000#64) = 0x10000#64 by decide, if_pos himage, hsize]
  decide

theorem read32_loaderCalling {site b : BitVec 64} {instruction : BitVec 32} (hsite : site.toNat % 4 = 0) (hb : b.toNat % 4 = 0)
    (hbehind : 0x11000 ≤ b.toNat) : (loaderCalling site instruction).read32 b =
      if b = site + 4 then instruction else if b = site then 0x97FFFFFC#32 else 0 := by
  have hzero : ByteMemory.read32 (fun _ => 0) b = 0 := by
    rw [read32]
    decide
  rw [loaderCalling, read32_write32_grid _ (by bv_omega), read32_write32_grid _ (by bv_omega),
    read32_write32_grid _ (by bv_omega),
    read32_write32_grid _ (by bv_omega), read32_write32_grid _ (by bv_omega), read32_write32_grid _ (by bv_omega),
    if_neg (show b ≠ 0x10190#64 by bv_omega), if_neg (show b ≠ 0x10080#64 by bv_omega), if_neg (show b ≠ 0x1003C#64 by bv_omega),
    if_neg (show b ≠ 0x10000#64 by bv_omega), hzero]

/-- The instructions behind the calls are not zero. -/
theorem not_isCall_of_zero {j : Nat} (hinstruction : o.2 ≠ 0)
    (hzero : m.read32 (functionAddress winloadBase o.1 + BitVec.ofNat 64 (4 * j) + 4) = 0) : ¬ IsCall m winloadBase o j := by
  rintro ⟨-, hnext⟩
  rw [hzero] at hnext
  exact hinstruction hnext.symm

/-- The loader of the last offset. -/
theorem firstCall_loaderCalling_last :
    FirstCall (loaderCalling 0x11010#64 0xD2800002#32) 0x10000#64 (0x400#32, 0xD2800002#32) 4 := by
  refine ⟨⟨offsets.take 6, [], by decide, ?_⟩, by decide, ⟨by decide +kernel, by decide +kernel⟩, ?_⟩
  · intro o' ho' j hj
    have hall : (offsets.take 6).all
        (fun o => decide (0x480 ≤ o.1.toNat ∧ o.1.toNat ≤ 0xE80 ∧ o.1.toNat % 4 = 0 ∧ o.2 ≠ 0)) = true := by decide
    obtain ⟨hlow, hhigh, hmod, hinstruction⟩ := of_decide_eq_true (List.all_eq_true.1 hall o' ho')
    have hwindow := windowWords_le (functionAddress 0x10000#64 o'.1)
    have haddress : (functionAddress 0x10000#64 o'.1).toNat = 0x10C00 + o'.1.toNat := by
      unfold functionAddress
      bv_omega
    refine not_isCall_of_zero hinstruction ?_
    rw [read32_loaderCalling (by decide) (by bv_omega) (by bv_omega), if_neg (by bv_omega), if_neg (by bv_omega)]
  · intro j hj
    rintro ⟨-, hnext⟩
    revert hnext
    interval_cases j <;> decide +kernel

/-- The code for the last offset is written in front of the range, over the headers. -/
theorem oslInterceptMain_writes_below :
    ∃ winloadBase tempSize writes w, IsImage (loaderCalling 0x11010#64 0xD2800002#32) 0x10000#64 ∧
      locateWinloadBase (loaderCalling 0x11010#64 0xD2800002#32) 0x12000#64 = some (winloadBase, tempSize) ∧
      oslInterceptMain none amcntOnly (loaderCalling 0x11010#64 0xD2800002#32) 0x12000#64 = some writes ∧
      w ∈ writes ∧ ¬ w.Inside winloadBase tempSize := by
  have himage : IsImage (loaderCalling 0x11010#64 0xD2800002#32) 0x10000#64 := by decide +kernel
  have hlocate : locateWinloadBase (loaderCalling 0x11010#64 0xD2800002#32) 0x12000#64 = some (0x10000#64, 0x4000#64) :=
    locateWinloadBase_loaderCalling (by decide +kernel) (by decide +kernel) himage (by decide +kernel)
  obtain ⟨hpos, hlen⟩ := length_shellCode amcntOnly
  have hout : ¬ ∀ w ∈ injectFirst (loaderCalling 0x11010#64 0xD2800002#32) amcntOnly.shellCode 0x10000#64 offsets,
      w.Inside 0x10000#64 0x4000#64 := by
    rw [injectFirst_inside_iff hpos hlen]
    intro h
    have hroom := (h _ _ firstCall_loaderCalling_last).1
    simp only [BitVec.toNat_ofNat] at hroom
    omega
  have hfixUp : fixUp amcntOnly (loaderCalling 0x11010#64 0xD2800002#32) 0x12000#64 = [] := rfl
  push Not at hout
  obtain ⟨w, hw, hnot⟩ := hout
  refine ⟨_, _, _, w, himage, hlocate, ?_, hw, hnot⟩
  rw [oslInterceptMain, hlocate, Option.map_some, hfixUp, applyWrites]
  dsimp only
  rw [if_pos (show unprotectWinload none (0x10000#64 + 0x1000#64) 0x4000#64 = true from rfl), List.nil_append]

theorem oslInterceptMain_writes_iff_nda0 :
    ∃ winloadBase tempSize writes,
      locateWinloadBase (loaderCalling 0x11A90#64 0x52800015#32) 0x12000#64 = some (winloadBase, tempSize) ∧
      oslInterceptMain none amcntOnly (loaderCalling 0x11A90#64 0x52800015#32) 0x12000#64 = some writes ∧
      ∀ w ∈ writes, w.Inside winloadBase tempSize := by
  have himage : IsImage (loaderCalling 0x11A90#64 0x52800015#32) 0x10000#64 := by decide +kernel
  have hlocate : locateWinloadBase (loaderCalling 0x11A90#64 0x52800015#32) 0x12000#64 = some (0x10000#64, 0x4000#64) :=
    locateWinloadBase_loaderCalling (by decide +kernel) (by decide +kernel) himage (by decide +kernel)
  have hfirst : FirstCall (loaderCalling 0x11A90#64 0x52800015#32) 0x10000#64 (0xE80#32, 0x52800015#32) 4 := by
    refine ⟨⟨[], offsets.tail, rfl, by simp⟩, by decide, ⟨by decide +kernel, by decide +kernel⟩, ?_⟩
    intro j hj
    rintro ⟨-, hnext⟩
    revert hnext
    interval_cases j <;> decide +kernel
  have hlen : amcntOnly.shellCode.length = 112 := by decide +kernel
  obtain ⟨winloadBase, tempSize, writes, hfound, hwrites, hiff⟩ :=
    oslInterceptMain_writes_iff none amcntOnly (loaderCalling 0x11A90#64 0x52800015#32) 0x12000#64 himage (by decide)
  refine ⟨winloadBase, tempSize, writes, hfound, hwrites, hiff.2 (.inr ⟨nofun, ?_⟩)⟩
  intro o k hcall
  obtain ⟨rfl, rfl⟩ : 0x10000#64 = winloadBase ∧ 0x4000#64 = tempSize := by simpa [hlocate] using hfound
  obtain ⟨rfl, hsame⟩ : (0xE80#32, 0x52800015#32) = o ∧ functionAddress 0x10000#64 0xE80#32 + BitVec.ofNat 64 (4 * 4) =
      functionAddress 0x10000#64 o.1 + BitVec.ofNat 64 (4 * k) := by
    have heq := (firstFound_of_firstCall hfirst).symm.trans (firstFound_of_firstCall hcall)
    simpa using heq
  have hk : k < 0xC0000 := lt_of_lt_of_le hcall.inWindow (windowWords_le _)
  rw [hlen]
  unfold functionAddress at hsame
  bv_omega

end Andromeda
