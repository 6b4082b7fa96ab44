import AndromedaBoot.Efi
import AndromedaBoot.Errata.Winload

/-!
# The hook on ExitBootServices (KernelErrataPatcherLib)

| here | there |
| --- | --- |
| `reProtectWinload`, `unprotect` | `ReProtectWinload`, `UnprotectWinload`, `MmuProtectionHelper.c` :21-81 |
| `interceptMain` | `OslInterceptMain` with both of them, `OsLoaderIntercepter.c` :125-209 |
| `installEFIBSIntercepter` | `InstallEFIBSIntercepter`, `BootServicesIntercepter.c` :36-43 |
| `kernelErrataPatcherExitBootServices` | `KernelErrataPatcherExitBootServices`, :20-34 |
| `readyToBootHandler` | `ReadyToBootHandler`, `KernelErrataPatcherLib.c` :20-28 |
| `exitBootServices` | a call of `gBS->ExitBootServices`, through `ExitBootServicesWrapper` if that is there |

The loader calls `ExitBootServices` in a loop, since the first calls may fail. `Errata.Winload` says what one run of
`OslInterceptMain` writes; here the hook is followed through a whole boot, with the attributes of the pages and the
boot services table. `EFI_MEMORY_ATTRIBUTE_PROTOCOL` is not part of the repository: each call of `ExitBootServices` comes
with any `AttributeProtocol`, whose fields say what its documentation does.
-/

namespace Andromeda

open Arm64 ByteMemory

/-! ## The attributes of pages -/

/-- `EFI_MEMORY_RO`. -/
def efiMemoryRo : BitVec 64 := 0x20000#64

/-- The attributes of the page at an address. -/
abbrev PageAttributes := BitVec 64 → BitVec 64

/-- The pages from `base` on. -/
def pagesOf (base length : BitVec 64) : List (BitVec 64) :=
  (List.range (length.toNat / 0x1000)).map fun i => base + BitVec.ofNat 64 (0x1000 * i)

/-- `EFI_MEMORY_ATTRIBUTE_PROTOCOL` during one call, with what is documented of it. What a call that fails has done is not
said, but that it stays in the range and in the mask. -/
structure AttributeProtocol where
  /-- `GetMemoryAttributes`, or an error. -/
  get : PageAttributes → BitVec 64 → BitVec 64 → Option (BitVec 64)
  /-- `ClearMemoryAttributes`: whether it succeeds, and the pages behind it. -/
  clear : PageAttributes → BitVec 64 → BitVec 64 → BitVec 64 → Bool × PageAttributes
  /-- `SetMemoryAttributes`. -/
  set : PageAttributes → BitVec 64 → BitVec 64 → BitVec 64 → Bool × PageAttributes
  /-- The attributes are those of all pages. -/
  get_eq : ∀ {a base length w}, get a base length = some w → ∀ page ∈ pagesOf base length, a page = w
  clear_outside : ∀ {a base length mask}, ∀ page ∉ pagesOf base length, (clear a base length mask).2 page = a page
  clear_masked : ∀ {a base length mask} page, (clear a base length mask).2 page ||| mask = a page ||| mask
  clear_done : ∀ {a base length mask}, (clear a base length mask).1 = true →
    ∀ page ∈ pagesOf base length, (clear a base length mask).2 page = a page &&& ~~~mask
  set_outside : ∀ {a base length mask}, ∀ page ∉ pagesOf base length, (set a base length mask).2 page = a page
  set_masked : ∀ {a base length mask} page, (set a base length mask).2 page ||| mask = a page ||| mask
  set_done : ∀ {a base length mask}, (set a base length mask).1 = true →
    ∀ page ∈ pagesOf base length, (set a base length mask).2 page = a page ||| mask

/-- No change of attributes fails. -/
def AttributeProtocol.Reliable (p : AttributeProtocol) : Prop :=
  ∀ a base length mask, (p.clear a base length mask).1 = true ∧ (p.set a base length mask).1 = true

/-- `mMemoryAttributeProtocol` on these pages, if it is there. -/
def AttributeProtocol.on (p : AttributeProtocol) (present : Bool) (a : PageAttributes) : Option MemoryAttributeProtocol :=
  if present then some ⟨p.get a, fun base length mask => (p.clear a base length mask).1⟩ else none

/-- `UnprotectWinload`: whether it succeeds, `WinloadAttributes`, and the pages. -/
def unprotect (present : Bool) (p : AttributeProtocol) (a : PageAttributes)
    (winloadAttributes winloadBase winloadLength : BitVec 64) :
    Bool × BitVec 64 × PageAttributes :=
  if present then
    match p.get a winloadBase winloadLength with
    | none => (false, winloadAttributes, a)
    | some winloadAttributes =>
      if winloadAttributes &&& efiMemoryRo ≠ 0 then
        let c := p.clear a winloadBase winloadLength efiMemoryRo
        (c.1, winloadAttributes, c.2)
      else (true, winloadAttributes, a)
  else (true, winloadAttributes, a)

/-- `ReProtectWinload`. -/
def reProtectWinload (present : Bool) (p : AttributeProtocol) (a : PageAttributes)
    (winloadAttributes winloadBase winloadLength : BitVec 64) :
    PageAttributes :=
  if present then
    if winloadAttributes &&& efiMemoryRo ≠ 0 then (p.set a winloadBase winloadLength efiMemoryRo).2 else a
  else a

/-! ## The boot services -/

/-- What `gBS->ExitBootServices` points to: a service of the firmware, or `ExitBootServicesWrapper`. -/
inductive ExitBootServices
  | service (n : Nat)
  | wrapper
deriving DecidableEq, Repr

/-- `EFI_BOOT_SERVICES` as far as the hook changes it; the other entries are `rest`. -/
structure BootServicesTable where
  crc32 : UInt32
  exitBootServices : ExitBootServices
  rest : Bytes
deriving DecidableEq, Repr

/-- A call that got through to the firmware. -/
structure ExitCall where
  service : Nat
  imageHandle : UInt64
  mapKey : UInt64
deriving DecidableEq, Repr

structure HookState where
  gBS : BootServicesTable
  mOriginalEfiExitBootServices : Option ExitBootServices
  /-- `mReadyToBootEvent` is not closed yet. -/
  readyToBootEvent : Bool
  /-- `mMemoryAttributeProtocol` is not `NULL`. -/
  mMemoryAttributeProtocol : Bool
  winloadAttributes : BitVec 64
  attributes : PageAttributes
  memory : ByteMemory
  exitCalls : List ExitCall
  /-- How often `OslInterceptMain` has run. -/
  intercepted : Nat

/-- What happens: the firmware is ready to boot, what is in memory or how it is protected changes, and the loader calls
`ExitBootServices`. -/
inductive BootEvent
  | readyToBoot
  | memory (m : ByteMemory)
  | attributes (a : PageAttributes)
  | exitBootServices (imageHandle mapKey : UInt64) (returnAddress : BitVec 64) (protocol : AttributeProtocol)

section Code

variable (calculateCrc32 : BootServicesTable → UInt32) (e : Errata)

/-- `gBS->ExitBootServices = ...` and the checksum of the table. -/
def BootServicesTable.hook (gBS : BootServicesTable) (exitBootServices : ExitBootServices) : BootServicesTable :=
  let gBS := { gBS with exitBootServices := exitBootServices, crc32 := 0 }
  { gBS with crc32 := calculateCrc32 gBS }

/-- `InstallEFIBSIntercepter`. -/
def installEFIBSIntercepter (s : HookState) : HookState :=
  { s with mOriginalEfiExitBootServices := some s.gBS.exitBootServices, gBS := s.gBS.hook calculateCrc32 .wrapper }

/-- `ReadyToBootHandler`, unless its event is closed. -/
def readyToBootHandler (s : HookState) : HookState :=
  if s.readyToBootEvent then { installEFIBSIntercepter calculateCrc32 s with readyToBootEvent := false } else s

/-- `OslInterceptMain`; `none` stands for not returning. -/
def interceptMain (fwpKernelSetupPhase1 : BitVec 64) (protocol : AttributeProtocol) (s : HookState) : Option HookState :=
  (locateWinloadBase s.memory fwpKernelSetupPhase1).map fun (winloadBase, tempSize) =>
    let s := { s with intercepted := s.intercepted + 1 }
    let u := unprotect s.mMemoryAttributeProtocol protocol s.attributes s.winloadAttributes (winloadBase + 0x1000#64) tempSize
    if u.1 then
      let fixedUp := applyWrites s.memory (fixUp e s.memory fwpKernelSetupPhase1)
      { s with
        memory := applyWrites fixedUp (injectFirst fixedUp e.shellCode winloadBase offsets)
        winloadAttributes := u.2.1
        attributes := reProtectWinload s.mMemoryAttributeProtocol protocol u.2.2 u.2.1 (winloadBase + 0x1000#64) tempSize }
    else { s with winloadAttributes := u.2.1, attributes := u.2.2 }

/-- A call that is made through the table while the wrapper is not there. -/
def callService (imageHandle mapKey : UInt64) (s : HookState) : Option HookState :=
  match s.gBS.exitBootServices with
  | .service n => some { s with exitCalls := s.exitCalls ++ [⟨n, imageHandle, mapKey⟩] }
  | .wrapper => none

/-- `KernelErrataPatcherExitBootServices`; `none` stands for not returning, or for a call of `NULL`. -/
def kernelErrataPatcherExitBootServices (imageHandle mapKey : UInt64) (fwpKernelSetupPhase1 : BitVec 64)
    (protocol : AttributeProtocol) (s : HookState) : Option HookState :=
  match s.mOriginalEfiExitBootServices with
  | none => none
  | some original =>
    (interceptMain e fwpKernelSetupPhase1 protocol { s with gBS := s.gBS.hook calculateCrc32 original }).bind
      (callService imageHandle mapKey)

/-- `gBS->ExitBootServices (ImageHandle, MapKey)`, to return to `returnAddress`. -/
def exitBootServices (imageHandle mapKey : UInt64) (returnAddress : BitVec 64) (protocol : AttributeProtocol) (s : HookState) :
    Option HookState :=
  match s.gBS.exitBootServices with
  | .service _ => callService imageHandle mapKey s
  -- `mov x2, x30` and on: the address the call returns to is in the loader
  | .wrapper => kernelErrataPatcherExitBootServices calculateCrc32 e imageHandle mapKey returnAddress protocol s

def hookStep : BootEvent → HookState → Option HookState
  | .readyToBoot, s => some (readyToBootHandler calculateCrc32 s)
  | .memory m, s => some { s with memory := m }
  | .attributes a, s => some { s with attributes := a }
  | .exitBootServices imageHandle mapKey returnAddress protocol, s =>
    exitBootServices calculateCrc32 e imageHandle mapKey returnAddress protocol s

def runHook : List BootEvent → HookState → Option HookState
  | [], s => some s
  | event :: events, s => (hookStep calculateCrc32 e event s).bind (runHook events)

/-- The state behind `KernelErrataPatcherLibConstructor`. -/
def constructed (gBS : BootServicesTable) (protocol : Bool) (m : ByteMemory) (a : PageAttributes) : HookState where
  gBS := gBS
  mOriginalEfiExitBootServices := none
  readyToBootEvent := true
  mMemoryAttributeProtocol := protocol
  winloadAttributes := 0
  attributes := a
  memory := m
  exitCalls := []
  intercepted := 0

end Code

/-! ## What the hook is for -/

/-- Where the hook is: not installed yet, in the table, or through. -/
inductive HookPhase
  | idle
  | armed
  | spent
deriving DecidableEq, Repr

/-- The boot as it is meant to be: the loader is patched at its first call after the firmware is ready, and nothing else
happens to it. -/
structure PatchOnce where
  phase : HookPhase
  memory : ByteMemory
  attributes : PageAttributes

section Meant

variable (e : Errata) (present : Bool)

def PatchOnce.step : BootEvent → PatchOnce → PatchOnce
  | .readyToBoot, i => if i.phase = .idle then { i with phase := .armed } else i
  | .memory m, i => { i with memory := m }
  | .attributes a, i => { i with attributes := a }
  | .exitBootServices _ _ returnAddress protocol, i =>
    if i.phase = .armed then
      { i with
        phase := .spent
        memory := applyWrites i.memory
          ((oslInterceptMain (protocol.on present i.attributes) e i.memory returnAddress).getD []) }
    else i

def PatchOnce.run (events : List BootEvent) (i : PatchOnce) : PatchOnce :=
  events.foldl (fun i event => PatchOnce.step e present event i) i

end Meant

/-- The calls the loader makes. -/
def callsOf (n : Nat) : List BootEvent → List ExitCall
  | [] => []
  | .exitBootServices imageHandle mapKey _ _ :: events => ⟨n, imageHandle, mapKey⟩ :: callsOf n events
  | .readyToBoot :: events | .memory _ :: events | .attributes _ :: events => callsOf n events

/-- Somewhere at a page is an image, as the loader that makes the call is. -/
def HasImage (m : ByteMemory) : Prop := ∃ b : BitVec 64, b.toNat % 0x1000 = 0 ∧ IsImage m b

/-- No change of attributes fails in this call. -/
def BootEvent.Reliable : BootEvent → Prop
  | .exitBootServices _ _ _ protocol => protocol.Reliable
  | _ => True

/-- The checksum of the table is right. -/
def BootServicesTable.Checked (calculateCrc32 : BootServicesTable → UInt32) (gBS : BootServicesTable) : Prop :=
  gBS.crc32 = calculateCrc32 { gBS with crc32 := 0 }

/-! ## The protection of the loader -/

theorem and_not_or (x mask : BitVec 64) : (x &&& ~~~mask) ||| mask = x ||| mask := by
  ext i hi
  simp only [BitVec.getElem_or, BitVec.getElem_and, BitVec.getElem_not]
  cases x[i] <;> cases mask[i] <;> rfl

theorem or_efiMemoryRo {x : BitVec 64} (h : x &&& efiMemoryRo ≠ 0) : x ||| efiMemoryRo = x := by
  have hro : efiMemoryRo = BitVec.twoPow 64 17 := by decide
  rw [hro, BitVec.and_twoPow] at h
  split_ifs at h with hbit
  · rw [hro]
    ext i hi
    rw [BitVec.getElem_or, BitVec.getElem_twoPow]
    by_cases h17 : i = 17
    · subst h17
      simpa using hbit
    · simp [h17]
  · simp at h

/-- The pages differ at most in whether they are read-only. -/
def SameButReadOnly (a b : PageAttributes) : Prop := ∀ page, a page ||| efiMemoryRo = b page ||| efiMemoryRo

section Protection

variable (present : Bool) (p : AttributeProtocol) (a : PageAttributes) (winloadAttributes base length : BitVec 64)

/-- Whether the loader may be written is what `Errata.Winload` has. -/
theorem unprotect_eq :
    (unprotect present p a winloadAttributes base length).1 = unprotectWinload (p.on present a) base length := by
  unfold unprotect unprotectWinload AttributeProtocol.on
  cases present with
  | false => rfl
  | true =>
    simp only [↓reduceIte]
    cases p.get a base length with
    | none => rfl
    | some w =>
      dsimp only
      by_cases hro : w &&& efiMemoryRo ≠ 0
      · rw [if_pos hro, if_pos (show w &&& 0x20000#64 ≠ 0 from hro)]
        rfl
      · rw [if_neg hro, if_neg (show ¬ w &&& 0x20000#64 ≠ 0 from hro)]

/-- Where the loader may not be written it is protected as before, unless it was lost that it is read-only. -/
theorem unprotect_fails (h : (unprotect present p a winloadAttributes base length).1 = false) :
    (p.Reliable → (unprotect present p a winloadAttributes base length).2.2 = a) ∧
      SameButReadOnly (unprotect present p a winloadAttributes base length).2.2 a := by
  have hrefl : SameButReadOnly a a := fun _ => rfl
  unfold unprotect at h ⊢
  cases present with
  | false => exact ⟨fun _ => rfl, hrefl⟩
  | true =>
    simp only [↓reduceIte] at h ⊢
    cases hget : p.get a base length with
    | none => exact ⟨fun _ => rfl, hrefl⟩
    | some w =>
      rw [hget] at h
      dsimp only at h ⊢
      split_ifs at h ⊢ with hro
      exact ⟨fun hreliable => absurd (h.symm.trans (hreliable a base length efiMemoryRo).1) (by decide), p.clear_masked⟩

/-- **The loader is protected as before**, unless that fails; and then nothing but its protection is lost. -/
theorem reProtectWinload_unprotect :
    let u := unprotect present p a winloadAttributes base length
    u.1 = true →
      (p.Reliable → reProtectWinload present p u.2.2 u.2.1 base length = a) ∧
        SameButReadOnly (reProtectWinload present p u.2.2 u.2.1 base length) a := by
  intro u hok
  have hrefl : SameButReadOnly a a := fun _ => rfl
  have hu : u = unprotect present p a winloadAttributes base length := rfl
  clear_value u
  unfold unprotect at hu
  unfold reProtectWinload
  cases present with
  | false =>
    subst hu
    exact ⟨fun _ => rfl, hrefl⟩
  | true =>
    simp only [↓reduceIte] at hu ⊢
    cases hget : p.get a base length with
    | none =>
      rw [hget] at hu
      subst hu
      cases hok
    | some w =>
      simp only [hget] at hu
      split_ifs at hu with hro
      · subst hu
        dsimp only at hok ⊢
        rw [if_pos hro]
        refine ⟨fun hreliable => funext fun page => ?_, fun page => (p.set_masked page).trans (p.clear_masked page)⟩
        by_cases hpage : page ∈ pagesOf base length
        · have hwas : a page = w := p.get_eq hget page hpage
          rw [p.set_done (hreliable _ base length efiMemoryRo).2 page hpage, p.clear_done hok page hpage, and_not_or,
            or_efiMemoryRo (by rw [hwas]; exact hro)]
        · rw [p.set_outside page hpage, p.clear_outside page hpage]
      · subst hu
        rw [if_neg hro]
        exact ⟨fun _ => rfl, hrefl⟩

end Protection

/-! ## One interception -/

theorem applyWrites_append (m : ByteMemory) (ws ws' : List Write) :
    applyWrites m (ws ++ ws') = applyWrites (applyWrites m ws) ws' := by
  induction ws generalizing m with
  | nil => rfl
  | cons w ws ih => exact ih _

section Hook

variable {calculateCrc32 : BootServicesTable → UInt32} {e : Errata}

/-- What is left of a run of `OslInterceptMain`: the writes it is said to make, the protection, and a count. -/
theorem interceptMain_spec {s : HookState} (himage : HasImage s.memory) (returnAddress : BitVec 64)
    (protocol : AttributeProtocol) :
    ∃ writes winloadAttributes attributes,
      oslInterceptMain (protocol.on s.mMemoryAttributeProtocol s.attributes) e s.memory returnAddress = some writes ∧
      interceptMain e returnAddress protocol s = some
        { s with
          memory := applyWrites s.memory writes
          winloadAttributes := winloadAttributes
          attributes := attributes
          intercepted := s.intercepted + 1 } ∧
      (protocol.Reliable → attributes = s.attributes) ∧ SameButReadOnly attributes s.attributes := by
  obtain ⟨b, hpage, hb⟩ := himage
  obtain ⟨⟨winloadBase, tempSize⟩, hlocate⟩ := Option.isSome_iff_exists.1 (locateWinloadBase_isSome hb hpage returnAddress)
  have hunprotect := unprotect_eq s.mMemoryAttributeProtocol protocol s.attributes s.winloadAttributes
    (winloadBase + 0x1000#64) tempSize
  cases hok : (unprotect s.mMemoryAttributeProtocol protocol s.attributes s.winloadAttributes (winloadBase + 0x1000#64)
      tempSize).1 with
  | false =>
    rw [hok] at hunprotect
    obtain ⟨hexact, hsame⟩ := unprotect_fails _ _ _ _ _ _ hok
    refine ⟨[], (unprotect s.mMemoryAttributeProtocol protocol s.attributes s.winloadAttributes (winloadBase + 0x1000#64)
      tempSize).2.1, _, ?_, ?_, hexact, hsame⟩
    · simp only [oslInterceptMain, hlocate, Option.map_some, ← hunprotect, Bool.false_eq_true, ↓reduceIte]
    · simp only [interceptMain, hlocate, Option.map_some, hok, Bool.false_eq_true, ↓reduceIte, applyWrites]
  | true =>
    rw [hok] at hunprotect
    obtain ⟨hexact, hsame⟩ := reProtectWinload_unprotect _ _ _ _ _ _ hok
    refine ⟨fixUp e s.memory returnAddress ++
      injectFirst (applyWrites s.memory (fixUp e s.memory returnAddress)) e.shellCode winloadBase offsets,
      (unprotect s.mMemoryAttributeProtocol protocol s.attributes s.winloadAttributes (winloadBase + 0x1000#64) tempSize).2.1,
      _, ?_, ?_, hexact, hsame⟩
    · simp only [oslInterceptMain, hlocate, Option.map_some, ← hunprotect, ↓reduceIte]
    · simp only [interceptMain, hlocate, Option.map_some, hok, ↓reduceIte, applyWrites_append]

/-! ## A whole boot -/

/-- The table of the services in each phase. -/
def tableIn (calculateCrc32 : BootServicesTable → UInt32) (gBS : BootServicesTable) : HookPhase → BootServicesTable
  | .armed => gBS.hook calculateCrc32 .wrapper
  | .idle | .spent => gBS

/-- The hook and what it is for, after events that are `clean` if no change of attributes failed. -/
structure HookState.Simulates (calculateCrc32 : BootServicesTable → UInt32) (gBS : BootServicesTable) (present : Bool)
    (clean : Prop) (s : HookState) (i : PatchOnce) : Prop where
  table : s.gBS = tableIn calculateCrc32 gBS i.phase
  original : i.phase = .armed → s.mOriginalEfiExitBootServices = some gBS.exitBootServices
  event : s.readyToBootEvent = true ↔ i.phase = .idle
  protocol : s.mMemoryAttributeProtocol = present
  memory : s.memory = i.memory
  intercepted : s.intercepted = if i.phase = .spent then 1 else 0
  before : i.phase ≠ .spent → s.attributes = i.attributes
  exact : clean → s.attributes = i.attributes
  same : SameButReadOnly s.attributes i.attributes

/-- Taking the hook away leaves the table as it was found. -/
theorem BootServicesTable.hook_hook {gBS : BootServicesTable} (hcrc : gBS.Checked calculateCrc32) :
    (gBS.hook calculateCrc32 .wrapper).hook calculateCrc32 gBS.exitBootServices = gBS := by
  obtain ⟨crc32, exitBootServices, rest⟩ := gBS
  simp only [BootServicesTable.hook, BootServicesTable.mk.injEq, and_true]
  exact hcrc.symm

variable {gBS : BootServicesTable} {n : Nat} {present : Bool} {clean : Prop} {s : HookState} {i : PatchOnce}

/-- A call while the table has the service of the firmware. -/
theorem HookState.exitBootServices_service (hservice : s.gBS.exitBootServices = .service n) (imageHandle mapKey : UInt64)
    (returnAddress : BitVec 64) (protocol : AttributeProtocol) :
    exitBootServices calculateCrc32 e imageHandle mapKey returnAddress protocol s =
      some { s with exitCalls := s.exitCalls ++ [⟨n, imageHandle, mapKey⟩] } := by
  simp only [exitBootServices, callService, hservice]

theorem kernelErrataPatcherExitBootServices_of_original {original : ExitBootServices}
    (h : s.mOriginalEfiExitBootServices = some original) (imageHandle mapKey : UInt64) (returnAddress : BitVec 64)
    (protocol : AttributeProtocol) :
    kernelErrataPatcherExitBootServices calculateCrc32 e imageHandle mapKey returnAddress protocol s =
      (interceptMain e returnAddress protocol { s with gBS := s.gBS.hook calculateCrc32 original }).bind
        (callService imageHandle mapKey) := by
  unfold kernelErrataPatcherExitBootServices
  cases hmatch : s.mOriginalEfiExitBootServices with
  | none => simp [hmatch] at h
  | some found =>
    obtain rfl := Option.some.inj (hmatch.symm.trans h)
    rfl

/-- The call that patches the loader. -/
theorem HookState.Simulates.patch {m : ByteMemory} {a : PageAttributes} (hcrc : gBS.Checked calculateCrc32)
    (hservice : gBS.exitBootServices = .service n) (h : s.Simulates calculateCrc32 gBS present clean ⟨.armed, m, a⟩)
    (himage : HasImage m) (imageHandle mapKey : UInt64) (returnAddress : BitVec 64) (protocol : AttributeProtocol)
    (hclean : clean → protocol.Reliable) :
    ∃ s', exitBootServices calculateCrc32 e imageHandle mapKey returnAddress protocol s = some s' ∧
      s'.Simulates calculateCrc32 gBS present clean
        ⟨.spent, applyWrites m ((oslInterceptMain (protocol.on present a) e m returnAddress).getD []), a⟩ ∧
      s'.exitCalls = s.exitCalls ++ [⟨n, imageHandle, mapKey⟩] := by
  have htable : s.gBS = gBS.hook calculateCrc32 .wrapper := h.table
  have hattributes : s.attributes = a := h.before (by simp)
  have hmemory : s.memory = m := h.memory
  have hback : s.gBS.hook calculateCrc32 gBS.exitBootServices = gBS := by rw [htable, BootServicesTable.hook_hook hcrc]
  obtain ⟨writes, w, a', hwrites, hmain, hexact, hsame⟩ :=
    interceptMain_spec (e := e) (s := { s with gBS := gBS }) (hmemory ▸ himage) returnAddress protocol
  refine ⟨{ s with
    gBS := gBS
    memory := applyWrites s.memory writes
    winloadAttributes := w
    attributes := a'
    intercepted := s.intercepted + 1
    exitCalls := s.exitCalls ++ [⟨n, imageHandle, mapKey⟩] }, ?_, ?_, rfl⟩
  · have hwrapper : s.gBS.exitBootServices = .wrapper := by rw [htable]; rfl
    rw [exitBootServices, hwrapper]
    dsimp only
    rw [kernelErrataPatcherExitBootServices_of_original (h.original rfl), hback, hmain, Option.bind_some]
    simp only [callService, hservice]
  · have hpatched : (oslInterceptMain (protocol.on present a) e m returnAddress).getD [] = writes := by
      rw [← hattributes, ← hmemory, ← h.protocol]
      exact (congrArg (·.getD []) hwrites)
    rw [hpatched]
    refine ⟨rfl, by simp, ?_, h.protocol, by rw [hmemory], ?_, by simp, ?_, ?_⟩
    · have hclosed : ¬ s.readyToBootEvent = true := fun hopen => absurd (h.event.1 hopen) (by simp)
      simpa using hclosed
    · have hcount : s.intercepted = 0 := by simpa using h.intercepted
      simp [hcount]
    · intro hc
      exact (hexact (hclean hc)).trans hattributes
    · rw [← hattributes]
      exact hsame

/-- **One event.** -/
theorem HookState.Simulates.step (hcrc : gBS.Checked calculateCrc32) (hservice : gBS.exitBootServices = .service n)
    (h : s.Simulates calculateCrc32 gBS present clean i) (event : BootEvent) (hclean : clean → event.Reliable)
    (himage : i.phase ≠ .spent → HasImage i.memory) :
    ∃ s', hookStep calculateCrc32 e event s = some s' ∧
      s'.Simulates calculateCrc32 gBS present clean (i.step e present event) ∧
      s'.exitCalls = s.exitCalls ++ callsOf n [event] := by
  obtain ⟨phase, memory, attributes⟩ := i
  cases event with
  | readyToBoot =>
    refine ⟨_, rfl, ?_, by unfold readyToBootHandler; split_ifs <;> simp [installEFIBSIntercepter, callsOf]⟩
    by_cases hidle : phase = .idle
    · subst hidle
      have hopen := h.event.2 rfl
      simp only [readyToBootHandler, hopen, ↓reduceIte, PatchOnce.step]
      have htable : s.gBS = gBS := h.table
      exact ⟨by rw [← htable]; rfl, fun _ => by rw [← htable]; rfl, by simp, h.protocol, h.memory, h.intercepted,
        fun _ => h.before (by simp), h.exact, h.same⟩
    · have hclosed : ¬ s.readyToBootEvent = true := fun hopen => hidle (h.event.1 hopen)
      rw [readyToBootHandler, if_neg hclosed, PatchOnce.step, if_neg hidle]
      exact h
  | memory m =>
    exact ⟨_, rfl, ⟨h.table, h.original, h.event, h.protocol, rfl, h.intercepted, h.before, h.exact, h.same⟩,
      (List.append_nil _).symm⟩
  | attributes a =>
    exact ⟨_, rfl, ⟨h.table, h.original, h.event, h.protocol, h.memory, h.intercepted, fun _ => rfl, fun _ => rfl, fun _ => rfl⟩,
      (List.append_nil _).symm⟩
  | exitBootServices imageHandle mapKey returnAddress protocol =>
    by_cases harmed : phase = .armed
    · subst harmed
      obtain ⟨s', hcall, hpatched, hcalls⟩ :=
        h.patch (e := e) hcrc hservice (himage (by simp)) imageHandle mapKey returnAddress protocol hclean
      refine ⟨s', hcall, ?_, hcalls⟩
      simpa only [PatchOnce.step, ↓reduceIte] using hpatched
    · have hfree : s.gBS = gBS := by
        rw [h.table]
        cases phase with
        | armed => exact absurd rfl harmed
        | idle | spent => rfl
      rw [PatchOnce.step, if_neg harmed]
      refine ⟨_, HookState.exitBootServices_service (by rw [hfree, hservice]) _ _ _ _, ?_, rfl⟩
      exact ⟨h.table, h.original, h.event, h.protocol, h.memory, h.intercepted, h.before, h.exact, h.same⟩

theorem callsOf_cons (event : BootEvent) (events : List BootEvent) :
    callsOf n (event :: events) = callsOf n [event] ++ callsOf n events := by
  cases event <;> rfl

/-- What is in memory before the loader is patched was there or came with an event. -/
theorem PatchOnce.memory_step (event : BootEvent) (hspent : (i.step e present event).phase ≠ .spent) :
    i.phase ≠ .spent ∧ ((i.step e present event).memory = i.memory ∨ .memory (i.step e present event).memory = event) := by
  cases event with
  | readyToBoot =>
    simp only [PatchOnce.step] at hspent ⊢
    split_ifs with hidle
    · exact ⟨by simp [hidle], .inl rfl⟩
    · rw [if_neg hidle] at hspent
      exact ⟨hspent, .inl rfl⟩
  | memory m => exact ⟨hspent, .inr rfl⟩
  | attributes a => exact ⟨hspent, .inl rfl⟩
  | exitBootServices imageHandle mapKey returnAddress protocol =>
    simp only [PatchOnce.step] at hspent ⊢
    split_ifs with harmed
    · simp [harmed] at hspent
    · rw [if_neg harmed] at hspent
      exact ⟨hspent, .inl rfl⟩

/-- **All events.** -/
theorem HookState.Simulates.run (hcrc : gBS.Checked calculateCrc32) (hservice : gBS.exitBootServices = .service n)
    (events : List BootEvent) (h : s.Simulates calculateCrc32 gBS present clean i)
    (hclean : clean → ∀ event ∈ events, event.Reliable) (himage : i.phase ≠ .spent → HasImage i.memory)
    (himages : ∀ m, .memory m ∈ events → HasImage m) :
    ∃ s', runHook calculateCrc32 e events s = some s' ∧
      s'.Simulates calculateCrc32 gBS present clean (i.run e present events) ∧
      s'.exitCalls = s.exitCalls ++ callsOf n events := by
  induction events generalizing s i with
  | nil => exact ⟨s, rfl, h, (List.append_nil _).symm⟩
  | cons event events ih =>
    obtain ⟨s₁, hstep, h₁, hcalls₁⟩ :=
      h.step (e := e) hcrc hservice event (fun hc => hclean hc event List.mem_cons_self) himage
    have himage₁ : (i.step e present event).phase ≠ .spent → HasImage (i.step e present event).memory := by
      intro hspent
      obtain ⟨hbefore, hmemory⟩ := PatchOnce.memory_step event hspent
      rcases hmemory with heq | hnew
      · rw [heq]
        exact himage hbefore
      · exact himages _ (by rw [hnew]; exact List.mem_cons_self)
    obtain ⟨s', hrun, h', hcalls'⟩ := ih h₁ (fun hc ev hev => hclean hc ev (List.mem_cons_of_mem _ hev)) himage₁
      fun m hm => himages m (List.mem_cons_of_mem _ hm)
    refine ⟨s', by rw [runHook, hstep]; exact hrun, h', ?_⟩
    rw [hcalls', hcalls₁, List.append_assoc, ← callsOf_cons]

end Hook

/-- **The hook patches once and gets out of the way.** Take a table of the boot services whose checksum is right, and
loaders that are in an image. In whatever order the firmware gets ready, memory and its protection change and
`ExitBootServices` is called: every call reaches the service of the firmware as it was made; the memory is that of a
boot in which the first call after the firmware is ready patches the loader and nothing else does; the table has the
hook between these two events, with a right checksum, and else is as it was found; and the protection of the pages
is not changed, unless a change of it fails, and then nothing else of their attributes is lost. -/
theorem runHook_patches_once (calculateCrc32 : BootServicesTable → UInt32) (e : Errata) (gBS : BootServicesTable) {n : Nat}
    (hcrc : gBS.Checked calculateCrc32) (hservice : gBS.exitBootServices = .service n) (present : Bool) (m : ByteMemory)
    (a : PageAttributes) (events : List BootEvent) (himages : ∀ m', m' = m ∨ .memory m' ∈ events → HasImage m') :
    let i := PatchOnce.run e present events ⟨.idle, m, a⟩
    ∃ s, runHook calculateCrc32 e events (constructed gBS present m a) = some s ∧
      s.exitCalls = callsOf n events ∧ s.memory = i.memory ∧
      s.intercepted = (if i.phase = .spent then 1 else 0) ∧
      s.gBS = tableIn calculateCrc32 gBS i.phase ∧ s.gBS.Checked calculateCrc32 ∧
      ((∀ event ∈ events, event.Reliable) → s.attributes = i.attributes) ∧ SameButReadOnly s.attributes i.attributes := by
  intro i
  have hstart : (constructed gBS present m a).Simulates calculateCrc32 gBS present
      (∀ event ∈ events, event.Reliable) ⟨.idle, m, a⟩ :=
    ⟨rfl, by simp, by simp [constructed], rfl, rfl, rfl, fun _ => rfl, fun _ => rfl, fun _ => rfl⟩
  obtain ⟨s, hrun, h, hcalls⟩ := hstart.run (e := e) hcrc hservice events (fun hclean => hclean) (fun _ => himages m (.inl rfl))
    fun m' hm' => himages m' (.inr hm')
  refine ⟨s, hrun, hcalls, h.memory, h.intercepted, h.table, ?_, h.exact, h.same⟩
  rw [h.table]
  cases PatchOnce.phase (PatchOnce.run e present events ⟨.idle, m, a⟩) with
  | idle | spent => exact hcrc
  | armed => exact rfl

/-! ## A protocol that fails nothing -/

/-- The attributes that all pages have. -/
def PageAttributes.get (a : PageAttributes) (base length : BitVec 64) : Option (BitVec 64) :=
  match pagesOf base length with
  | [] => none
  | page :: pages => if pages.all (fun p => a p == a page) then some (a page) else none

def PageAttributes.clear (a : PageAttributes) (base length mask : BitVec 64) : PageAttributes := fun page =>
  if page ∈ pagesOf base length then a page &&& ~~~mask else a page

def PageAttributes.set (a : PageAttributes) (base length mask : BitVec 64) : PageAttributes := fun page =>
  if page ∈ pagesOf base length then a page ||| mask else a page

section Reference

variable {a : PageAttributes} {base length mask w : BitVec 64}

theorem PageAttributes.get_eq (h : a.get base length = some w) (page : BitVec 64)
    (hpage : page ∈ pagesOf base length) : a page = w := by
  unfold PageAttributes.get at h
  cases hpages : pagesOf base length with
  | nil => simp [hpages] at hpage
  | cons first pages =>
    simp only [hpages] at h hpage
    split_ifs at h with hall
    obtain rfl := Option.some.inj h
    rcases List.mem_cons.1 hpage with rfl | hmem
    · rfl
    · simpa using List.all_eq_true.1 hall page hmem

theorem PageAttributes.clear_outside (page : BitVec 64) (h : page ∉ pagesOf base length) :
    a.clear base length mask page = a page := if_neg h

theorem PageAttributes.clear_masked (page : BitVec 64) : a.clear base length mask page ||| mask = a page ||| mask := by
  unfold PageAttributes.clear
  split_ifs
  · exact and_not_or _ _
  · rfl

theorem PageAttributes.clear_done (_ : true = true) (page : BitVec 64) (h : page ∈ pagesOf base length) :
    a.clear base length mask page = a page &&& ~~~mask := if_pos h

theorem PageAttributes.set_outside (page : BitVec 64) (h : page ∉ pagesOf base length) :
    a.set base length mask page = a page := if_neg h

theorem PageAttributes.set_masked (page : BitVec 64) : a.set base length mask page ||| mask = a page ||| mask := by
  unfold PageAttributes.set
  split_ifs
  · rw [BitVec.or_assoc, BitVec.or_self]
  · rfl

theorem PageAttributes.set_done (_ : true = true) (page : BitVec 64) (h : page ∈ pagesOf base length) :
    a.set base length mask page = a page ||| mask := if_pos h

end Reference

def referenceProtocol : AttributeProtocol where
  get := PageAttributes.get
  clear a base length mask := (true, a.clear base length mask)
  set a base length mask := (true, a.set base length mask)
  get_eq := PageAttributes.get_eq
  clear_outside := PageAttributes.clear_outside
  clear_masked := PageAttributes.clear_masked
  clear_done := PageAttributes.clear_done
  set_outside := PageAttributes.set_outside
  set_masked := PageAttributes.set_masked
  set_done := PageAttributes.set_done

/-- Two calls after the firmware is ready; the first one patches. -/
theorem runHook_patches_once_oneImage :
    let crc : BootServicesTable → UInt32 := fun gBS => gBS.crc32 + 7
    ∃ s, runHook crc amcntOnly [.readyToBoot, .exitBootServices 1 2 0x11234#64 referenceProtocol,
        .exitBootServices 1 3 0x11234#64 referenceProtocol]
        (constructed ⟨7, .service 7, []⟩ true oneImage fun _ => efiMemoryRo) = some s ∧
      s.exitCalls = [⟨7, 1, 2⟩, ⟨7, 1, 3⟩] ∧ s.intercepted = 1 ∧ s.attributes = fun _ => efiMemoryRo := by
  intro crc
  have himages : ∀ m', m' = oneImage ∨ .memory m' ∈ [BootEvent.readyToBoot, .exitBootServices 1 2 0x11234#64 referenceProtocol,
      .exitBootServices 1 3 0x11234#64 referenceProtocol] → HasImage m' := by
    rintro m' (rfl | hm)
    · exact ⟨0x10000#64, by decide, by decide +kernel⟩
    · simp at hm
  have hreliable : ∀ event ∈ [BootEvent.readyToBoot, .exitBootServices 1 2 0x11234#64 referenceProtocol,
      .exitBootServices 1 3 0x11234#64 referenceProtocol], event.Reliable := by
    simp [BootEvent.Reliable, AttributeProtocol.Reliable, referenceProtocol]
  obtain ⟨s, hrun, hcalls, -, hcount, -, -, hattributes, -⟩ := runHook_patches_once crc amcntOnly
    ⟨7, .service 7, []⟩ rfl rfl true oneImage (fun _ => efiMemoryRo) _ himages
  exact ⟨s, hrun, hcalls, hcount, hattributes hreliable⟩

end Andromeda
