import AndromedaBoot.Errata.Branch
import AndromedaBoot.Errata.ShellCode

/-!
# Injecting code into the OS loader (KernelErrataPatcherLib/OsLoaderIntercepter.c :75-192)

| here | there |
| --- | --- |
| `injectCode` | `InjectCodeIntoOsLoaderArm64TransferToKernel`, :75-97 |
| `findCallSite`, `findAndInject` | `FindAndInjectIntoOsLoaderArm64TransferToKernel`, :99-123 |
| `offsets`, `injectFirst` | the seven attempts of `OslInterceptMain`, :148-192 |

The functions give the writes they make, in order, so that what is written can be told from what is changed.
`CopyMemory` copies an array of the firmware, which is a list of bytes here.
-/

namespace Andromeda

open Arm64 ByteMemory

/-- Bytes written from an address on. -/
structure Write where
  address : BitVec 64
  bytes : List (BitVec 8)

/-- The memory after some writes. -/
def applyWrites (m : ByteMemory) : List Write → ByteMemory
  | [] => m
  | w :: writes => applyWrites (m.writeBytes w.address w.bytes) writes

/-- The bytes of a word as it is stored. -/
def wordBytes (w : BitVec 32) : List (BitVec 8) :=
  [w.extractLsb' 0 8, w.extractLsb' 8 8, w.extractLsb' 16 8, w.extractLsb' 24 8]

/-- `SCAN_MAX`. -/
def scanMax : BitVec 64 := 0x300000#64

/-! ## One attempt -/

/-- `InjectCodeIntoOsLoaderArm64TransferToKernel`. -/
def injectCode (shellCode : List (BitVec 8)) (newOslArm64TransferToKernelAddr current : BitVec 64) : List Write :=
  [⟨current, wordBytes (branchLocationInstruction current newOslArm64TransferToKernelAddr)⟩,
    ⟨newOslArm64TransferToKernelAddr, shellCode⟩]

/-- The loop over the words from the function on, with `n` words to go. -/
def findCallSite (m : ByteMemory) (oslArm64TransferToKernelAddr : BitVec 64) (instructionPatternMatch : BitVec 32) :
    Nat → BitVec 64 → Option (BitVec 64)
  | 0, _ => none
  | n + 1, current =>
    if branchLocationInstruction current oslArm64TransferToKernelAddr = m.read32 current ∧
        m.read32 (current + 4) = instructionPatternMatch then some current
    else findCallSite m oslArm64TransferToKernelAddr instructionPatternMatch n (current + 4)

/-- `OslArm64TransferToKernelAddr`. -/
def functionAddress (winloadBase : BitVec 64) (baseOffset : BitVec 32) : BitVec 64 :=
  winloadBase + 0xC00#64 + baseOffset.setWidth 64

/-- The number of words in the window from the function on; there is none if the end of the window is not above the
function. -/
def windowWords (oslArm64TransferToKernelAddr : BitVec 64) : Nat :=
  ((oslArm64TransferToKernelAddr + scanMax).toNat - oslArm64TransferToKernelAddr.toNat + 3) / 4

/-- What is done with the call site that is found. -/
def injectAt (shellCode : List (BitVec 8)) (oslArm64TransferToKernelAddr : BitVec 64) :
    Option (BitVec 64) → Bool × List Write
  | none => (false, [])
  | some current =>
    (true, injectCode shellCode (oslArm64TransferToKernelAddr - BitVec.ofNat 64 shellCode.length) current)

/-- `FindAndInjectIntoOsLoaderArm64TransferToKernel`. -/
def findAndInject (m : ByteMemory) (shellCode : List (BitVec 8)) (winloadBase : BitVec 64) (baseOffset : BitVec 32)
    (instructionPatternMatch : BitVec 32) : Bool × List Write :=
  injectAt shellCode (functionAddress winloadBase baseOffset)
    (findCallSite m (functionAddress winloadBase baseOffset) instructionPatternMatch
      (windowWords (functionAddress winloadBase baseOffset)) (functionAddress winloadBase baseOffset))

/-! ## Where it injects -/

/-- A call of `function` at `current`, followed by the given instruction. -/
structure IsCallSite (m : ByteMemory) (function : BitVec 64) (instruction : BitVec 32) (current : BitVec 64) : Prop where
  aligned : current.toNat % 4 = 0
  above : function ≤ current
  inWindow : current.toNat < function.toNat + 0x300000
  call : ∃ offset, decode (m.read32 current) = some (.bl offset) ∧ current + offset = function
  next : m.read32 (current + 4) = instruction

variable {m : ByteMemory} {function : BitVec 64} {instruction : BitVec 32} {n : Nat} {current : BitVec 64}

theorem isCallSite_iff (hmod : function.toNat % 4 = 0)
    (haligned : current.toNat % 4 = 0) (habove : function ≤ current) (hwindow : current.toNat < function.toNat + 0x300000) :
    IsCallSite m function instruction current ↔
      branchLocationInstruction current function = m.read32 current ∧ m.read32 (current + 4) = instruction := by
  rw [branchLocationInstruction_eq_iff (by bv_omega) (by bv_omega)]
  exact ⟨fun h => ⟨h.call, h.next⟩, fun h => ⟨haligned, habove, hwindow, h.1, h.2⟩⟩

/-- The lowest call site from `start` on, if there is one. -/
def LowestCallSite (m : ByteMemory) (function : BitVec 64) (instruction : BitVec 32) (start : BitVec 64) :
    Option (BitVec 64) → Prop
  | none => ∀ c, start ≤ c → ¬ IsCallSite m function instruction c
  | some c => IsCallSite m function instruction c ∧ ∀ b, start ≤ b → b < c → ¬ IsCallSite m function instruction b

theorem findCallSite_spec (hfit : function.toNat + 0x300000 < 2 ^ 64) (hmod : function.toNat % 4 = 0)
    (haligned : current.toNat % 4 = 0) (habove : function ≤ current) (hend : current.toNat + 4 * n = function.toNat + 0x300000) :
    LowestCallSite m function instruction current (findCallSite m function instruction n current) := by
  induction n generalizing current with
  | zero =>
    intro c hc hsite
    have hwindow := hsite.inWindow
    bv_omega
  | succ n ih =>
    have hiff : IsCallSite m function instruction current ↔ _ := isCallSite_iff hmod haligned habove (by omega)
    rw [findCallSite]
    split_ifs with hword
    · refine ⟨hiff.2 hword, ?_⟩
      intro b hb hlt
      bv_omega
    · have hnot : ¬ IsCallSite m function instruction current := fun h => hword (hiff.1 h)
      -- a call site is aligned, so it is here or at least one word behind
      have hbehind {b : BitVec 64} (hb : current ≤ b) (hsite : IsCallSite m function instruction b) : current + 4 ≤ b := by
        have hne : b ≠ current := fun heq => hnot (heq ▸ hsite)
        have hb4 := hsite.aligned
        bv_omega
      have hrest := ih (show (current + 4).toNat % 4 = 0 by bv_omega) (by bv_omega) (by bv_omega)
      cases hfound : findCallSite m function instruction n (current + 4) with
      | none =>
        rw [hfound] at hrest
        exact fun c hc hsite => hrest c (hbehind hc hsite) hsite
      | some c =>
        rw [hfound] at hrest
        exact ⟨hrest.1, fun b hb hlt hsite => hrest.2 b (hbehind hb hsite) hlt hsite⟩

/-! ## What it writes -/

theorem length_wordBytes (w : BitVec 32) : (wordBytes w).length = 4 := rfl

theorem read32_writeBytes (a : BitVec 64) (w : BitVec 32) : (m.writeBytes a (wordBytes w)).read32 a = w := by
  have hbytes : Holds (m.writeBytes a (wordBytes w)) a (wordBytes w) :=
    holds_writeBytes m a (by rw [length_wordBytes]; decide)
  refine ext_bytes ?_
  intro i hi
  rw [read32_byte _ _ hi, hbytes i hi]
  interval_cases i <;> rfl

/-- A word that is not written to. -/
theorem read32_writeBytes_of_le {a b : BitVec 64} {bytes : List (BitVec 8)} (h : bytes.length ≤ (b - a).toNat)
    (hfit : (b - a).toNat + 4 ≤ 2 ^ 64) : (m.writeBytes a bytes).read32 b = m.read32 b :=
  read32_congr fun i hi => writeBytes_of_le (by bv_omega)

/-- The code is injected at the lowest call site, and nothing else is changed. -/
structure Injected (m m' : ByteMemory) (shellCode : List (BitVec 8)) (function : BitVec 64) (instruction : BitVec 32)
    (c : BitVec 64) : Prop where
  site : IsCallSite m function instruction c
  lowest : ∀ b < c, ¬ IsCallSite m function instruction b
  branch : ∃ offset, decode (m'.read32 c) = some (.bl offset) ∧ c + offset = function - BitVec.ofNat 64 shellCode.length
  code : Holds m' (function - BitVec.ofNat 64 shellCode.length) shellCode
  frame : ∀ x, 4 ≤ (x - c).toNat → shellCode.length ≤ (x - (function - BitVec.ofNat 64 shellCode.length)).toNat → m' x = m x

variable {shellCode : List (BitVec 8)} {winloadBase : BitVec 64} {baseOffset : BitVec 32}

theorem injected_injectCode (hmod : function.toNat % 4 = 0) (hlen : shellCode.length % 4 = 0)
    (hlen' : shellCode.length < 0x1000) (hsite : IsCallSite m function instruction current)
    (hlowest : ∀ b < current, ¬ IsCallSite m function instruction b) :
    Injected m (applyWrites m (injectCode shellCode (function - BitVec.ofNat 64 shellCode.length) current)) shellCode
      function instruction current := by
  have haligned := hsite.aligned
  have habove := hsite.above
  have hwindow := hsite.inWindow
  refine ⟨hsite, hlowest, ?_, ?_, ?_⟩
  · refine (branchLocationInstruction_eq_iff (by bv_omega) (by bv_omega)).1 ?_
    rw [injectCode, applyWrites, applyWrites, applyWrites, read32_writeBytes_of_le (by bv_omega) (by bv_omega),
      read32_writeBytes]
  · exact holds_writeBytes _ _ (show shellCode.length ≤ 2 ^ 64 by omega)
  · intro x hx hx'
    rw [← length_wordBytes (branchLocationInstruction current (function - BitVec.ofNat 64 shellCode.length))] at hx
    rw [injectCode, applyWrites, applyWrites, applyWrites, writeBytes_of_le hx', writeBytes_of_le hx]

/-- An attempt finds a call site and injects there, or there is none. -/
theorem findAndInject_cases (m : ByteMemory) (shellCode : List (BitVec 8)) (instruction : BitVec 32)
    (hbase : winloadBase.toNat % 4 = 0) (hoffset : baseOffset.toNat % 4 = 0)
    (hfit : winloadBase.toNat + 0xC00 + baseOffset.toNat + 0x300000 < 2 ^ 64) :
    (findAndInject m shellCode winloadBase baseOffset instruction = (false, []) ∧
      ∀ c, ¬ IsCallSite m (functionAddress winloadBase baseOffset) instruction c) ∨
    ∃ c, findAndInject m shellCode winloadBase baseOffset instruction =
        (true, injectCode shellCode (functionAddress winloadBase baseOffset - BitVec.ofNat 64 shellCode.length) c) ∧
      IsCallSite m (functionAddress winloadBase baseOffset) instruction c ∧
      ∀ b < c, ¬ IsCallSite m (functionAddress winloadBase baseOffset) instruction b := by
  have haddress : (functionAddress winloadBase baseOffset).toNat = winloadBase.toNat + 0xC00 + baseOffset.toNat := by
    unfold functionAddress
    bv_omega
  rw [findAndInject]
  generalize functionAddress winloadBase baseOffset = function at haddress ⊢
  have hwindow : 4 * windowWords function = 0x300000 := by
    unfold windowWords scanMax
    bv_omega
  generalize windowWords function = n at hwindow
  have hspec : LowestCallSite m function instruction function (findCallSite m function instruction n function) :=
    findCallSite_spec (by omega) (by omega) (by omega) (BitVec.le_refl _) (by omega)
  cases hfound : findCallSite m function instruction n function with
  | none =>
    rw [hfound] at hspec
    exact .inl ⟨rfl, fun c hsite => hspec c hsite.above hsite⟩
  | some c =>
    rw [hfound] at hspec
    exact .inr ⟨c, rfl, hspec.1, fun b hlt hsite => hspec.2 b hsite.above hlt hsite⟩

/-! ## The seven attempts -/

/-- The offsets of the function in the known loaders, with the instruction behind its call. -/
def offsets : List (BitVec 32 × BitVec 32) := [
  (0xE80#32, 0x52800015#32), (0xDD0#32, 0x52800015#32), (0xC60#32, 0x52800015#32), (0x8D0#32, 0x52800014#32),
  (0x850#32, 0xD2800002#32), (0x480#32, 0xD2800002#32), (0x400#32, 0xD2800002#32)]

/-- One attempt after the other, until one has injected the code. -/
def injectFirst (m : ByteMemory) (shellCode : List (BitVec 8)) (winloadBase : BitVec 64) :
    List (BitVec 32 × BitVec 32) → List Write
  | [] => []
  | (baseOffset, instructionPatternMatch) :: rest =>
    let attempt := findAndInject m shellCode winloadBase baseOffset instructionPatternMatch
    if attempt.1 then attempt.2 else attempt.2 ++ injectFirst (applyWrites m attempt.2) shellCode winloadBase rest

/-- The first of some offsets with a call site, and the call site. -/
theorem injectFirst_cases (m : ByteMemory) (shellCode : List (BitVec 8)) {l : List (BitVec 32 × BitVec 32)}
    (hbase : winloadBase.toNat % 4 = 0)
    (hl : ∀ o ∈ l, o.1.toNat % 4 = 0 ∧ winloadBase.toNat + 0xC00 + o.1.toNat + 0x300000 < 2 ^ 64) :
    (injectFirst m shellCode winloadBase l = [] ∧ ∀ o ∈ l, ∀ c, ¬ IsCallSite m (functionAddress winloadBase o.1) o.2 c) ∨
    ∃ before o after c, l = before ++ o :: after ∧
      (∀ o' ∈ before, ∀ c, ¬ IsCallSite m (functionAddress winloadBase o'.1) o'.2 c) ∧
      injectFirst m shellCode winloadBase l =
        injectCode shellCode (functionAddress winloadBase o.1 - BitVec.ofNat 64 shellCode.length) c ∧
      IsCallSite m (functionAddress winloadBase o.1) o.2 c ∧
      ∀ b < c, ¬ IsCallSite m (functionAddress winloadBase o.1) o.2 b := by
  induction l with
  | nil => exact .inl ⟨rfl, by simp⟩
  | cons o rest ih =>
    obtain ⟨baseOffset, instruction⟩ := o
    obtain ⟨hoffset, hfit⟩ := hl (baseOffset, instruction) List.mem_cons_self
    have hrest := ih fun o ho => hl o (List.mem_cons_of_mem _ ho)
    rcases findAndInject_cases m shellCode instruction hbase hoffset hfit with
      ⟨hattempt, hnone⟩ | ⟨c, hattempt, hsite, hlowest⟩
    · have hstep : injectFirst m shellCode winloadBase ((baseOffset, instruction) :: rest) =
          injectFirst m shellCode winloadBase rest := by
        simp only [injectFirst, hattempt, Bool.false_eq_true, if_false, List.nil_append, applyWrites]
      rw [hstep]
      rcases hrest with ⟨hwrites, hall⟩ | ⟨before, o, after, c, hsplit, hbefore, hwrites, hsite, hlowest⟩
      · refine .inl ⟨hwrites, ?_⟩
        intro o ho
        rcases List.mem_cons.1 ho with rfl | ho
        · exact hnone
        · exact hall o ho
      · refine .inr ⟨(baseOffset, instruction) :: before, o, after, c, by rw [hsplit]; rfl, ?_, hwrites, hsite, hlowest⟩
        intro o' ho'
        rcases List.mem_cons.1 ho' with rfl | ho'
        · exact hnone
        · exact hbefore o' ho'
    · refine .inr ⟨[], (baseOffset, instruction), rest, c, rfl, by simp, ?_, hsite, hlowest⟩
      simp only [injectFirst, hattempt, if_true]

theorem offsets_aligned : ∀ o ∈ offsets, o.1.toNat % 4 = 0 ∧ o.1.toNat ≤ 0xE80 := by
  have hall : offsets.all (fun o => decide (o.1.toNat % 4 = 0 ∧ o.1.toNat ≤ 0xE80)) = true := by decide
  exact fun o ho => of_decide_eq_true (List.all_eq_true.1 hall o ho)

/-- **An attempt injects the code** if and only if there is a call of the function with the given instruction behind
it, at the lowest such call, and changes nothing otherwise. So the seven attempts inject it at one call at most: that
of the first offset which has one. -/
theorem injection_at_one_call_site (m : ByteMemory) (shellCode : List (BitVec 8)) (winloadBase : BitVec 64)
    (hbase : winloadBase.toNat % 4 = 0) (hlen : shellCode.length % 4 = 0) (hlen' : shellCode.length < 0x1000) :
    (∀ (baseOffset instruction : BitVec 32), baseOffset.toNat % 4 = 0 →
      winloadBase.toNat + 0xC00 + baseOffset.toNat + 0x300000 < 2 ^ 64 →
      ((findAndInject m shellCode winloadBase baseOffset instruction).1 = true ↔
        ∃ c, IsCallSite m (functionAddress winloadBase baseOffset) instruction c) ∧
      ((findAndInject m shellCode winloadBase baseOffset instruction).1 = true →
        ∃ c, Injected m (applyWrites m (findAndInject m shellCode winloadBase baseOffset instruction).2) shellCode
          (functionAddress winloadBase baseOffset) instruction c) ∧
      ((findAndInject m shellCode winloadBase baseOffset instruction).1 = false →
        applyWrites m (findAndInject m shellCode winloadBase baseOffset instruction).2 = m)) ∧
    (winloadBase.toNat + 0xC00 + 0xE80 + 0x300000 < 2 ^ 64 →
      ((∀ o ∈ offsets, ∀ c, ¬ IsCallSite m (functionAddress winloadBase o.1) o.2 c) ∧
        applyWrites m (injectFirst m shellCode winloadBase offsets) = m) ∨
      ∃ before o after c, offsets = before ++ o :: after ∧
        (∀ o' ∈ before, ∀ c, ¬ IsCallSite m (functionAddress winloadBase o'.1) o'.2 c) ∧
        Injected m (applyWrites m (injectFirst m shellCode winloadBase offsets)) shellCode
          (functionAddress winloadBase o.1) o.2 c) := by
  have hfunction {baseOffset : BitVec 32} (hoffset : baseOffset.toNat % 4 = 0)
      (hfit : winloadBase.toNat + 0xC00 + baseOffset.toNat + 0x300000 < 2 ^ 64) :
      (functionAddress winloadBase baseOffset).toNat % 4 = 0 := by
    unfold functionAddress
    bv_omega
  constructor
  · intro baseOffset instruction hoffset hfit
    rcases findAndInject_cases m shellCode instruction hbase hoffset hfit with
      ⟨hattempt, hnone⟩ | ⟨c, hattempt, hsite, hlowest⟩
    · rw [hattempt]
      refine ⟨iff_of_false Bool.false_ne_true fun ⟨c, hc⟩ => hnone c hc, fun h => absurd h Bool.false_ne_true, fun _ => rfl⟩
    · rw [hattempt]
      refine ⟨iff_of_true rfl ⟨c, hsite⟩, fun _ => ⟨c, ?_⟩, fun h => absurd h.symm Bool.false_ne_true⟩
      exact injected_injectCode (hfunction hoffset hfit) hlen hlen' hsite hlowest
  · intro hfit
    have hoffsets (o : BitVec 32 × BitVec 32) (ho : o ∈ offsets) :
        o.1.toNat % 4 = 0 ∧ winloadBase.toNat + 0xC00 + o.1.toNat + 0x300000 < 2 ^ 64 := by
      obtain ⟨hoffset, hle⟩ := offsets_aligned o ho
      exact ⟨hoffset, by omega⟩
    rcases injectFirst_cases m shellCode hbase hoffsets with
      ⟨hwrites, hall⟩ | ⟨before, o, after, c, hsplit, hbefore, hwrites, hsite, hlowest⟩
    · rw [hwrites]
      exact .inl ⟨hall, rfl⟩
    · have ho : o ∈ offsets := by
        rw [hsplit]
        simp
      rw [hwrites]
      refine .inr ⟨before, o, after, c, hsplit, hbefore, ?_⟩
      exact injected_injectCode (hfunction (hoffsets o ho).1 (hoffsets o ho).2) hlen hlen' hsite hlowest

/-- A loader at `0x10000` with a call of the function at the first offset. -/
def loaderNda0 : ByteMemory :=
  (ByteMemory.write32 (fun _ => 0) 0x11A90#64 0x97FFFFFC#32).write32 0x11A94#64 0x52800015#32

theorem injection_at_one_call_site_nda0 :
    ∃ c, Injected loaderNda0 (applyWrites loaderNda0
        (findAndInject loaderNda0 actlrEl1UnimplementedPatch 0x10000#64 0xE80#32 0x52800015#32).2)
      actlrEl1UnimplementedPatch (functionAddress 0x10000#64 0xE80#32) 0x52800015#32 c := by
  have hsite : IsCallSite loaderNda0 (functionAddress 0x10000#64 0xE80#32) 0x52800015#32 0x11A90#64 :=
    ⟨by decide, by decide, by decide, ⟨-16#64, by decide +kernel, by decide⟩, by decide +kernel⟩
  have hspec := (injection_at_one_call_site loaderNda0 actlrEl1UnimplementedPatch 0x10000#64 (by decide) (by decide +kernel)
    (by decide +kernel)).1 0xE80#32 0x52800015#32 (by decide) (by decide)
  exact hspec.2.1 (hspec.1.2 ⟨_, hsite⟩)

end Andromeda
