import AndromedaBoot.Errata.Reference

/-!
# What the reference passes touch outside of a module

The ACTLR_EL1 and AMCNTENSET0_EL0 passes look at one word and replace it. The PSCI_MEMPROTECT pass compares 16 bytes
from its cursor on (`PSCI_MEMPROTECT/Reference/ShellCode.c` :281-296) and stores a word 32 or 28 bytes in front of it, so
that it writes in front of a module that begins with a match, and looks behind one that ends with a part of a match.
-/

namespace Andromeda

open InPlace ByteMemory

/-- An address in the image of a module. -/
def InImage (base : BitVec 64) (size : BitVec 32) (x : BitVec 64) : Prop := (x - base).toNat < size.toNat

namespace KernelPass

/-- The words the PSCI pass looks for, and how far in front of them it writes. -/
structure PsciPattern where
  words : List (BitVec 32)
  distance : Nat
deriving DecidableEq

def psciPatterns : List PsciPattern := [
  ⟨[0x180002D5#32, 0xD2800003#32, 0xD2800002#32, 0xD2800001#32], 32⟩,
  ⟨[0xD2800003#32, 0xD2800002#32, 0xD2800001#32, 0x18000240#32], 28⟩,
  ⟨[0xD2800003#32, 0xD2800002#32, 0xD2800001#32, 0x180002C0#32], 28⟩]

/-- When the pass leaves alone what is not of the module: a match too near to the begin of the module finds `ret`
already where it writes, and the end of the module is not the begin of a match. -/
structure PsciInside (m : ByteMemory) (base : BitVec 64) (size : BitVec 32) : Prop where
  front : ∀ k < moduleWords size, ∀ t ∈ psciPatterns, HoldsWords m (cursor base k) t.words → 4 * k < t.distance →
    m.read32 (cursor base k - BitVec.ofNat 64 t.distance) = 0xD65F03C0#32
  rear : ∀ k < moduleWords size, moduleWords size < k + 4 → ∀ t ∈ psciPatterns,
    ∃ i w, k + i < moduleWords size ∧ t.words[i]? = some w ∧ m.read32 (cursor base (k + i)) ≠ w

/-! ## The patterns -/

variable {m m' : ByteMemory} {base c a x : BitVec 64} {size w : BitVec 32} {p : KernelPass} {t : PsciPattern} {k : Nat}

theorem psciPatterns_facts (h : t ∈ psciPatterns) :
    t.words.length = 4 ∧ t.distance % 4 = 0 ∧ t.distance ≤ 32 ∧ ∀ w ∈ t.words, w ≠ 0 := by
  simp only [psciPatterns, List.mem_cons, List.not_mem_nil, or_false] at h
  rcases h with rfl | rfl | rfl <;> simp

theorem holdsWords_four {w0 w1 w2 w3 : BitVec 32} : HoldsWords m c [w0, w1, w2, w3] ↔
    m.read32 (cursor c 0) = w0 ∧ m.read32 (cursor c 1) = w1 ∧ m.read32 (cursor c 2) = w2 ∧ m.read32 (cursor c 3) = w3 := by
  constructor
  · intro h
    exact ⟨h 0 (by simp), h 1 (by simp), h 2 (by simp), h 3 (by simp)⟩
  · rintro ⟨h0, h1, h2, h3⟩ i hi
    simp only [List.length_cons, List.length_nil] at hi
    interval_cases i
    · exact h0
    · exact h1
    · exact h2
    · exact h3

theorem psci_hit_iff_pattern : psciMemprotect.hit m c = some (a, w) ↔ w = 0xD65F03C0#32 ∧
    ∃ t ∈ psciPatterns, a = c - BitVec.ofNat 64 t.distance ∧ HoldsWords m c t.words := by
  rw [psci_hit_iff]
  simp only [psciPatterns, List.exists_mem_cons_iff, List.not_mem_nil, false_and, exists_false, or_false, holdsWords_four]
  grind

/-! ## The words of the image -/

/-- A module whose words are all whole is walked once, also at the end of the address space. -/
theorem innerLoop_whole (p : KernelPass) (hfit : base.toNat + size.toNat < 2 ^ 64) (hsize : size.toNat % 4 = 0)
    (m : ByteMemory) : p.innerLoop base size m = some (p.rule.run base (moduleWords size) m) := by
  have hlt := size.isLt
  have hwords : 4 * moduleWords size = size.toNat := by
    unfold moduleWords
    omega
  rw [innerLoop, scanModule_eq (p.body · ·) (n := moduleWords size) (by omega) (fun k hk => ?_) ?_, rule_run, rounds]
  · rw [BitVec.lt_def]
    unfold cursor moduleEnd
    bv_omega
  · rw [BitVec.lt_def]
    unfold cursor moduleEnd
    bv_omega

theorem inImage_cursor (hsize : size.toNat % 4 = 0) (hk : k < moduleWords size) {i : Nat} (hi : i < 4) :
    InImage base size (cursor base k + BitVec.ofNat 64 i) := by
  have hlt := size.isLt
  unfold moduleWords at hk
  unfold InImage cursor
  bv_omega

theorem exists_cursor (hsize : size.toNat % 4 = 0) (hx : InImage base size x) :
    ∃ k < moduleWords size, ∃ i < 4, x = cursor base k + BitVec.ofNat 64 i := by
  unfold InImage at hx
  unfold moduleWords cursor
  refine ⟨(x - base).toNat / 4, by omega, (x - base).toNat % 4, by omega, ?_⟩
  bv_omega

/-- Two memories agree on the image as soon as they agree on its words, and only then. -/
theorem agree_iff (hsize : size.toNat % 4 = 0) : (∀ x, InImage base size x → m' x = m x) ↔
    ∀ k < moduleWords size, m'.read32 (cursor base k) = m.read32 (cursor base k) := by
  constructor
  · intro h k hk
    exact read32_congr fun i hi => h _ (inImage_cursor hsize hk hi)
  · intro h x hx
    obtain ⟨k, hk, i, hi, rfl⟩ := exists_cursor hsize hx
    rw [← read32_byte m' _ hi, ← read32_byte m _ hi, h k hk]

/-! ## What is written -/

/-- What a pass changes is in the image, up to the matches of the PSCI pass at its begin. -/
theorem inImage_of_changed (hsize : size.toNat % 4 = 0)
    (hfront : p = psciMemprotect → ∀ k < moduleWords size, ∀ t ∈ psciPatterns, HoldsWords m (cursor base k) t.words →
      4 * k < t.distance → m.read32 (cursor base k - BitVec.ofNat 64 t.distance) = 0xD65F03C0#32)
    (hx : p.rule.run base (moduleWords size) m x ≠ m x) : InImage base size x := by
  obtain ⟨a, i, hi, ha, rfl⟩ := exists_word base x
  have hne : (p.rule.run base (moduleWords size) m).read32 a ≠ m.read32 a := by
    intro heq
    rw [← read32_byte (p.rule.run base (moduleWords size) m) a hi, ← read32_byte m a hi, heq] at hx
    exact hx rfl
  rcases p.rule.read32_run_cases m (moduleWords_le size) ha with ⟨k, hk, hhit⟩ | ⟨-, heq⟩
  · by_cases hp : p = psciMemprotect
    · subst hp
      obtain ⟨hw, t, ht, hat, hwords⟩ := psci_hit_iff_pattern.1 hhit
      obtain ⟨-, hdistance, hle, -⟩ := psciPatterns_facts ht
      have hfar : t.distance ≤ 4 * k := by
        by_contra hnear
        rw [hw, hat, hfront rfl k hk t ht hwords (by omega)] at hne
        exact hne rfl
      have hback : a = cursor base (k - t.distance / 4) := by
        rw [hat]
        unfold cursor
        bv_omega
      rw [hback]
      exact inImage_cursor hsize (by omega) hi
    · rw [(hit_local hp hhit).1]
      exact inImage_cursor hsize hk hi
  · exact absurd heq hne

theorem front_of_inside (hinside : ∀ x, psciMemprotect.rule.run base (moduleWords size) m x ≠ m x → InImage base size x)
    (hk : k < moduleWords size) (ht : t ∈ psciPatterns) (hwords : HoldsWords m (cursor base k) t.words)
    (hnear : 4 * k < t.distance) : m.read32 (cursor base k - BitVec.ofNat 64 t.distance) = 0xD65F03C0#32 := by
  obtain ⟨-, hdistance, hle, -⟩ := psciPatterns_facts ht
  have hhit : psciMemprotect.hit m (cursor base k) =
      some (cursor base k - BitVec.ofNat 64 t.distance, 0xD65F03C0#32) :=
    psci_hit_iff_pattern.2 ⟨rfl, t, ht, rfl, hwords⟩
  have hread := psciMemprotect.rule.read32_run_of_hit (moduleWords_le size) hk hhit
  by_contra hne
  refine hne (hread ▸ read32_congr ?_)
  intro i hi
  -- the word is in front of the image
  by_contra hchanged
  have hin := hinside _ (Ne.symm hchanged)
  have hlt := size.isLt
  unfold InImage cursor at hin
  bv_omega

/-! ## What is read -/

theorem hit_eq_of_agree (hrear : ∀ k < moduleWords size, moduleWords size < k + 4 → ∀ t ∈ psciPatterns,
      ∃ i w, k + i < moduleWords size ∧ t.words[i]? = some w ∧ m.read32 (cursor base (k + i)) ≠ w)
    (hagree : ∀ k < moduleWords size, m'.read32 (cursor base k) = m.read32 (cursor base k)) (hk : k < moduleWords size) :
    p.hit m' (cursor base k) = p.hit m (cursor base k) := by
  by_cases hinside : k + p.reads ≤ moduleWords size
  · refine hit_congr ?_
    intro i hi
    rw [cursor_add, hagree _ (by omega)]
  · have hp : p = psciMemprotect := by
      cases p with
      | psciMemprotect => rfl
      | _ => exact absurd (show k + 1 ≤ moduleWords size by omega) hinside
    subst hp
    have hnone {m₁ : ByteMemory} (h₁ : ∀ k < moduleWords size, m₁.read32 (cursor base k) = m.read32 (cursor base k)) :
        psciMemprotect.hit m₁ (cursor base k) = none := by
      refine Option.eq_none_iff_forall_ne_some.2 ?_
      rintro ⟨a, w⟩ hhit
      obtain ⟨-, t, ht, -, hwords⟩ := psci_hit_iff_pattern.1 hhit
      obtain ⟨i, w', hi, hget, hne⟩ := hrear k hk (Nat.lt_of_not_le hinside) t ht
      obtain ⟨hlen, rfl⟩ := List.getElem?_eq_some_iff.1 hget
      have hword : m₁.read32 (cursor (cursor base k) i) = _ := hwords i hlen
      rw [cursor_add, h₁ _ hi] at hword
      exact hne hword
    rw [hnone hagree, hnone fun _ _ => rfl]

/-- If the end of the image is the begin of a match, the words behind it decide. -/
theorem rear_of_local (hsize : size.toNat % 4 = 0)
    (hlocal : ∀ m₂ : ByteMemory, (∀ x, InImage base size x → m₂ x = m x) → ∀ k < moduleWords size,
      psciMemprotect.hit m₂ (cursor base k) = psciMemprotect.hit m (cursor base k))
    (hk : k < moduleWords size) (hend : moduleWords size < k + 4) (ht : t ∈ psciPatterns) :
    ∃ i w, k + i < moduleWords size ∧ t.words[i]? = some w ∧ m.read32 (cursor base (k + i)) ≠ w := by
  obtain ⟨hlen, -, -, hnonzero⟩ := psciPatterns_facts ht
  have hwords := moduleWords_le size
  by_contra hnot
  push Not at hnot
  -- the memory with the whole pattern, and the memory with a zero behind the image
  have hfull := hlocal (m.writeWords (cursor base k) t.words) ((agree_iff hsize).2 fun j hj => ?_) k hk
  · have hzero := hlocal (m.write32 (cursor base (moduleWords size)) 0) ((agree_iff hsize).2 fun j hj => ?_) k hk
    · have hhit : psciMemprotect.hit (m.writeWords (cursor base k) t.words) (cursor base k) = some (_, _) :=
        psci_hit_iff_pattern.2 ⟨rfl, t, ht, rfl, holdsWords_writeWords _ _ (by omega)⟩
      rw [hfull, ← hzero] at hhit
      obtain ⟨-, t', ht', -, hwords'⟩ := psci_hit_iff_pattern.1 hhit
      obtain ⟨hlen', -, -, hnonzero'⟩ := psciPatterns_facts ht'
      have hword : (m.write32 (cursor base (moduleWords size)) 0).read32 (cursor (cursor base k) (moduleWords size - k)) = _ :=
        hwords' (moduleWords size - k) (by omega)
      rw [cursor_add, show k + (moduleWords size - k) = moduleWords size by omega, read32_write32] at hword
      exact hnonzero' _ (List.getElem_mem _) hword.symm
    · exact read32_write32_of_le _ (by unfold cursor; bv_omega) (by unfold cursor; bv_omega)
  · rw [read32_writeWords t.words (by omega) (by unfold cursor; bv_omega)]
    by_cases hjk : k ≤ j
    · have hindex : (cursor base j - cursor base k).toNat / 4 = j - k := by
        unfold cursor
        bv_omega
      have hget : t.words[j - k]? = some (t.words[j - k]) := List.getElem?_eq_getElem (by omega)
      have heq := hnot (j - k) _ (by omega) hget
      rw [hindex, hget, Option.getD_some, ← heq, show k + (j - k) = j by omega]
    · rw [List.getElem?_eq_none (by unfold cursor; bv_omega), Option.getD_none]

end KernelPass

/-- **The passes change nothing but bytes of the image** and take nothing but bytes of the image into account, if and
only if the PSCI pass finds no match too near to its begin and no part of a match at its end. -/
theorem kernelPasses_inside_iff {base : BitVec 64} {size : BitVec 32} (hfit : base.toNat + size.toNat < 2 ^ 64)
    (hsize : size.toNat % 4 = 0) (m : ByteMemory) :
    (∀ p : KernelPass, ∃ m', p.innerLoop base size m = some m' ∧ (∀ x, m' x ≠ m x → InImage base size x) ∧
      ∀ m₂ : ByteMemory, (∀ x, InImage base size x → m₂ x = m x) → ∀ k < moduleWords size,
        p.hit (p.rounds base k m₂) (cursor base k) = p.hit (p.rounds base k m) (cursor base k)) ↔
      KernelPass.PsciInside m base size := by
  have hwords := moduleWords_le size
  have hrounds (p : KernelPass) (m : ByteMemory) {k : Nat} (hk : k < moduleWords size) :
      p.hit (p.rounds base k m) (cursor base k) = p.hit m (cursor base k) := by
    rw [← KernelPass.rule_run]
    exact p.rule.hit_run le_rfl (by omega)
  constructor
  · intro h
    obtain ⟨m', hrun, hinside, hlocal⟩ := h .psciMemprotect
    rw [KernelPass.innerLoop_whole _ hfit hsize, Option.some.injEq] at hrun
    subst hrun
    refine ⟨fun k hk t ht => KernelPass.front_of_inside hinside hk ht, ?_⟩
    intro k hk hend t ht
    refine KernelPass.rear_of_local hsize ?_ hk hend ht
    intro m₂ h₂ k hk
    rw [← hrounds _ _ hk, hlocal m₂ h₂ k hk, hrounds _ _ hk]
  · intro h p
    refine ⟨_, p.innerLoop_whole hfit hsize m, fun x => KernelPass.inImage_of_changed hsize fun _ => h.front, ?_⟩
    intro m₂ h₂ k hk
    rw [hrounds _ _ hk, hrounds _ _ hk]
    exact KernelPass.hit_eq_of_agree h.rear ((KernelPass.agree_iff hsize).1 h₂) hk

/-- A match of the first pattern at an address. -/
def psciMatchAt (c : BitVec 64) : ByteMemory :=
  ByteMemory.writeWords (fun _ => 0) c [0x180002D5#32, 0xD2800003#32, 0xD2800002#32, 0xD2800001#32]

theorem kernelPasses_inside_iff_far :
    ∃ m', KernelPass.psciMemprotect.innerLoop 0x1000#64 52#32 (psciMatchAt 0x1020#64) = some m' ∧
      ∀ x, m' x ≠ psciMatchAt 0x1020#64 x → InImage 0x1000#64 52#32 x := by
  have hfront : ∀ k < 13, ∀ t ∈ KernelPass.psciPatterns, HoldsWords (psciMatchAt 0x1020#64) (cursor 0x1000#64 k) t.words →
      4 * k < t.distance → (psciMatchAt 0x1020#64).read32 (cursor 0x1000#64 k - BitVec.ofNat 64 t.distance) = 0xD65F03C0#32 := by
    unfold HoldsWords
    decide +kernel
  have hrear : ∀ k < 13, 13 < k + 4 → ∀ t ∈ KernelPass.psciPatterns,
      t.words[0]? ≠ some ((psciMatchAt 0x1020#64).read32 (cursor 0x1000#64 k)) := by decide +kernel
  have hinside : KernelPass.PsciInside (psciMatchAt 0x1020#64) 0x1000#64 52#32 := by
    refine ⟨hfront, ?_⟩
    intro k hk hend t ht
    obtain ⟨hlen, -⟩ := KernelPass.psciPatterns_facts ht
    have hget : t.words[0]? = some t.words[0] := List.getElem?_eq_getElem (by omega)
    refine ⟨0, _, hk, hget, fun heq => hrear k hk hend t ht ?_⟩
    rw [hget, ← heq, Nat.add_zero]
  obtain ⟨m', hrun, hframe, -⟩ := (kernelPasses_inside_iff (by decide) (by decide) _).2 hinside .psciMemprotect
  exact ⟨m', hrun, hframe⟩

/-- A module that begins with a match: `ret` is written 32 bytes in front of it. -/
theorem psciPass_writes_in_front :
    ∃ m', KernelPass.psciMemprotect.innerLoop 0x1000#64 52#32 (psciMatchAt 0x1000#64) = some m' ∧
      m' 0xFE0#64 ≠ psciMatchAt 0x1000#64 0xFE0#64 ∧ ¬ InImage 0x1000#64 52#32 0xFE0#64 := by
  refine ⟨_, KernelPass.psciMemprotect.innerLoop_whole (by decide) (by decide) _, ?_, by unfold InImage; decide⟩
  decide +kernel

end Andromeda
