import AndromedaBoot.Lib.ByteMemory
import Mathlib.Logic.Function.Basic

/-!
# A part of AArch64

The instructions a compiler makes of loops over memory, with their encodings: moves, arithmetic and logic on
32 and 64 bits, bit fields, loads and stores, branches, and the two system registers of an interrupt
controller's software-generated interrupts. `decode` gives other words no meaning.

The processor fetches from its memory, so a program can write over itself; instruction and data caches are
taken to agree. Addresses need no alignment here.
-/

namespace Arm64

/-- The general registers; number 31 is the stack pointer in some places and zero in others. -/
inductive Reg
  | x0 | x1 | x2 | x3 | x4 | x5 | x6 | x7 | x8 | x9 | x10 | x11 | x12 | x13 | x14 | x15
  | x16 | x17 | x18 | x19 | x20 | x21 | x22 | x23 | x24 | x25 | x26 | x27 | x28 | x29 | x30 | sp
deriving DecidableEq

/-- The 32-bit and the 64-bit form of an instruction. -/
inductive Width
  | w
  | x
deriving DecidableEq

inductive Cond
  | eq | ne | hs | lo | mi | pl | vs | vc | hi | ls | ge | lt | gt | le | al
deriving DecidableEq

inductive Arith
  | add | adds | sub | subs
deriving DecidableEq

inductive Logic
  | and | orr | eor
deriving DecidableEq

inductive Shift
  | lsl | lsr | asr
deriving DecidableEq

/-- How a load or store uses its base register. -/
inductive Index
  | offset
  | pre
  | post
deriving DecidableEq

structure Flags where
  n : Bool
  z : Bool
  c : Bool
  v : Bool
deriving DecidableEq

inductive Instr
  | movz (sf : Width) (rd : Reg) (imm : BitVec 16) (hw : Nat)
  | movk (sf : Width) (rd : Reg) (imm : BitVec 16) (hw : Nat)
  | adr (rd : Reg) (offset : BitVec 64)
  | arithImm (sf : Width) (op : Arith) (rd rn : Reg) (imm : BitVec 64)
  | arithReg (sf : Width) (op : Arith) (rd rn rm : Reg) (shift : Shift) (amount : Nat)
  | logicImm (op : Logic) (rd rn : Reg) (imm : BitVec 64)
  | logicReg (sf : Width) (op : Logic) (rd rn rm : Reg) (shift : Shift) (amount : Nat)
  | ubfm (sf : Width) (rd rn : Reg) (immr imms : Nat)
  | csel (sf : Width) (rd rn rm : Reg) (cond : Cond)
  | ccmpImm (sf : Width) (rn : Reg) (imm : BitVec 64) (nzcv : Flags) (cond : Cond)
  | ldr (sf : Width) (rt rn : Reg) (index : Index) (offset : BitVec 64)
  | ldrLiteral (rt : Reg) (offset : BitVec 64)
  | str (sf : Width) (rt rn : Reg) (index : Index) (offset : BitVec 64)
  | ldp (rt rt2 rn : Reg) (index : Index) (offset : BitVec 64)
  | stp (rt rt2 rn : Reg) (index : Index) (offset : BitVec 64)
  | b (offset : BitVec 64)
  | bl (offset : BitVec 64)
  | bCond (cond : Cond) (offset : BitVec 64)
  | cbz (sf : Width) (rt : Reg) (offset : BitVec 64)
  | cbnz (sf : Width) (rt : Reg) (offset : BitVec 64)
  | tbz (rt : Reg) (bit : Nat) (offset : BitVec 64)
  | tbnz (rt : Reg) (bit : Nat) (offset : BitVec 64)
  | ret (rn : Reg)
  | br (rn : Reg)
  | mrsMpidrEl1 (rt : Reg)
  | msrIccSgi1rEl1 (rt : Reg)
  | nop
  | dsb
deriving DecidableEq

namespace Instr

/-! The usual names of some forms. -/

abbrev mov (rd rm : Reg) : Instr := .logicReg .x .orr rd .sp rm .lsl 0
abbrev cmp (sf : Width) (rn rm : Reg) : Instr := .arithReg sf .subs .sp rn rm .lsl 0
abbrev cmpImm (sf : Width) (rn : Reg) (imm : BitVec 64) : Instr := .arithImm sf .subs .sp rn imm
abbrev add (sf : Width) (rd rn rm : Reg) : Instr := .arithReg sf .add rd rn rm .lsl 0
abbrev addImm (sf : Width) (rd rn : Reg) (imm : BitVec 64) : Instr := .arithImm sf .add rd rn imm
abbrev sub (sf : Width) (rd rn rm : Reg) : Instr := .arithReg sf .sub rd rn rm .lsl 0
abbrev subImm (sf : Width) (rd rn : Reg) (imm : BitVec 64) : Instr := .arithImm sf .sub rd rn imm

end Instr

/-! ## Encodings -/

def Reg.ofBits (b : BitVec 5) : Reg :=
  [x0, x1, x2, x3, x4, x5, x6, x7, x8, x9, x10, x11, x12, x13, x14, x15, x16, x17, x18, x19, x20, x21, x22, x23, x24,
    x25, x26, x27, x28, x29, x30].getD b.toNat sp

def Cond.ofBits (b : BitVec 4) : Cond := [eq, ne, hs, lo, mi, pl, vs, vc, hi, ls, ge, lt, gt, le].getD b.toNat al

def Width.ofBit : Bool → Width
  | false => .w
  | true => .x

def Arith.ofBits (b : BitVec 2) : Arith := [add, adds, sub].getD b.toNat subs

def Logic.ofBits? (b : BitVec 2) : Option Logic := [and, orr, eor][b.toNat]?

def Shift.ofBits? (b : BitVec 2) : Option Shift := [lsl, lsr, asr][b.toNat]?

/-- The word offset of a branch or a literal. -/
def branchOffset {k : Nat} (imm : BitVec k) : BitVec 64 := imm.signExtend 64 <<< 2

/-- The bit mask of a logical immediate whose element is the whole register: `imms + 1` ones, rotated. -/
def bitMask (immr imms : BitVec 6) : BitVec 64 := (BitVec.allOnes (imms.toNat + 1)).setWidth 64 |>.rotateRight immr.toNat

def decodeImmediate (w : BitVec 32) : Option Instr :=
  let sf := Width.ofBit (w.getLsbD 31)
  let opc := w.extractLsb' 29 2
  let rd := Reg.ofBits (w.extractLsb' 0 5)
  let rn := Reg.ofBits (w.extractLsb' 5 5)
  match (w.extractLsb' 23 3).toNat with
  | 0 | 1 =>
    if w.getLsbD 31 then none else some (.adr rd ((w.extractLsb' 5 19 ++ w.extractLsb' 29 2).signExtend 64))
  | 2 =>
    let imm := (w.extractLsb' 10 12).setWidth 64
    some (.arithImm sf (Arith.ofBits opc) rd rn (if w.getLsbD 22 then imm <<< 12 else imm))
  | 4 =>
    if w.getLsbD 31 ∧ w.getLsbD 22 ∧ w.extractLsb' 10 6 ≠ 63 then
      (Logic.ofBits? opc).map fun op => .logicImm op rd rn (bitMask (w.extractLsb' 16 6) (w.extractLsb' 10 6))
    else none
  | 5 =>
    let hw := (w.extractLsb' 21 2).toNat
    if sf = .w ∧ 2 ≤ hw then none
    else if opc = 2 then some (.movz sf rd (w.extractLsb' 5 16) hw)
    else if opc = 3 then some (.movk sf rd (w.extractLsb' 5 16) hw)
    else none
  | 6 =>
    if opc = 2 ∧ w.getLsbD 22 = w.getLsbD 31 ∧ (sf = .w → w.getLsbD 21 = false ∧ w.getLsbD 15 = false) then
      some (.ubfm sf rd rn (w.extractLsb' 16 6).toNat (w.extractLsb' 10 6).toNat)
    else none
  | _ => none

def decodeBranch (w : BitVec 32) : Option Instr :=
  let sf := Width.ofBit (w.getLsbD 31)
  let rt := Reg.ofBits (w.extractLsb' 0 5)
  if w.extractLsb' 26 6 = 0b000101 then some (.b (branchOffset (w.extractLsb' 0 26)))
  else if w.extractLsb' 26 6 = 0b100101 then some (.bl (branchOffset (w.extractLsb' 0 26)))
  else if w.extractLsb' 24 8 = 0b01010100 ∧ w.getLsbD 4 = false then
    some (.bCond (Cond.ofBits (w.extractLsb' 0 4)) (branchOffset (w.extractLsb' 5 19)))
  else if w.extractLsb' 24 7 = 0b0110100 then some (.cbz sf rt (branchOffset (w.extractLsb' 5 19)))
  else if w.extractLsb' 24 7 = 0b0110101 then some (.cbnz sf rt (branchOffset (w.extractLsb' 5 19)))
  else if w.extractLsb' 24 7 = 0b0110110 then
    some (.tbz rt (w.extractLsb' 31 1 ++ w.extractLsb' 19 5).toNat (branchOffset (w.extractLsb' 5 14)))
  else if w.extractLsb' 24 7 = 0b0110111 then
    some (.tbnz rt (w.extractLsb' 31 1 ++ w.extractLsb' 19 5).toNat (branchOffset (w.extractLsb' 5 14)))
  else if w &&& 0xFFFFFC1F#32 = 0xD65F0000#32 then some (.ret (Reg.ofBits (w.extractLsb' 5 5)))
  else if w &&& 0xFFFFFC1F#32 = 0xD61F0000#32 then some (.br (Reg.ofBits (w.extractLsb' 5 5)))
  else if w &&& 0xFFFFFFE0#32 = 0xD53800A0#32 then some (.mrsMpidrEl1 rt)
  else if w &&& 0xFFFFFFE0#32 = 0xD518CBA0#32 then some (.msrIccSgi1rEl1 rt)
  else if w = 0xD503201F#32 then some .nop
  else if w = 0xD5033F9F#32 then some .dsb
  else none

def decodeLoadStore (w : BitVec 32) : Option Instr :=
  let rt := Reg.ofBits (w.extractLsb' 0 5)
  let rn := Reg.ofBits (w.extractLsb' 5 5)
  if w.extractLsb' 24 6 = 0b111001 ∧ w.getLsbD 31 then
    let sf := Width.ofBit (w.getLsbD 30)
    let offset := (w.extractLsb' 10 12).setWidth 64 <<< (if w.getLsbD 30 then 3 else 2)
    match (w.extractLsb' 22 2).toNat with
    | 0 => some (.str sf rt rn .offset offset)
    | 1 => some (.ldr sf rt rn .offset offset)
    | _ => none
  else if w.extractLsb' 24 6 = 0b111000 ∧ w.getLsbD 31 ∧ w.getLsbD 21 = false then
    let sf := Width.ofBit (w.getLsbD 30)
    let offset := (w.extractLsb' 12 9).signExtend 64
    match [some Index.offset, some .post, none, some .pre][(w.extractLsb' 10 2).toNat]?.join with
    | none => none
    | some index =>
      if index ≠ .offset ∧ rt = rn ∧ rn ≠ .sp then none
      else match (w.extractLsb' 22 2).toNat with
      | 0 => some (.str sf rt rn index offset)
      | 1 => some (.ldr sf rt rn index offset)
      | _ => none
  else if w.extractLsb' 26 6 = 0b101010 then
    let rt2 := Reg.ofBits (w.extractLsb' 10 5)
    let offset := (w.extractLsb' 15 7).signExtend 64 <<< 3
    match [none, some Index.post, some .offset, some .pre][(w.extractLsb' 23 3).toNat]?.join with
    | none => none
    | some index =>
      if index ≠ .offset ∧ (rt = rn ∨ rt2 = rn) ∧ rn ≠ .sp then none
      else if w.getLsbD 22 then (if rt = rt2 then none else some (.ldp rt rt2 rn index offset))
      else some (.stp rt rt2 rn index offset)
  else if w.extractLsb' 24 8 = 0b01011000 then some (.ldrLiteral rt (branchOffset (w.extractLsb' 5 19)))
  else none

def decodeRegister (w : BitVec 32) : Option Instr :=
  let sf := Width.ofBit (w.getLsbD 31)
  let opc := w.extractLsb' 29 2
  let rd := Reg.ofBits (w.extractLsb' 0 5)
  let rn := Reg.ofBits (w.extractLsb' 5 5)
  let rm := Reg.ofBits (w.extractLsb' 16 5)
  let amount := (w.extractLsb' 10 6).toNat
  if w.extractLsb' 24 5 = 0b01010 ∧ w.getLsbD 21 = false ∧ (sf = .w → amount < 32) then
    (Shift.ofBits? (w.extractLsb' 22 2)).bind fun shift => (Logic.ofBits? opc).map fun op =>
      .logicReg sf op rd rn rm shift amount
  else if w.extractLsb' 24 5 = 0b01011 ∧ w.getLsbD 21 = false ∧ (sf = .w → amount < 32) then
    (Shift.ofBits? (w.extractLsb' 22 2)).map fun shift => .arithReg sf (Arith.ofBits opc) rd rn rm shift amount
  else if w.extractLsb' 21 10 = 0b0011010100 ∧ w.extractLsb' 10 2 = 0 then
    some (.csel sf rd rn rm (Cond.ofBits (w.extractLsb' 12 4)))
  else if w.extractLsb' 21 10 = 0b1111010010 ∧ w.extractLsb' 10 2 = 2 ∧ w.getLsbD 4 = false then
    some (.ccmpImm sf rn ((w.extractLsb' 16 5).setWidth 64) ⟨w.getLsbD 3, w.getLsbD 2, w.getLsbD 1, w.getLsbD 0⟩
      (Cond.ofBits (w.extractLsb' 12 4)))
  else none

/-- The instruction a word stands for. -/
def decode (w : BitVec 32) : Option Instr :=
  match (w.extractLsb' 25 4).toNat with
  | 8 | 9 => decodeImmediate w
  | 10 | 11 => decodeBranch w
  | 4 | 6 | 12 | 14 => decodeLoadStore w
  | 5 | 13 => decodeRegister w
  | _ => none

/-- A word with the six bits of a branch and link. -/
theorem decode_bl {w : BitVec 32} (h : w.extractLsb' 26 6 = 0b100101#6) :
    decode w = some (.bl (branchOffset (w.extractLsb' 0 26))) := by
  have hbit (i : Nat) (hi : i < 6) : w.getLsbD (26 + i) = (0b100101#6).getLsbD i := by
    rw [← h, BitVec.getLsbD_extractLsb', decide_eq_true hi, Bool.true_and]
  have h26 : w.getLsbD 26 = true := hbit 0 (by decide)
  have h27 : w.getLsbD 27 = false := hbit 1 (by decide)
  have h28 : w.getLsbD 28 = true := hbit 2 (by decide)
  have hclass : w.extractLsb' 25 4 = 10#4 ∨ w.extractLsb' 25 4 = 11#4 := by
    cases h25 : w.getLsbD 25 with
    | false =>
      left
      ext i hi
      interval_cases i <;> simp_all
    | true =>
      right
      ext i hi
      interval_cases i <;> simp_all
  have hbranch : decodeBranch w = some (.bl (branchOffset (w.extractLsb' 0 26))) := by
    simp [decodeBranch, h]
  unfold decode
  rcases hclass with hclass | hclass
  · rw [hclass]
    exact hbranch
  · rw [hclass]
    exact hbranch

theorem decodeImmediate_ne_bl (w : BitVec 32) (offset : BitVec 64) : decodeImmediate w ≠ some (.bl offset) := by
  unfold decodeImmediate
  dsimp only
  repeat' split
  all_goals simp only [ne_eq, Option.some.injEq, reduceCtorEq, not_false_eq_true, Option.map_eq_some_iff, and_false,
    exists_false]

theorem decodeLoadStore_ne_bl (w : BitVec 32) (offset : BitVec 64) : decodeLoadStore w ≠ some (.bl offset) := by
  unfold decodeLoadStore
  dsimp only
  repeat' split
  all_goals simp only [ne_eq, Option.some.injEq, reduceCtorEq, not_false_eq_true]

theorem decodeRegister_ne_bl (w : BitVec 32) (offset : BitVec 64) : decodeRegister w ≠ some (.bl offset) := by
  unfold decodeRegister
  dsimp only
  repeat' split
  all_goals simp only [ne_eq, Option.some.injEq, reduceCtorEq, not_false_eq_true, Option.bind_eq_some_iff,
    Option.map_eq_some_iff, and_false, exists_false]

theorem ite_ne {α : Type} {p : Prop} [Decidable p] {a b c : α} (ha : a ≠ c) (hb : b ≠ c) : (if p then a else b) ≠ c := by
  split
  · exact ha
  · exact hb

theorem decodeBranch_ne_bl {w : BitVec 32} (htop : w.extractLsb' 26 6 ≠ 0b100101#6) (offset : BitVec 64) :
    decodeBranch w ≠ some (.bl offset) := by
  have hnot : ¬ w.extractLsb' 26 6 = 0b100101 := htop
  unfold decodeBranch
  dsimp only
  rw [if_neg hnot]
  repeat' apply ite_ne
  all_goals simp only [ne_eq, Option.some.injEq, reduceCtorEq, not_false_eq_true]

/-- The words that are a branch with a link. -/
theorem decode_eq_bl {w : BitVec 32} {offset : BitVec 64} : decode w = some (.bl offset) ↔
    w.extractLsb' 26 6 = 0b100101#6 ∧ offset = branchOffset (w.extractLsb' 0 26) := by
  constructor
  · intro h
    have htop : w.extractLsb' 26 6 = 0b100101#6 := by
      by_contra hne
      unfold decode at h
      split at h
      · exact absurd h (decodeImmediate_ne_bl w offset)
      · exact absurd h (decodeImmediate_ne_bl w offset)
      · exact absurd h (decodeBranch_ne_bl hne offset)
      · exact absurd h (decodeBranch_ne_bl hne offset)
      · exact absurd h (decodeLoadStore_ne_bl w offset)
      · exact absurd h (decodeLoadStore_ne_bl w offset)
      · exact absurd h (decodeLoadStore_ne_bl w offset)
      · exact absurd h (decodeLoadStore_ne_bl w offset)
      · exact absurd h (decodeRegister_ne_bl w offset)
      · exact absurd h (decodeRegister_ne_bl w offset)
      · simp at h
    rw [decode_bl htop, Option.some.injEq, Instr.bl.injEq] at h
    exact ⟨htop, h.symm⟩
  · rintro ⟨htop, rfl⟩
    exact decode_bl htop

/-- The offset of a branch over a distance in its range. -/
theorem branchOffset_div {d : BitVec 64} (hmod : d.toNat % 4 = 0) (hrange : d.toNat < 2 ^ 27 ∨ 2 ^ 64 - 2 ^ 27 ≤ d.toNat) :
    branchOffset ((d / 4#64).setWidth 26) = d := by
  have himm : ((d / 4#64).setWidth 26).toNat = d.toNat / 4 % 2 ^ 26 := by
    rw [BitVec.toNat_setWidth, BitVec.toNat_udiv]
    rfl
  have hlt := d.isLt
  apply BitVec.eq_of_toNat_eq
  rw [branchOffset, BitVec.toNat_shiftLeft, Nat.shiftLeft_eq, BitVec.toNat_signExtend, BitVec.msb_eq_decide,
    BitVec.toNat_setWidth, himm]
  by_cases hsign : 2 ^ (26 - 1) ≤ d.toNat / 4 % 2 ^ 26
  · rw [decide_eq_true hsign, if_pos rfl]
    omega
  · rw [decide_eq_false hsign, if_neg Bool.false_ne_true]
    omega

theorem extractLsb'_branchOffset (imm : BitVec 26) : (branchOffset imm).extractLsb' 2 26 = imm := by
  ext i hi
  rw [BitVec.getElem_extractLsb', branchOffset, BitVec.getLsbD_shiftLeft, BitVec.getLsbD_signExtend,
    decide_eq_true (show 2 + i < 64 by omega), decide_eq_false (show ¬ 2 + i < 2 by omega), Nat.add_sub_cancel_left,
    decide_eq_true (show i < 64 by omega), if_pos hi]
  exact BitVec.getLsbD_eq_getElem hi

/-! ## Execution

The definitions are tagged for `simp`, which runs a block of instructions symbolically. -/

/-- The processor with its memory; `x .sp` is the stack pointer, and `sgi` the values written to
`ICC_SGI1R_EL1` so far. -/
structure Cpu where
  x : Reg → BitVec 64
  pc : BitVec 64
  flags : Flags
  mem : ByteMemory
  mpidr : BitVec 64
  sgi : List (BitVec 64)

/-- The sum of two words and a carry, with the flags it sets. -/
def addWithCarry {k : Nat} (a b : BitVec k) (carry : Bool) : BitVec k × Flags :=
  let sum := a + b + BitVec.ofNat k carry.toNat
  (sum, ⟨sum.msb, sum == 0, decide (2 ^ k ≤ a.toNat + b.toNat + carry.toNat),
    decide (sum.toInt ≠ a.toInt + b.toInt + carry.toNat)⟩)

/-- The part of a register an instruction works on. -/
@[simp] def Width.fit (v : BitVec 64) : Width → BitVec 64
  | .w => (v.setWidth 32).setWidth 64
  | .x => v

@[simp] def Width.bits : Width → Nat
  | .w => 32
  | .x => 64

def Width.addWithCarry (a b : BitVec 64) (carry : Bool) : Width → BitVec 64 × Flags
  | .w => let (sum, flags) := Arm64.addWithCarry (a.setWidth 32) (b.setWidth 32) carry; (sum.setWidth 64, flags)
  | .x => Arm64.addWithCarry a b carry

def Arith.apply (sf : Width) (a b : BitVec 64) : Arith → BitVec 64 × Flags
  | .add | .adds => sf.addWithCarry a b false
  | .sub | .subs => sf.addWithCarry a (~~~b) true

@[simp] def Arith.setsFlags : Arith → Bool
  | .add | .sub => false
  | .adds | .subs => true

@[simp] def Logic.apply (a b : BitVec 64) : Logic → BitVec 64
  | .and => a &&& b
  | .orr => a ||| b
  | .eor => a ^^^ b

@[simp] def Shift.apply (sf : Width) (v : BitVec 64) (amount : Nat) : Shift → BitVec 64
  | .lsl => sf.fit (v <<< amount)
  | .lsr => sf.fit v >>> amount
  | .asr => match sf with
    | .w => ((v.setWidth 32).sshiftRight amount).setWidth 64
    | .x => v.sshiftRight amount

/-- A field of `v` moved to the bottom (`imms ≥ immr`), or its low bits moved up. -/
def bitField (sf : Width) (v : BitVec 64) (immr imms : Nat) : BitVec 64 :=
  if immr ≤ imms then (v.extractLsb' immr (imms - immr + 1)).setWidth 64
  else sf.fit ((v.extractLsb' 0 (imms + 1)).setWidth 64 <<< (sf.bits - immr))

@[simp] def Cond.holds (f : Flags) : Cond → Bool
  | eq => f.z
  | ne => !f.z
  | hs => f.c
  | lo => !f.c
  | mi => f.n
  | pl => !f.n
  | vs => f.v
  | vc => !f.v
  | hi => f.c && !f.z
  | ls => !(f.c && !f.z)
  | ge => f.n == f.v
  | lt => f.n != f.v
  | gt => !f.z && f.n == f.v
  | le => !(!f.z && f.n == f.v)
  | al => true

namespace Cpu

variable (s : Cpu)

/-- A register where number 31 reads as zero. -/
@[simp] def reg (sf : Width) (r : Reg) : BitVec 64 := if r = .sp then 0 else sf.fit (s.x r)

/-- Write a register, the stack pointer included. -/
@[simp] def set (r : Reg) (v : BitVec 64) : Cpu := { s with x := Function.update s.x r v }

/-- Write a register where number 31 is written in vain. -/
@[simp] def setReg (r : Reg) (v : BitVec 64) : Cpu := if r = .sp then s else s.set r v

/-- Go on at a distance. -/
@[simp] def jump (offset : BitVec 64) : Cpu := { s with pc := s.pc + offset }

@[simp] def next : Cpu := s.jump 4

@[simp] def branchIf (taken : Bool) (offset : BitVec 64) : Cpu := if taken then s.jump offset else s.next

/-- The address of a load or store. -/
@[simp] def address (rn : Reg) (index : Index) (offset : BitVec 64) : BitVec 64 :=
  match index with
  | .offset | .pre => s.x rn + offset
  | .post => s.x rn

/-- The base register after a load or store. -/
@[simp] def writeBack (rn : Reg) (index : Index) (offset : BitVec 64) : Cpu :=
  match index with
  | .offset => s
  | .pre | .post => s.set rn (s.x rn + offset)

@[simp] def load (sf : Width) (a : BitVec 64) : BitVec 64 :=
  match sf with
  | .w => (s.mem.read32 a).setWidth 64
  | .x => s.mem.read64 a

@[simp] def store (sf : Width) (a v : BitVec 64) : Cpu :=
  match sf with
  | .w => { s with mem := s.mem.write32 a (v.setWidth 32) }
  | .x => { s with mem := s.mem.write64 a v }

end Cpu

/-- One instruction. -/
@[simp] def exec (s : Cpu) : Instr → Cpu
  | .movz _ rd imm hw => (s.setReg rd (imm.setWidth 64 <<< (16 * hw))).next
  | .movk sf rd imm hw =>
    (s.setReg rd (s.reg sf rd &&& ~~~(0xFFFF#64 <<< (16 * hw)) ||| imm.setWidth 64 <<< (16 * hw))).next
  | .adr rd offset => (s.setReg rd (s.pc + offset)).next
  | .arithImm sf op rd rn imm =>
    let (v, flags) := op.apply sf (s.x rn) imm
    if op.setsFlags then ({ s with flags := flags }.setReg rd v).next else (s.set rd v).next
  | .arithReg sf op rd rn rm shift amount =>
    let (v, flags) := op.apply sf (s.reg sf rn) (shift.apply sf (s.reg sf rm) amount)
    if op.setsFlags then ({ s with flags := flags }.setReg rd v).next else (s.setReg rd v).next
  | .logicImm op rd rn imm => (s.set rd (op.apply (s.reg .x rn) imm)).next
  | .logicReg sf op rd rn rm shift amount =>
    (s.setReg rd (op.apply (s.reg sf rn) (shift.apply sf (s.reg sf rm) amount))).next
  | .ubfm sf rd rn immr imms => (s.setReg rd (bitField sf (s.reg sf rn) immr imms)).next
  | .csel sf rd rn rm cond => (s.setReg rd (if cond.holds s.flags then s.reg sf rn else s.reg sf rm)).next
  | .ccmpImm sf rn imm nzcv cond =>
    { s with flags := if cond.holds s.flags then (Arith.subs.apply sf (s.reg sf rn) imm).2 else nzcv }.next
  | .ldr sf rt rn index offset => ((s.writeBack rn index offset).setReg rt (s.load sf (s.address rn index offset))).next
  | .ldrLiteral rt offset => (s.setReg rt (s.load .x (s.pc + offset))).next
  | .str sf rt rn index offset => ((s.store sf (s.address rn index offset) (s.reg sf rt)).writeBack rn index offset).next
  | .ldp rt rt2 rn index offset =>
    let a := s.address rn index offset
    (((s.writeBack rn index offset).setReg rt (s.load .x a)).setReg rt2 (s.load .x (a + 8))).next
  | .stp rt rt2 rn index offset =>
    let a := s.address rn index offset
    (((s.store .x a (s.reg .x rt)).store .x (a + 8) (s.reg .x rt2)).writeBack rn index offset).next
  | .b offset => s.jump offset
  | .bl offset => (s.set .x30 (s.pc + 4)).jump offset
  | .bCond cond offset => s.branchIf (cond.holds s.flags) offset
  | .cbz sf rt offset => s.branchIf (s.reg sf rt == 0) offset
  | .cbnz sf rt offset => s.branchIf (s.reg sf rt != 0) offset
  | .tbz rt bit offset => s.branchIf (!(s.reg .x rt).getLsbD bit) offset
  | .tbnz rt bit offset => s.branchIf ((s.reg .x rt).getLsbD bit) offset
  | .ret rn | .br rn => { s with pc := s.reg .x rn }
  | .mrsMpidrEl1 rt => (s.setReg rt s.mpidr).next
  | .msrIccSgi1rEl1 rt => { s with sgi := s.sgi ++ [s.reg .x rt] }.next
  | .nop | .dsb => s.next

/-- Fetch, decode and execute; there is no step from a word `decode` gives no meaning. -/
def step (s : Cpu) : Option Cpu := (decode (s.mem.read32 s.pc)).map (exec s)

/-! ## Comparisons -/

/-- The flags of a comparison. -/
def subFlags {k : Nat} (a b : BitVec k) : Flags := (addWithCarry a (~~~b) true).2

theorem addWithCarry_not {k : Nat} (a b : BitVec k) : addWithCarry a (~~~b) true = (a - b, subFlags a b) := by
  refine Prod.ext ?_ rfl
  simp only [addWithCarry, Bool.toNat_true, BitVec.sub_eq_add_neg, BitVec.neg_eq_not_add, BitVec.add_assoc]

theorem addWithCarry_false {k : Nat} (a b : BitVec k) : (addWithCarry a b false).1 = a + b := by
  simp [addWithCarry]

section Apply

variable (a b : BitVec 64)

@[simp] theorem Arith.add_x : Arith.add.apply .x a b = (a + b, (addWithCarry a b false).2) :=
  Prod.ext (addWithCarry_false a b) rfl

@[simp] theorem Arith.add_w : Arith.add.apply .w a b =
    ((a.setWidth 32 + b.setWidth 32).setWidth 64, (addWithCarry (a.setWidth 32) (b.setWidth 32) false).2) := by
  rw [← addWithCarry_false]
  rfl

@[simp] theorem Arith.sub_x : Arith.sub.apply .x a b = (a - b, subFlags a b) := addWithCarry_not a b

@[simp] theorem Arith.subs_x : Arith.subs.apply .x a b = (a - b, subFlags a b) := addWithCarry_not a b

theorem setWidth_not : (~~~b).setWidth 32 = ~~~(b.setWidth 32) := by
  ext i hi
  simp [show i < 64 by omega]

@[simp] theorem Arith.sub_w : Arith.sub.apply .w a b =
    ((a.setWidth 32 - b.setWidth 32).setWidth 64, subFlags (a.setWidth 32) (b.setWidth 32)) := by
  simp only [Arith.apply, Width.addWithCarry, setWidth_not, addWithCarry_not]

@[simp] theorem Arith.subs_w : Arith.subs.apply .w a b =
    ((a.setWidth 32 - b.setWidth 32).setWidth 64, subFlags (a.setWidth 32) (b.setWidth 32)) := by
  simp only [Arith.apply, Width.addWithCarry, setWidth_not, addWithCarry_not]

end Apply

@[simp] theorem subFlags_z {k : Nat} (a b : BitVec k) : (subFlags a b).z = decide (a = b) := by
  have h := congrArg Prod.fst (addWithCarry_not a b)
  have hz : (subFlags a b).z = ((addWithCarry a (~~~b) true).1 == 0) := rfl
  rw [hz, h, beq_eq_decide]
  exact decide_eq_decide.2 (by simp [BitVec.sub_eq_iff_eq_add])

@[simp] theorem subFlags_c {k : Nat} (a b : BitVec k) : (subFlags a b).c = decide (b ≤ a) := by
  have ha := a.isLt
  have hb := b.isLt
  simp only [subFlags, addWithCarry, BitVec.toNat_not, Bool.toNat_true]
  exact decide_eq_decide.2 (by rw [BitVec.le_def]; omega)

end Arm64
