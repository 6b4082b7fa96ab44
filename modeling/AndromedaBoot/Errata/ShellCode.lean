import AndromedaBoot.Lib.Arm64Run

/-!
# The shellcode (KernelErrataPatcherLib/ShellCode.h)

The bytes the library injects in front of the kernel's entry, and the programs they stand for. Each was made
from a reference by a compiler and a text tool, which turned the loop over all modules of the loader block
into one round: at the end of the first module the code branches to its own end.
-/

namespace Andromeda

open Arm64

/-! ## Bytes -/

/-- `ACTLR_EL1_UNIMPLEMENTED_PATCH`. -/
def actlrEl1UnimplementedPatch : List (BitVec 8) := [
  0xEB, 0x03, 0x00, 0xAA, 0x68, 0x0D, 0x41, 0xF8, 0x1F, 0x01, 0x0B, 0xEB, 0x20, 0x04, 0x00, 0x54,
  0x06, 0x05, 0x82, 0x52, 0x06, 0xA7, 0xBA, 0x72, 0x07, 0xFB, 0x9D, 0x52, 0xE7, 0x5C, 0xA5, 0x72,
  0xEA, 0x03, 0x84, 0x52, 0x6A, 0xA0, 0xBA, 0x72, 0x09, 0x01, 0x80, 0x52, 0x09, 0x50, 0xBA, 0x72,
  0x10, 0x00, 0x00, 0x14, 0x49, 0x00, 0x00, 0xB9, 0x42, 0x10, 0x00, 0x91, 0x5F, 0x00, 0x04, 0xEB,
  0x22, 0x01, 0x00, 0x54, 0x43, 0x00, 0x40, 0xB9, 0x7F, 0x00, 0x06, 0x6B, 0x40, 0xFF, 0xFF, 0x54,
  0x63, 0x00, 0x07, 0x0B, 0x7F, 0x04, 0x00, 0x71, 0x08, 0xFF, 0xFF, 0x54, 0x4A, 0x00, 0x00, 0xB9,
  0xF6, 0xFF, 0xFF, 0x17, 0x08, 0x01, 0x40, 0xF9, 0x1F, 0x01, 0x0B, 0xEB, 0x09, 0x00, 0x00, 0x14,
  0x02, 0x19, 0x40, 0xF9, 0x04, 0x41, 0x40, 0xB9, 0x84, 0x00, 0x02, 0x8B, 0x5F, 0x00, 0x04, 0xEB,
  0x23, 0xFE, 0xFF, 0x54, 0xF8, 0xFF, 0xFF, 0x17, 0x00, 0x00, 0x00, 0x14, 0x1F, 0x20, 0x03, 0xD5]

/-- `AMCNTENSET0_EL0_UNIMPLEMENTED_PATCH`. -/
def amcntenset0El0UnimplementedPatch : List (BitVec 8) := [
  0xE8, 0x03, 0x00, 0xAA, 0x06, 0x0D, 0x41, 0xF8, 0xDF, 0x00, 0x08, 0xEB, 0x20, 0x03, 0x00, 0x54,
  0x05, 0x55, 0x9A, 0x52, 0x65, 0xA7, 0xBA, 0x72, 0x07, 0x01, 0x80, 0x52, 0x07, 0x50, 0xBA, 0x72,
  0x0C, 0x00, 0x00, 0x14, 0x42, 0x10, 0x00, 0x91, 0x5F, 0x00, 0x04, 0xEB, 0xC2, 0x00, 0x00, 0x54,
  0x43, 0x00, 0x40, 0xB9, 0x7F, 0x00, 0x05, 0x6B, 0x61, 0xFF, 0xFF, 0x54, 0x47, 0x00, 0x00, 0xB9,
  0xF9, 0xFF, 0xFF, 0x17, 0xC6, 0x00, 0x40, 0xF9, 0xDF, 0x00, 0x08, 0xEB, 0x09, 0x00, 0x00, 0x14,
  0xC2, 0x18, 0x40, 0xF9, 0xC4, 0x40, 0x40, 0xB9, 0x84, 0x00, 0x02, 0x8B, 0x5F, 0x00, 0x04, 0xEB,
  0x83, 0xFE, 0xFF, 0x54, 0xF8, 0xFF, 0xFF, 0x17, 0x00, 0x00, 0x00, 0x14, 0x1F, 0x20, 0x03, 0xD5]

/-- `GIC_V3_WITHOUT_IRM_FLAG_SUPPORT_PATCH`. -/
def gicV3WithoutIrmFlagSupportPatch : List (BitVec 8) := [
  0xEA, 0x03, 0x00, 0xAA, 0x49, 0x0D, 0x41, 0xF8, 0x3F, 0x01, 0x0A, 0xEB, 0xA0, 0x0C, 0x00, 0x54,
  0x03, 0x00, 0x80, 0xD2, 0x04, 0x00, 0x80, 0xD2, 0x48, 0x75, 0x99, 0x52, 0x08, 0xA3, 0xBA, 0x72,
  0x67, 0x00, 0x80, 0xD2, 0x27, 0x01, 0xA0, 0xF2, 0xC7, 0x02, 0xC0, 0xF2, 0x27, 0x01, 0xE0, 0xF2,
  0x04, 0x00, 0x00, 0x14, 0x29, 0x01, 0x40, 0xF9, 0x3F, 0x01, 0x0A, 0xEB, 0x13, 0x00, 0x00, 0x14,
  0x22, 0x19, 0x40, 0xF9, 0x26, 0x41, 0x40, 0xB9, 0xC6, 0x00, 0x02, 0x8B, 0x5F, 0x00, 0x06, 0xEB,
  0x22, 0xFF, 0xFF, 0x54, 0x45, 0x00, 0x40, 0xB9, 0xBF, 0x00, 0x08, 0x6B, 0x84, 0x10, 0x82, 0x9A,
  0x45, 0x00, 0x40, 0xF9, 0xBF, 0x00, 0x07, 0xEB, 0x63, 0x10, 0x82, 0x9A, 0x9F, 0x00, 0x00, 0xF1,
  0x64, 0x18, 0x40, 0xFA, 0x01, 0xFE, 0xFF, 0x54, 0x42, 0x10, 0x00, 0x91, 0x5F, 0x00, 0x06, 0xEB,
  0xA3, 0xFE, 0xFF, 0x54, 0xEC, 0xFF, 0xFF, 0x17, 0x9F, 0x00, 0x00, 0xF1, 0x64, 0x18, 0x40, 0xFA,
  0x80, 0x08, 0x00, 0x54, 0x62, 0xA0, 0x02, 0xD1, 0x42, 0x00, 0x04, 0xCB, 0x42, 0x6C, 0x02, 0x53,
  0x05, 0x80, 0xB2, 0x52, 0x42, 0x00, 0x05, 0x2A, 0x82, 0x00, 0x00, 0xB9, 0xA2, 0x7F, 0x8F, 0xD2,
  0xE2, 0x37, 0xB5, 0xF2, 0xA2, 0x7F, 0xC0, 0xF2, 0x02, 0x20, 0xF2, 0xF2, 0x62, 0x80, 0x15, 0xF8,
  0x42, 0x49, 0x80, 0xD2, 0x02, 0xC8, 0xB6, 0xF2, 0x42, 0x29, 0xDF, 0xF2, 0xE2, 0x4A, 0xF2, 0xF2,
  0x62, 0x00, 0x16, 0xF8, 0x42, 0x29, 0x80, 0xD2, 0x02, 0x48, 0xB6, 0xF2, 0xC2, 0x7E, 0xC0, 0xF2,
  0x42, 0x41, 0xF5, 0xF2, 0x62, 0x80, 0x16, 0xF8, 0x22, 0x15, 0x80, 0xD2, 0x02, 0xA7, 0xBA, 0xF2,
  0x22, 0xA5, 0xC1, 0xF2, 0x02, 0x4F, 0xF2, 0xF2, 0x62, 0x00, 0x17, 0xF8, 0x82, 0x02, 0x80, 0xD2,
  0x02, 0x50, 0xBA, 0xF2, 0xA2, 0x22, 0xC0, 0xF2, 0x02, 0x50, 0xEA, 0xF2, 0x62, 0x80, 0x17, 0xF8,
  0xE2, 0x53, 0x84, 0xD2, 0x22, 0x69, 0xBD, 0xF2, 0x02, 0x14, 0xC0, 0xF2, 0x02, 0x80, 0xEA, 0xF2,
  0x62, 0x00, 0x18, 0xF8, 0x02, 0xD1, 0x97, 0xD2, 0x02, 0x6E, 0xBA, 0xF2, 0x42, 0x59, 0xC0, 0xF2,
  0x02, 0x41, 0xF5, 0xF2, 0x62, 0x80, 0x18, 0xF8, 0x42, 0x75, 0x99, 0xD2, 0x02, 0xA3, 0xBA, 0xF2,
  0xE2, 0xF3, 0xC7, 0xF2, 0x62, 0xA0, 0xFA, 0xF2, 0x62, 0x00, 0x19, 0xF8, 0x82, 0xD2, 0x80, 0xD2,
  0x02, 0x20, 0xB2, 0xF2, 0xA2, 0xD6, 0xC0, 0xF2, 0x02, 0x20, 0xEA, 0xF2, 0x62, 0x80, 0x19, 0xF8,
  0xA2, 0xE2, 0x9F, 0xD2, 0xE2, 0xBF, 0xA6, 0xF2, 0x42, 0x00, 0xC0, 0xF2, 0x02, 0x80, 0xE2, 0xF2,
  0x62, 0x00, 0x1A, 0xF8, 0x42, 0x75, 0x99, 0xD2, 0x02, 0xA3, 0xBA, 0xF2, 0xA2, 0x7F, 0xCF, 0xF2,
  0x22, 0x18, 0xF5, 0xF2, 0x62, 0x80, 0x1A, 0xF8, 0x02, 0x78, 0x80, 0x52, 0xE2, 0xCB, 0xBA, 0x72,
  0x62, 0x00, 0x1B, 0xB8, 0x1F, 0x20, 0x03, 0xD5, 0x1F, 0x20, 0x03, 0xD5, 0x1F, 0x20, 0x03, 0xD5]

/-- `GIC_V3_WITHOUT_IRM_FLAG_SUPPORT_X8_VARIANT_PATCH`. -/
def gicV3WithoutIrmFlagSupportX8VariantPatch : List (BitVec 8) := [
  0xEA, 0x03, 0x00, 0xAA, 0x49, 0x0D, 0x41, 0xF8, 0x3F, 0x01, 0x0A, 0xEB, 0xA0, 0x0C, 0x00, 0x54,
  0x03, 0x00, 0x80, 0xD2, 0x04, 0x00, 0x80, 0xD2, 0x08, 0x75, 0x99, 0x52, 0x08, 0xA3, 0xBA, 0x72,
  0x67, 0x00, 0x80, 0xD2, 0x27, 0x01, 0xA0, 0xF2, 0xC7, 0x02, 0xC0, 0xF2, 0x27, 0x01, 0xE0, 0xF2,
  0x04, 0x00, 0x00, 0x14, 0x29, 0x01, 0x40, 0xF9, 0x3F, 0x01, 0x0A, 0xEB, 0x13, 0x00, 0x00, 0x14,
  0x22, 0x19, 0x40, 0xF9, 0x26, 0x41, 0x40, 0xB9, 0xC6, 0x00, 0x02, 0x8B, 0x5F, 0x00, 0x06, 0xEB,
  0x22, 0xFF, 0xFF, 0x54, 0x45, 0x00, 0x40, 0xB9, 0xBF, 0x00, 0x08, 0x6B, 0x84, 0x10, 0x82, 0x9A,
  0x45, 0x00, 0x40, 0xF9, 0xBF, 0x00, 0x07, 0xEB, 0x63, 0x10, 0x82, 0x9A, 0x9F, 0x00, 0x00, 0xF1,
  0x64, 0x18, 0x40, 0xFA, 0x01, 0xFE, 0xFF, 0x54, 0x42, 0x10, 0x00, 0x91, 0x5F, 0x00, 0x06, 0xEB,
  0xA3, 0xFE, 0xFF, 0x54, 0xEC, 0xFF, 0xFF, 0x17, 0x9F, 0x00, 0x00, 0xF1, 0x64, 0x18, 0x40, 0xFA,
  0x80, 0x08, 0x00, 0x54, 0x62, 0xA0, 0x02, 0xD1, 0x42, 0x00, 0x04, 0xCB, 0x42, 0x6C, 0x02, 0x53,
  0x05, 0x80, 0xB2, 0x52, 0x42, 0x00, 0x05, 0x2A, 0x82, 0x00, 0x00, 0xB9, 0xA2, 0x7F, 0x8F, 0xD2,
  0xE2, 0x37, 0xB5, 0xF2, 0xA2, 0x7F, 0xC0, 0xF2, 0x02, 0x20, 0xF2, 0xF2, 0x62, 0x80, 0x15, 0xF8,
  0x02, 0x49, 0x80, 0xD2, 0x02, 0xC8, 0xB6, 0xF2, 0x02, 0x21, 0xDF, 0xF2, 0xE2, 0x4A, 0xF2, 0xF2,
  0x62, 0x00, 0x16, 0xF8, 0x02, 0x21, 0x80, 0xD2, 0x02, 0x48, 0xB6, 0xF2, 0xC2, 0x7E, 0xC0, 0xF2,
  0x02, 0x41, 0xF5, 0xF2, 0x62, 0x80, 0x16, 0xF8, 0x22, 0x15, 0x80, 0xD2, 0x02, 0xA7, 0xBA, 0xF2,
  0x22, 0xA5, 0xC1, 0xF2, 0x02, 0x4F, 0xF2, 0xF2, 0x62, 0x00, 0x17, 0xF8, 0x82, 0x02, 0x80, 0xD2,
  0x02, 0x50, 0xBA, 0xF2, 0xA2, 0x22, 0xC0, 0xF2, 0x02, 0x50, 0xEA, 0xF2, 0x62, 0x80, 0x17, 0xF8,
  0xE2, 0x53, 0x84, 0xD2, 0x22, 0x69, 0xBD, 0xF2, 0x02, 0x14, 0xC0, 0xF2, 0x02, 0x80, 0xEA, 0xF2,
  0x62, 0x00, 0x18, 0xF8, 0x42, 0xD1, 0x97, 0xD2, 0x02, 0x6E, 0xBA, 0xF2, 0x02, 0x59, 0xC0, 0xF2,
  0x42, 0x41, 0xF5, 0xF2, 0x62, 0x80, 0x18, 0xF8, 0x02, 0x75, 0x99, 0xD2, 0x02, 0xA3, 0xBA, 0xF2,
  0xE2, 0xF3, 0xC7, 0xF2, 0x62, 0xA0, 0xFA, 0xF2, 0x62, 0x00, 0x19, 0xF8, 0x82, 0xD2, 0x80, 0xD2,
  0x02, 0x20, 0xB2, 0xF2, 0xA2, 0xD6, 0xC0, 0xF2, 0x02, 0x20, 0xEA, 0xF2, 0x62, 0x80, 0x19, 0xF8,
  0xA2, 0xE2, 0x9F, 0xD2, 0xE2, 0xBF, 0xA6, 0xF2, 0x42, 0x00, 0xC0, 0xF2, 0x02, 0x80, 0xE2, 0xF2,
  0x62, 0x00, 0x1A, 0xF8, 0x02, 0x75, 0x99, 0xD2, 0x02, 0xA3, 0xBA, 0xF2, 0xA2, 0x7F, 0xCF, 0xF2,
  0x22, 0x18, 0xF5, 0xF2, 0x62, 0x80, 0x1A, 0xF8, 0x02, 0x78, 0x80, 0x52, 0xE2, 0xCB, 0xBA, 0x72,
  0x62, 0x00, 0x1B, 0xB8, 0x1F, 0x20, 0x03, 0xD5, 0x1F, 0x20, 0x03, 0xD5, 0x1F, 0x20, 0x03, 0xD5]

/-- `PSCI_MEMPROTECT_FAILING_PATCH`. -/
def psciMemprotectFailingPatch : List (BitVec 8) := [
  0xEC, 0x03, 0x00, 0xAA, 0x88, 0x0D, 0x41, 0xF8, 0x1F, 0x01, 0x0C, 0xEB, 0x20, 0x06, 0x00, 0x54,
  0xA6, 0x5A, 0x80, 0xD2, 0x06, 0x00, 0xA3, 0xF2, 0x66, 0x00, 0xC0, 0xF2, 0x06, 0x50, 0xFA, 0xF2,
  0x67, 0x00, 0x80, 0xD2, 0x07, 0x50, 0xBA, 0xF2, 0x47, 0x00, 0xC0, 0xF2, 0x07, 0x50, 0xFA, 0xF2,
  0x2A, 0x00, 0x80, 0xD2, 0x0A, 0x50, 0xBA, 0xF2, 0x0A, 0x48, 0xC0, 0xF2, 0x0A, 0x00, 0xE3, 0xF2,
  0x0B, 0x78, 0x80, 0x52, 0xEB, 0xCB, 0xBA, 0x72, 0x49, 0x00, 0x80, 0xD2, 0x09, 0x50, 0xBA, 0xF2,
  0x29, 0x00, 0xC0, 0xF2, 0x09, 0x50, 0xFA, 0xF2, 0x17, 0x00, 0x00, 0x14, 0x43, 0x04, 0x40, 0xF9,
  0x7F, 0x00, 0x09, 0xEB, 0xE0, 0x01, 0x00, 0x54, 0x42, 0x10, 0x00, 0x91, 0x5F, 0x00, 0x05, 0xEB,
  0xC2, 0x01, 0x00, 0x54, 0x43, 0x00, 0x40, 0xF9, 0x7F, 0x00, 0x06, 0xEB, 0x00, 0xFF, 0xFF, 0x54,
  0x7F, 0x00, 0x07, 0xEB, 0x21, 0xFF, 0xFF, 0x54, 0x43, 0x04, 0x40, 0xF9, 0x63, 0xF8, 0x58, 0x92,
  0x7F, 0x00, 0x0A, 0xEB, 0xA1, 0xFE, 0xFF, 0x54, 0x4B, 0x40, 0x1E, 0xB8, 0xF3, 0xFF, 0xFF, 0x17,
  0x4B, 0x00, 0x1E, 0xB8, 0xF1, 0xFF, 0xFF, 0x17, 0x08, 0x01, 0x40, 0xF9, 0x1F, 0x01, 0x0C, 0xEB,
  0x08, 0x00, 0x00, 0x14, 0x02, 0x19, 0x40, 0xF9, 0x05, 0x41, 0x40, 0xB9, 0xA5, 0x00, 0x02, 0x8B,
  0x5F, 0x00, 0x05, 0xEB, 0x83, 0xFD, 0xFF, 0x54, 0xF8, 0xFF, 0xFF, 0x17, 0x00, 0x00, 0x00, 0x14]

/-! ## Programs -/

/-- `ACTLR_EL1_UNIMPLEMENTED_PATCH` disassembled. -/
def actlrEl1Program : List Instr := [
  .mov .x11 .x0, .ldr .x .x8 .x11 .pre 16#64, .cmp .x .x8 .x11, .bCond .eq 132#64, .movz .w .x6 0x1028#16 0,
  .movk .w .x6 0xD538#16 1, .movz .w .x7 0xEFD8#16 0, .movk .w .x7 0x2AE7#16 1, .movz .w .x10 0x201F#16 0,
  .movk .w .x10 0xD503#16 1, .movz .w .x9 0x0008#16 0, .movk .w .x9 0xD280#16 1, .b 64#64,
  .str .w .x9 .x2 .offset 0#64, .addImm .x .x2 .x2 4#64, .cmp .x .x2 .x4, .bCond .hs 36#64,
  .ldr .w .x3 .x2 .offset 0#64, .cmp .w .x3 .x6, .bCond .eq (-24#64), .add .w .x3 .x3 .x7, .cmpImm .w .x3 1#64,
  .bCond .hi (-32#64), .str .w .x10 .x2 .offset 0#64, .b (-40#64), .ldr .x .x8 .x8 .offset 0#64,
  .cmp .x .x8 .x11, .b 36#64, .ldr .x .x2 .x8 .offset 48#64, .ldr .w .x4 .x8 .offset 64#64,
  .add .x .x4 .x4 .x2, .cmp .x .x2 .x4, .bCond .lo (-60#64), .b (-32#64), .b 0#64, .nop]

/-- `AMCNTENSET0_EL0_UNIMPLEMENTED_PATCH` disassembled. -/
def amcntenset0El0Program : List Instr := [
  .mov .x8 .x0, .ldr .x .x6 .x8 .pre 16#64, .cmp .x .x6 .x8, .bCond .eq 100#64, .movz .w .x5 0xD2A8#16 0,
  .movk .w .x5 0xD53B#16 1, .movz .w .x7 0x0008#16 0, .movk .w .x7 0xD280#16 1, .b 48#64,
  .addImm .x .x2 .x2 4#64, .cmp .x .x2 .x4, .bCond .hs 24#64, .ldr .w .x3 .x2 .offset 0#64, .cmp .w .x3 .x5,
  .bCond .ne (-20#64), .str .w .x7 .x2 .offset 0#64, .b (-28#64), .ldr .x .x6 .x6 .offset 0#64,
  .cmp .x .x6 .x8, .b 36#64, .ldr .x .x2 .x6 .offset 48#64, .ldr .w .x4 .x6 .offset 64#64, .add .x .x4 .x4 .x2,
  .cmp .x .x2 .x4, .bCond .lo (-48#64), .b (-32#64), .b 0#64, .nop]

/-- `PSCI_MEMPROTECT_FAILING_PATCH` disassembled. -/
def psciMemprotectProgram : List Instr := [
  .mov .x12 .x0, .ldr .x .x8 .x12 .pre 16#64, .cmp .x .x8 .x12, .bCond .eq 196#64, .movz .x .x6 0x02D5#16 0,
  .movk .x .x6 0x1800#16 1, .movk .x .x6 0x0003#16 2, .movk .x .x6 0xD280#16 3, .movz .x .x7 0x0003#16 0,
  .movk .x .x7 0xD280#16 1, .movk .x .x7 0x0002#16 2, .movk .x .x7 0xD280#16 3, .movz .x .x10 0x0001#16 0,
  .movk .x .x10 0xD280#16 1, .movk .x .x10 0x0240#16 2, .movk .x .x10 0x1800#16 3, .movz .w .x11 0x03C0#16 0,
  .movk .w .x11 0xD65F#16 1, .movz .x .x9 0x0002#16 0, .movk .x .x9 0xD280#16 1, .movk .x .x9 0x0001#16 2,
  .movk .x .x9 0xD280#16 3, .b 92#64, .ldr .x .x3 .x2 .offset 8#64, .cmp .x .x3 .x9, .bCond .eq 60#64,
  .addImm .x .x2 .x2 4#64, .cmp .x .x2 .x5, .bCond .hs 56#64, .ldr .x .x3 .x2 .offset 0#64, .cmp .x .x3 .x6,
  .bCond .eq (-32#64), .cmp .x .x3 .x7, .bCond .ne (-28#64), .ldr .x .x3 .x2 .offset 8#64,
  .logicImm .and .x3 .x3 (-549755813889#64), .cmp .x .x3 .x10, .bCond .ne (-44#64),
  .str .w .x11 .x2 .offset (-28#64), .b (-52#64), .str .w .x11 .x2 .offset (-32#64), .b (-60#64),
  .ldr .x .x8 .x8 .offset 0#64, .cmp .x .x8 .x12, .b 32#64, .ldr .x .x2 .x8 .offset 48#64,
  .ldr .w .x5 .x8 .offset 64#64, .add .x .x5 .x5 .x2, .cmp .x .x2 .x5, .bCond .lo (-80#64), .b (-32#64),
  .b 0#64]

theorem disassemble_actlrEl1 : disassemble actlrEl1UnimplementedPatch = some actlrEl1Program := by decide +kernel

theorem disassemble_amcntenset0El0 : disassemble amcntenset0El0UnimplementedPatch = some amcntenset0El0Program := by
  decide +kernel

theorem disassemble_psciMemprotect : disassemble psciMemprotectFailingPatch = some psciMemprotectProgram := by
  decide +kernel

/-! ## What the programs work on -/

/-- `DllBase` and `SizeOfImage` of the first module in the load order list of the loader block at `x0`. -/
def firstModule (m : ByteMemory) (x0 : BitVec 64) : Option (BitVec 64 × BitVec 32) :=
  let entry := m.read64 (x0 + 16#64)
  if entry = x0 + 16#64 then none else some (m.read64 (entry + 0x30#64), m.read32 (entry + 0x40#64))

theorem firstModule_eq_none {m : ByteMemory} {x0 : BitVec 64} (h : firstModule m x0 = none) :
    m.read64 (x0 + 16#64) = x0 + 16#64 := by
  unfold firstModule at h
  simpa using h

theorem firstModule_eq_some {m : ByteMemory} {x0 base : BitVec 64} {size : BitVec 32}
    (h : firstModule m x0 = some (base, size)) : m.read64 (x0 + 16#64) ≠ x0 + 16#64 ∧
      m.read64 (m.read64 (x0 + 16#64) + 0x30#64) = base ∧ m.read32 (m.read64 (x0 + 16#64) + 0x40#64) = size := by
  unfold firstModule at h
  simpa using h

/-- The registers that are handed to the kernel or belong to the caller. -/
def keptReg : Reg → Bool
  | .x2 | .x3 | .x4 | .x5 | .x6 | .x7 | .x8 | .x9 | .x10 | .x11 | .x12 | .x13 | .x14 | .x15 | .x16 | .x17 => false
  | _ => true

/-- Two register files agree on those. -/
def KeptRegs (x x' : Reg → BitVec 64) : Prop := ∀ r, keptReg r = true → x' r = x r

theorem KeptRegs.refl (x : Reg → BitVec 64) : KeptRegs x x := fun _ _ => rfl

theorem KeptRegs.update {x x' : Reg → BitVec 64} {d : Reg} {v : BitVec 64} (hd : keptReg d = false) :
    KeptRegs x (Function.update x' d v) ↔ KeptRegs x x' := by
  refine forall_congr' fun r => forall_congr' fun hr => ?_
  rw [Function.update_of_ne (by rintro rfl; simp [hd] at hr)]

/-- A processor about to run `code`, with one module of `size` bytes at `0x20000` in its loader block. -/
def sampleCpu (image : ByteMemory) (size : BitVec 32) (code : List (BitVec 8)) : Cpu where
  x r := if r = .x0 then 0x8000#64 else 0
  pc := 0x1000#64
  flags := ⟨false, false, false, false⟩
  mem := (((image.write64 0x8010#64 0x9000#64).write64 0x9030#64 0x20000#64).write32 0x9040#64 size).writeBytes
    0x1000#64 code
  mpidr := 0x80000100#64
  sgi := []

end Andromeda
