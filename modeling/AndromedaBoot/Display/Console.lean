import AndromedaBoot.Lib.Pen
import Mathlib.Tactic.Ring

/-!
# The console on the frame buffer

The serial port is drawn on the screen, character by character, with a font of 5 × 12 pixels. The position of the
cursor is kept behind the frame buffer; when the screen is full it is cleared, and the character is taken again.

| here | there, `FrameBufferSerialPortLib/FrameBufferSerialPortLib.c` |
| --- | --- |
| `FrameBuffer.position` | `p_Position`, `SerialPortInitialize` :56 |
| `resetFb` | `ResetFb` :67-85 |
| `FrameBuffer.maxX`, `FrameBuffer.maxY` | `m_MaxPosition`, `FbConReset` :90-91 |
| `newline`, `paint`, `fbConPutCharWithFactor` | `FbConPutCharWithFactor` :98-162; `paint` is one round from the label `paint` |
| `fbConDrawglyph` | `FbConDrawglyph` :164-260 |
| `font5x12` | `Include/Resources/font5x12.h` :37-70 |

The library that also logs to memory has the same routine. Flushing the data cache and masking interrupts are left out.
-/

namespace Andromeda

/-- `FB_BGRA8888_BLACK` -/
def fbBgra8888Black : BitVec 64 := 0xff000000

def fontWidth : Nat := 5

def fontHeight : Nat := 12

def font5x12 : List (BitVec 32) :=
  [0x00000000, 0x00000000, 0x08421080, 0x00020084, 0x00052940, 0x00000000, 0x15f52800, 0x0000295f,
  0x1c52f880, 0x00023e94, 0x08855640, 0x0004d542, 0x04528800, 0x000b2725, 0x00021080, 0x00000000,
  0x04211088, 0x00821042, 0x10841082, 0x00221108, 0x09575480, 0x00000000, 0x3e420000, 0x00000084,
  0x00000000, 0x00223000, 0x3e000000, 0x00000000, 0x00000000, 0x00471000, 0x08844200, 0x00008442,
  0x2318a880, 0x00022a31, 0x08429880, 0x000f9084, 0x1108c5c0, 0x000f8444, 0x1c4443e0, 0x00074610,
  0x14a62100, 0x000423e9, 0x26d087e0, 0x00074610, 0x1e10c5c0, 0x00074631, 0x088443e0, 0x00010844,
  0x1d18c5c0, 0x00074631, 0x3d18c5c0, 0x00074610, 0x08e20000, 0x00471000, 0x08e20000, 0x00223000,
  0x02222200, 0x00082082, 0x01f00000, 0x000003e0, 0x20820820, 0x00008888, 0x1108c5c0, 0x00020084,
  0x2b98c5c0, 0x000f05b5, 0x2318a880, 0x0008c63f, 0x1d2949e0, 0x0007ca52, 0x0210c5c0, 0x00074421,
  0x252949e0, 0x0007ca52, 0x1e1087e0, 0x000f8421, 0x1e1087e0, 0x00008421, 0x0210c5c0, 0x00074639,
  0x3f18c620, 0x0008c631, 0x084211c0, 0x00071084, 0x10842380, 0x00032508, 0x0654c620, 0x0008c525,
  0x02108420, 0x000f8421, 0x2b5dc620, 0x0008c631, 0x2b59ce20, 0x0008c739, 0x2318c5c0, 0x00074631,
  0x1f18c5e0, 0x00008421, 0x2318c5c0, 0x01075631, 0x1f18c5e0, 0x0008c525, 0x1c10c5c0, 0x00074610,
  0x084213e0, 0x00021084, 0x2318c620, 0x00074631, 0x1518c620, 0x0002114a, 0x2b18c620, 0x000556b5,
  0x08a54620, 0x0008c54a, 0x08a54620, 0x00021084, 0x088443e0, 0x000f8442, 0x0421084e, 0x00e10842,
  0x08210420, 0x00084108, 0x1084210e, 0x00e42108, 0x0008a880, 0x00000000, 0x00000000, 0x01f00000,
  0x00000104, 0x00000000, 0x20e00000, 0x000b663e, 0x22f08420, 0x0007c631, 0x22e00000, 0x00074421,
  0x23e84200, 0x000f4631, 0x22e00000, 0x0007443f, 0x1e214980, 0x00010842, 0x22e00000, 0x1d187a31,
  0x26d08420, 0x0008c631, 0x08601000, 0x00071084, 0x10c02000, 0x0c94a108, 0x0a908420, 0x0008a4a3,
  0x084210c0, 0x00071084, 0x2ab00000, 0x0008d6b5, 0x26d00000, 0x0008c631, 0x22e00000, 0x00074631,
  0x22f00000, 0x0210be31, 0x23e00000, 0x21087a31, 0x26d00000, 0x00008421, 0x22e00000, 0x00074506,
  0x04f10800, 0x00064842, 0x23100000, 0x000b6631, 0x23100000, 0x00022951, 0x23100000, 0x000556b5,
  0x15100000, 0x0008a884, 0x23100000, 0x1d185b31, 0x11f00000, 0x000f8444, 0x06421098, 0x01821084,
  0x08421080, 0x00021084, 0x30421083, 0x00321084, 0x0004d640, 0x00000000, 0x00000000, 0x00000000]

/-- `FbConMsgType` -/
inductive FbConMsgType
  | common | unlockTitle | title | subtitle | yellow | orange | red | green | selectBg
deriving DecidableEq

/-- `FBCON_POSITION`; its numbers stay far from the bounds of `INTN`. -/
structure FbconPosition where
  x : Int
  y : Int
deriving DecidableEq

/-- `FBCON_COLOR` -/
structure FbconColor where
  foreground : BitVec 64
  background : BitVec 64

/-- The display: where its memory is, and the three `PcdMipiFrameBuffer` values. -/
structure FrameBuffer where
  address : BitVec 64
  width : BitVec 32
  height : BitVec 32
  pixelBpp : BitVec 32

namespace FrameBuffer

variable (fb : FrameBuffer)

def gWidth : BitVec 64 := fb.width.setWidth 64

def gHeight : BitVec 64 := fb.height.setWidth 64

def gBpp : BitVec 64 := fb.pixelBpp.setWidth 64

/-- Where the position is kept; the product is one of 32-bit numbers. -/
def position : BitVec 64 := fb.address + (fb.width * fb.height * fb.pixelBpp / 8#32).setWidth 64

def maxX : Int := (fb.gWidth / 6#64).toInt

def maxY : Int := ((fb.gHeight - 1#64) / 12#64).toInt

/-- `(int)(m_MaxPosition.x / scale_factor)` -/
def columns (scaleFactor : BitVec 32) : Int := (fb.maxX.tdiv scaleFactor.toNat).bmod (2 ^ 32)

end FrameBuffer

/-! ## Drawing -/

open Pen

def resetFb (fb : FrameBuffer) : List (BitVec 64 × BitVec 8) :=
  (((putPixel (fb.gBpp / 8#64).toNat fbBgra8888Black)^[fb.gHeight.toNat])^[fb.gWidth.toNat] ⟨fb.address, [], ()⟩).writes

section Glyph

variable (bpp scaleFactor : BitVec 32) (skip : BitVec 64) (color : BitVec 32)

/-- A line of the background, with the way to the next one. -/
def backgroundLine (p : Pen (BitVec 32)) : Pen (BitVec 32) :=
  (((putPixel bpp.toNat color)^[scaleFactor.toNat])^[fontWidth] p).move skip

/-- The first or the second half of the background. -/
def backgroundHalf : Pen (BitVec 32) → Pen (BitVec 32) :=
  ((backgroundLine bpp scaleFactor skip color)^[scaleFactor.toNat])^[fontHeight / 2]

/-- A point of the glyph, drawn if the lowest bit of `data` is set. -/
def glyphPoint (p : Pen (BitVec 32)) : Pen (BitVec 32) :=
  let p := if p.data &&& 1#32 ≠ 0#32 then (putPixel bpp.toNat color)^[scaleFactor.toNat] p
    else (move (bpp.setWidth 64))^[scaleFactor.toNat] p
  { p with data := p.data >>> 1 }

def glyphLine (temp : BitVec 32) (p : Pen (BitVec 32)) : Pen (BitVec 32) :=
  ((glyphPoint bpp scaleFactor color)^[fontWidth] { p with data := temp }).move skip

/-- The same line `scale_factor` times. -/
def glyphLines (p : Pen (BitVec 32)) : Pen (BitVec 32) :=
  (glyphLine bpp scaleFactor skip color p.data)^[scaleFactor.toNat] p

def glyphHalf (data : BitVec 32) (p : Pen (BitVec 32)) : Pen (BitVec 32) :=
  (glyphLines bpp scaleFactor skip color)^[fontHeight / 2] { p with data := data }

end Glyph

/-- `glyph` is the place of the glyph in the font. -/
def fbConDrawglyph (mColor : FbconColor) (pixels : BitVec 64) (stride bpp : BitVec 32) (glyph : Nat)
    (scaleFactor : BitVec 32) : List (BitVec 64 × BitVec 8) :=
  let fgColor := mColor.foreground.setWidth 32
  let bgColor := mColor.background.setWidth 32
  let stride := stride - 5#32 * scaleFactor
  let skip := (stride * bpp).setWidth 64
  let background := backgroundHalf bpp scaleFactor skip bgColor (backgroundHalf bpp scaleFactor skip bgColor ⟨pixels, [], 0⟩)
  (glyphHalf bpp scaleFactor skip fgColor (font5x12.getD (glyph + 1) 0)
    (glyphHalf bpp scaleFactor skip fgColor (font5x12.getD glyph 0) ⟨pixels, background.writes, 0⟩)).writes

/-! ## The cursor -/

/-- What is drawn: the glyph at a place of the font, with the position it is drawn at, or the empty screen. -/
inductive FbEvent
  | glyph (index : Nat) (cell : FbconPosition)
  | clear
deriving DecidableEq

section Console

variable (fb : FrameBuffer) (scaleFactor : BitVec 32)

/-- From the label `newline` on; the last component says that the byte is taken again. -/
def newline (events : List FbEvent) (y : Int) : List FbEvent × FbconPosition × Bool :=
  let y := y + scaleFactor.toNat
  if y ≥ fb.maxY - scaleFactor.toNat then (events ++ [.clear], ⟨0, 0⟩, true) else (events, ⟨0, y⟩, false)

def paint (c : BitVec 8) (type : FbConMsgType) (p : FbconPosition) : List FbEvent × FbconPosition × Bool :=
  if c.toNat > 127 then ([], p, false)
  else if c.toNat < 32 then
    if c = 10#8 then newline fb scaleFactor [] p.y
    else if c = 13#8 then ([], ⟨0, p.y⟩, false)
    else ([], p, false)
  else if p.x = 0 ∧ c = 32#8 ∧ type ≠ .subtitle ∧ type ≠ .title then ([], p, false)
  else if p.x + 1 ≥ fb.columns scaleFactor then newline fb scaleFactor [.glyph ((c.toNat - 32) * 2) p] p.y
  else ([.glyph ((c.toNat - 32) * 2) p], ⟨p.x + 1, p.y⟩, false)

/-- The call, as long as it takes no more than `rounds` rounds. -/
def fbConPutCharWithFactor (c : BitVec 8) (type : FbConMsgType) : Nat → FbconPosition → Option (List FbEvent × FbconPosition)
  | 0, _ => none
  | rounds + 1, p =>
    match paint fb scaleFactor c type p with
    | (events, p, false) => some (events, p)
    | (events, p, true) => (fbConPutCharWithFactor c type rounds p).map fun (rest, p) => (events ++ rest, p)

/-- One call after the other. -/
def putChars (rounds : Nat) : List (BitVec 8 × FbConMsgType) → FbconPosition → Option (List FbEvent × FbconPosition)
  | [], p => some ([], p)
  | (c, type) :: calls, p => do
    let (events, p) ← fbConPutCharWithFactor fb scaleFactor c type rounds p
    let (rest, p) ← putChars rounds calls p
    return (events ++ rest, p)

/-- Where a glyph is drawn. -/
def pixels (p : FbconPosition) : BitVec 64 :=
  fb.address + BitVec.ofInt 64 p.y * (fb.gBpp / 8#64 * 12#64 * fb.gWidth) +
    BitVec.ofInt 64 p.x * scaleFactor.setWidth 64 * (fb.gBpp / 8#64 * 6#64)

/-- The bytes that are written for an event. -/
def FbEvent.writes (mColor : FbconColor) : FbEvent → List (BitVec 64 × BitVec 8)
  | glyph index cell =>
    fbConDrawglyph mColor (pixels fb scaleFactor cell) (fb.gWidth.setWidth 32) ((fb.gBpp / 8#64).setWidth 32) index scaleFactor
  | clear => resetFb fb

end Console

/-! ## The size of the screen -/

/-- The screens the console is made for. -/
structure FrameBuffer.Fits (fb : FrameBuffer) (scaleFactor : BitVec 32) : Prop where
  scale : 1 ≤ scaleFactor.toNat
  columns : 1 ≤ fb.width.toNat / 6 / scaleFactor.toNat
  rows : 2 * scaleFactor.toNat < (fb.height.toNat - 1) / 12
  bytes : 1 ≤ fb.pixelBpp.toNat / 8
  size : 8 * fb.width.toNat * fb.height.toNat * (fb.pixelBpp.toNat / 8) < 2 ^ 32

/-- The positions on the screen. -/
structure FrameBuffer.Cell (fb : FrameBuffer) (scaleFactor : BitVec 32) (p : FbconPosition) : Prop where
  x_nonneg : 0 ≤ p.x
  x_lt : p.x < (fb.width.toNat / 6 / scaleFactor.toNat : Nat)
  y_nonneg : 0 ≤ p.y
  y_lt : p.y < ((fb.height.toNat - 1) / 12 : Nat) - (scaleFactor.toNat : Int)

variable {fb : FrameBuffer} {scaleFactor : BitVec 32} {p : FbconPosition} {c : BitVec 8} {type : FbConMsgType}
  {mColor : FbconColor}

theorem columns_eq : fb.columns scaleFactor = (fb.width.toNat / 6 / scaleFactor.toNat : Nat) := by
  have hlt := fb.width.isLt
  have hmax : fb.maxX = (fb.width.toNat / 6 : Nat) := by
    rw [FrameBuffer.maxX, FrameBuffer.gWidth, BitVec.toInt_eq_toNat_of_lt, BitVec.toNat_udiv,
      BitVec.toNat_setWidth_of_le (by decide)]
    · rfl
    · rw [BitVec.toNat_udiv, BitVec.toNat_setWidth_of_le (by decide)]
      change 2 * (fb.width.toNat / 6) < 2 ^ 64
      omega
  have hle : fb.width.toNat / 6 / scaleFactor.toNat ≤ fb.width.toNat / 6 := Nat.div_le_self _ _
  rw [FrameBuffer.columns, hmax, ← Int.ofNat_tdiv]
  generalize fb.width.toNat / 6 / scaleFactor.toNat = columns at hle ⊢
  exact Int.bmod_eq_of_le (by omega) (by omega)

theorem maxY_eq (h : 1 ≤ fb.height.toNat) : fb.maxY = ((fb.height.toNat - 1) / 12 : Nat) := by
  have hlt := fb.height.isLt
  have hsub : (fb.gHeight - 1#64).toNat = fb.height.toNat - 1 := by
    rw [FrameBuffer.gHeight, BitVec.toNat_sub, BitVec.toNat_setWidth_of_le (by decide)]
    change (2 ^ 64 - 1 + fb.height.toNat) % 2 ^ 64 = _
    omega
  rw [FrameBuffer.maxY, BitVec.toInt_eq_toNat_of_lt, BitVec.toNat_udiv, hsub]
  · rfl
  · rw [BitVec.toNat_udiv, hsub]
    change 2 * ((fb.height.toNat - 1) / 12) < 2 ^ 64
    omega

/-! ## Where the cursor is -/

/-- The events of a call: the glyphs are in the font and their cells on the screen. -/
def FbEvent.Ok (fb : FrameBuffer) (scaleFactor : BitVec 32) : FbEvent → Prop
  | glyph index cell => index + 1 < font5x12.length ∧ fb.Cell scaleFactor cell
  | clear => True

theorem newline_ok {events : List FbEvent} {y : Int} (h : ∀ e ∈ events, e.Ok fb scaleFactor) :
    ∀ e ∈ (newline fb scaleFactor events y).1, e.Ok fb scaleFactor := by
  unfold newline
  dsimp only
  split_ifs
  · intro e he
    rcases List.mem_append.1 he with he | he
    · exact h e he
    · rw [List.mem_singleton.1 he]
      exact True.intro
  · exact h

theorem paint_ok (c : BitVec 8) (type : FbConMsgType) (hp : fb.Cell scaleFactor p) :
    ∀ e ∈ (paint fb scaleFactor c type p).1, e.Ok fb scaleFactor := by
  have hglyph (h : ¬ c.toNat > 127) : ∀ e ∈ [FbEvent.glyph ((c.toNat - 32) * 2) p], e.Ok fb scaleFactor := by
    intro e he
    rw [List.mem_singleton.1 he]
    exact ⟨by change (c.toNat - 32) * 2 + 1 < 192; omega, hp⟩
  have hnone : ∀ e ∈ ([] : List FbEvent), e.Ok fb scaleFactor := fun e he => absurd he List.not_mem_nil
  unfold paint
  split_ifs with h127 h32 hlf hcr hspace hlast
  · exact hnone
  · exact newline_ok hnone
  · exact hnone
  · exact hnone
  · exact hnone
  · exact newline_ok (hglyph h127)
  · exact hglyph h127

theorem newline_again {events : List FbEvent} {y : Int} (h : (newline fb scaleFactor events y).2.2 = true) :
    (newline fb scaleFactor events y).2.1 = ⟨0, 0⟩ := by
  unfold newline at h ⊢
  dsimp only at h ⊢
  split_ifs with hfull
  · rfl
  · rw [if_neg hfull] at h
    contradiction

/-- A byte is taken again on the cleared screen. -/
theorem paint_again (h : (paint fb scaleFactor c type p).2.2 = true) : (paint fb scaleFactor c type p).2.1 = ⟨0, 0⟩ := by
  revert h
  unfold paint
  split_ifs
  all_goals first
    | exact newline_again
    | exact fun h => nomatch h

/-- The first new line of a screen is on it. -/
theorem newline_origin (hrows : 2 * scaleFactor.toNat < (fb.height.toNat - 1) / 12) (events : List FbEvent) :
    (newline fb scaleFactor events 0).2.2 = false := by
  unfold newline
  dsimp only
  rw [maxY_eq (by omega), if_neg (by omega)]

theorem paint_origin (hrows : 2 * scaleFactor.toNat < (fb.height.toNat - 1) / 12) :
    (paint fb scaleFactor c type ⟨0, 0⟩).2.2 = false := by
  unfold paint
  split_ifs
  all_goals first
    | exact newline_origin hrows _
    | rfl

/-- Two rounds are enough: the second starts on a cleared screen. -/
theorem fbConPutCharWithFactor_eq (hrows : 2 * scaleFactor.toNat < (fb.height.toNat - 1) / 12) (c : BitVec 8)
    (type : FbConMsgType) (p : FbconPosition) :
    fbConPutCharWithFactor fb scaleFactor c type 2 p =
      some (if (paint fb scaleFactor c type p).2.2 then
        ((paint fb scaleFactor c type p).1 ++ (paint fb scaleFactor c type ⟨0, 0⟩).1,
          (paint fb scaleFactor c type ⟨0, 0⟩).2.1)
        else ((paint fb scaleFactor c type p).1, (paint fb scaleFactor c type p).2.1)) := by
  have hagain := @paint_again fb scaleFactor p c type
  have horigin := @paint_origin fb scaleFactor c type hrows
  rw [fbConPutCharWithFactor]
  generalize paint fb scaleFactor c type p = round at hagain ⊢
  obtain ⟨events, p', again⟩ := round
  cases again with
  | false => rfl
  | true =>
    obtain rfl : p' = ⟨0, 0⟩ := hagain rfl
    dsimp only
    rw [fbConPutCharWithFactor]
    generalize paint fb scaleFactor c type ⟨0, 0⟩ = round at horigin ⊢
    obtain ⟨events', p'', again'⟩ := round
    obtain rfl : again' = false := horigin
    rfl

section Calls

variable (hfits : fb.Fits scaleFactor)

include hfits

theorem cell_origin : fb.Cell scaleFactor ⟨0, 0⟩ := by
  have hcolumns := hfits.columns
  have hrows := hfits.rows
  exact ⟨le_refl 0, by change (0 : Int) < _; omega, le_refl 0, by change (0 : Int) < _; omega⟩

/-- A new line begins in the first column, on a cleared screen if there is no room left. -/
theorem newline_cell {events : List FbEvent} (hp : fb.Cell scaleFactor p) :
    fb.Cell scaleFactor (newline fb scaleFactor events p.y).2.1 := by
  have horigin := cell_origin hfits
  have hrows := hfits.rows
  have hy := hp.y_nonneg
  unfold newline
  dsimp only
  split_ifs with hfull
  · exact horigin
  · rw [maxY_eq (by omega)] at hfull
    exact ⟨horigin.x_nonneg, horigin.x_lt, by change (0 : Int) ≤ p.y + _; omega, by change p.y + _ < _; omega⟩

theorem paint_cell (c : BitVec 8) (type : FbConMsgType) (hp : fb.Cell scaleFactor p) :
    fb.Cell scaleFactor (paint fb scaleFactor c type p).2.1 := by
  have hx := hp.x_nonneg
  unfold paint
  split_ifs with h127 h32 hlf hcr hspace hlast
  · exact hp
  · exact newline_cell hfits hp
  · exact ⟨le_refl 0, (cell_origin hfits).x_lt, hp.y_nonneg, hp.y_lt⟩
  · exact hp
  · exact hp
  · exact newline_cell hfits hp
  · rw [columns_eq] at hlast
    exact ⟨by change (0 : Int) ≤ p.x + 1; omega, by change p.x + 1 < _; omega, hp.y_nonneg, hp.y_lt⟩

theorem fbConPutCharWithFactor_ok (c : BitVec 8) (type : FbConMsgType) (hp : fb.Cell scaleFactor p) : ∃ events p',
    fbConPutCharWithFactor fb scaleFactor c type 2 p = some (events, p') ∧ fb.Cell scaleFactor p' ∧
      ∀ e ∈ events, e.Ok fb scaleFactor := by
  have horigin := cell_origin hfits
  rw [fbConPutCharWithFactor_eq hfits.rows]
  split_ifs
  · refine ⟨_, _, rfl, paint_cell hfits c type horigin, ?_⟩
    intro e he
    rcases List.mem_append.1 he with he | he
    · exact paint_ok c type hp e he
    · exact paint_ok c type horigin e he
  · exact ⟨_, _, rfl, paint_cell hfits c type hp, paint_ok c type hp⟩

theorem putChars_ok (calls : List (BitVec 8 × FbConMsgType)) (hp : fb.Cell scaleFactor p) : ∃ events p',
    putChars fb scaleFactor 2 calls p = some (events, p') ∧ fb.Cell scaleFactor p' ∧
      ∀ e ∈ events, e.Ok fb scaleFactor := by
  induction calls generalizing p with
  | nil => exact ⟨[], p, rfl, hp, fun e he => absurd he List.not_mem_nil⟩
  | cons call calls ih =>
    obtain ⟨c, type⟩ := call
    obtain ⟨events, p₁, hcall, hp₁, hevents⟩ := fbConPutCharWithFactor_ok hfits c type hp
    obtain ⟨rest, p', hcalls, hp', hrest⟩ := ih hp₁
    refine ⟨events ++ rest, p', ?_, hp', ?_⟩
    · rw [putChars, hcall, Option.bind_eq_bind, Option.bind_some]
      dsimp only
      rw [hcalls]
      rfl
    · intro e he
      rcases List.mem_append.1 he with he | he
      · exact hevents e he
      · exact hrest e he

end Calls

/-! ## What is drawn stays on the screen -/

theorem toNat_gBpp : (fb.gBpp / 8#64).toNat = fb.pixelBpp.toNat / 8 := by
  rw [BitVec.toNat_udiv, FrameBuffer.gBpp, BitVec.toNat_setWidth_of_le (by decide)]
  rfl

theorem resetFb_bounds {w : BitVec 64 × BitVec 8} (hw : w ∈ resetFb fb) :
    ∃ i < fb.width.toNat * fb.height.toNat * (fb.pixelBpp.toNat / 8), w.1 = fb.address + BitVec.ofNat 64 i := by
  have hwidth : fb.gWidth.toNat = fb.width.toNat := BitVec.toNat_setWidth_of_le (by decide)
  have hheight : fb.gHeight.toNat = fb.height.toNat := BitVec.toNat_setWidth_of_le (by decide)
  have hdraws := ((draws_putPixel (σ := Unit) (fb.gBpp / 8#64).toNat fbBgra8888Black).iterate_full
    fb.gHeight.toNat).iterate_full fb.gWidth.toNat
  obtain ⟨_, writes, hwrites, hspan⟩ := hdraws ⟨fb.address, [], ()⟩
  rw [List.nil_append] at hwrites
  obtain ⟨i, hi, haddr⟩ := hspan w (hwrites ▸ hw)
  rw [hwidth, hheight, toNat_gBpp, ← Nat.mul_assoc] at hi
  exact ⟨i, hi, haddr⟩

section Glyph

variable {bpp color temp : BitVec 32} {skip : BitVec 64} {point line : Nat} {f : Pen (BitVec 32) → Pen (BitVec 32)}

/-- `line` bytes to the next line, of which five points may be written. -/
theorem draws_line (hskip : skip = BitVec.ofNat 64 (line - 5 * point)) (hline : 5 * point ≤ line) (hf : Draws f point point) :
    Draws (move skip ∘ f^[fontWidth]) line (5 * point) := by
  have hdraws := (draws_move (line - 5 * point)).comp (hf.iterate_full fontWidth)
  rw [← hskip, show fontWidth * point + (line - 5 * point) = line from Nat.add_sub_cancel' hline] at hdraws
  exact hdraws.mono (Nat.max_le.2 ⟨Nat.le_refl _, Nat.le_refl _⟩)

theorem draws_half (hscale : 1 ≤ scaleFactor.toNat)
    (hf : Draws f (scaleFactor.toNat * line) ((scaleFactor.toNat - 1) * line + 5 * point)) :
    Draws f^[fontHeight / 2] (6 * (scaleFactor.toNat * line)) (6 * (scaleFactor.toNat * line) - line + 5 * point) := by
  refine (hf.iterate 6).mono ?_
  have hlines : (scaleFactor.toNat - 1) * line + line = scaleFactor.toNat * line := by
    rw [← Nat.succ_mul, Nat.succ_eq_add_one, Nat.sub_add_cancel hscale]
  omega

section Draws

variable (hskip : skip = BitVec.ofNat 64 (line - 5 * (scaleFactor.toNat * bpp.toNat)))
  (hline : 5 * (scaleFactor.toNat * bpp.toNat) ≤ line)

theorem draws_glyphPoint :
    Draws (glyphPoint bpp scaleFactor color) (scaleFactor.toNat * bpp.toNat) (scaleFactor.toNat * bpp.toNat) := by
  intro p
  unfold glyphPoint
  dsimp only
  split_ifs
  · exact (draws_putPixel bpp.toNat color).iterate_full scaleFactor.toNat p
  · have hmove := (draws_move (σ := BitVec 32) bpp.toNat).mono (Nat.zero_le bpp.toNat)
    rw [BitVec.ofNat_toNat] at hmove
    exact hmove.iterate_full scaleFactor.toNat p

include hskip hline

theorem draws_backgroundLine :
    Draws (backgroundLine bpp scaleFactor skip color) line (5 * (scaleFactor.toNat * bpp.toNat)) :=
  draws_line hskip hline ((draws_putPixel bpp.toNat color).iterate_full scaleFactor.toNat)

theorem draws_glyphLine :
    Draws (glyphLine bpp scaleFactor skip color temp) line (5 * (scaleFactor.toNat * bpp.toNat)) :=
  fun p => draws_line hskip hline draws_glyphPoint { p with data := temp }

variable (hscale : 1 ≤ scaleFactor.toNat)

include hscale

theorem draws_backgroundHalf (color : BitVec 32) : Draws (backgroundHalf bpp scaleFactor skip color)
    (6 * (scaleFactor.toNat * line))
    (6 * (scaleFactor.toNat * line) - line + 5 * (scaleFactor.toNat * bpp.toNat)) :=
  draws_half hscale ((draws_backgroundLine hskip hline).iterate scaleFactor.toNat)

theorem draws_glyphHalf (color data : BitVec 32) : Draws (glyphHalf bpp scaleFactor skip color data)
    (6 * (scaleFactor.toNat * line))
    (6 * (scaleFactor.toNat * line) - line + 5 * (scaleFactor.toNat * bpp.toNat)) := by
  have hlines : Draws (glyphLines bpp scaleFactor skip color) (scaleFactor.toNat * line)
      ((scaleFactor.toNat - 1) * line + 5 * (scaleFactor.toNat * bpp.toNat)) :=
    fun p => (draws_glyphLine hskip hline).iterate scaleFactor.toNat p
  exact fun p => draws_half hscale hlines { p with data := data }

end Draws

/-- Two halves, one below the other. -/
theorem draws_halves {g : Pen (BitVec 32) → Pen (BitVec 32)} (hf : Draws f (6 * (scaleFactor.toNat * line))
    (6 * (scaleFactor.toNat * line) - line + 5 * point)) (hg : Draws g (6 * (scaleFactor.toNat * line))
    (6 * (scaleFactor.toNat * line) - line + 5 * point)) (hscale : 1 ≤ scaleFactor.toNat) :
    Draws (g ∘ f) (12 * (scaleFactor.toNat * line)) (12 * (scaleFactor.toNat * line) - line + 5 * point) := by
  have hle : line ≤ scaleFactor.toNat * line := Nat.le_mul_of_pos_left _ hscale
  have hdraws := hg.comp hf
  rw [show 6 * (scaleFactor.toNat * line) + 6 * (scaleFactor.toNat * line) = 12 * (scaleFactor.toNat * line) by omega]
    at hdraws
  exact hdraws.mono (by omega)

theorem fbConDrawglyph_bounds {stride : BitVec 32} {glyph : Nat} {pixels : BitVec 64} {w : BitVec 64 × BitVec 8}
    (hscale : 1 ≤ scaleFactor.toNat) (hstride : 5 * scaleFactor.toNat ≤ stride.toNat)
    (hline : stride.toNat * bpp.toNat < 2 ^ 32) (hw : w ∈ fbConDrawglyph mColor pixels stride bpp glyph scaleFactor) :
    ∃ i < 12 * (scaleFactor.toNat * (stride.toNat * bpp.toNat)) - stride.toNat * bpp.toNat +
      5 * (scaleFactor.toNat * bpp.toNat), w.1 = pixels + BitVec.ofNat 64 i := by
  have hfull : 5 * (scaleFactor.toNat * bpp.toNat) ≤ stride.toNat * bpp.toNat := by
    rw [← Nat.mul_assoc]
    exact Nat.mul_le_mul_right _ hstride
  have hskip : ((stride - 5#32 * scaleFactor) * bpp).setWidth 64 =
      BitVec.ofNat 64 (stride.toNat * bpp.toNat - 5 * (scaleFactor.toNat * bpp.toNat)) := by
    have hsub : (stride - 5#32 * scaleFactor).toNat = stride.toNat - 5 * scaleFactor.toNat := by bv_omega
    apply BitVec.eq_of_toNat_eq
    rw [BitVec.toNat_setWidth, BitVec.toNat_mul, hsub, BitVec.toNat_ofNat, Nat.sub_mul, Nat.mul_assoc,
      Nat.mod_eq_of_lt (show _ < 2 ^ 32 by omega)]
  let bgColor := mColor.background.setWidth 32
  let fgColor := mColor.foreground.setWidth 32
  have hbackground := draws_halves (draws_backgroundHalf hskip hfull hscale bgColor)
    (draws_backgroundHalf hskip hfull hscale bgColor) hscale
  have hglyph := draws_halves (draws_glyphHalf hskip hfull hscale fgColor (font5x12.getD glyph 0))
    (draws_glyphHalf hskip hfull hscale fgColor (font5x12.getD (glyph + 1) 0)) hscale
  obtain ⟨-, bgWrites, hbgWrites, hbgSpan⟩ := hbackground ⟨pixels, [], 0⟩
  obtain ⟨-, fgWrites, hfgWrites, hfgSpan⟩ := hglyph ⟨pixels, bgWrites, 0⟩
  rw [List.nil_append] at hbgWrites
  rw [← hbgWrites] at hfgWrites
  have hmem : w ∈ bgWrites ++ fgWrites := by
    rw [← hbgWrites, ← hfgWrites]
    exact hw
  rcases List.mem_append.1 hmem with hbg | hfg
  · exact hbgSpan w hbg
  · exact hfgSpan w hfg

end Glyph

/-- The place of a cell. -/
theorem pixels_eq (hp : fb.Cell scaleFactor p) : pixels fb scaleFactor p = fb.address + BitVec.ofNat 64
    (p.y.toNat * (fb.pixelBpp.toNat / 8 * 12 * fb.width.toNat) + p.x.toNat * scaleFactor.toNat * (fb.pixelBpp.toNat / 8 * 6)) := by
  obtain ⟨x, hx⟩ := Int.eq_ofNat_of_zero_le hp.x_nonneg
  obtain ⟨y, hy⟩ := Int.eq_ofNat_of_zero_le hp.y_nonneg
  have hbpp : fb.gBpp / 8#64 = BitVec.ofNat 64 (fb.pixelBpp.toNat / 8) := by
    apply BitVec.eq_of_toNat_eq
    have hlt := fb.pixelBpp.isLt
    rw [toNat_gBpp, BitVec.toNat_ofNat, Nat.mod_eq_of_lt (by omega)]
  rw [pixels, hbpp, hx, hy, BitVec.ofInt_natCast, BitVec.ofInt_natCast, FrameBuffer.gWidth, ← BitVec.ofNat_toNat,
    ← BitVec.ofNat_toNat, BitVec.ofNat_add, BitVec.ofNat_mul, BitVec.ofNat_mul, BitVec.ofNat_mul, BitVec.ofNat_mul,
    BitVec.ofNat_mul, BitVec.ofNat_mul, BitVec.add_assoc]
  rfl

/-- The last byte of the glyph in a cell is on the screen. -/
theorem cell_bound (hfits : fb.Fits scaleFactor) (hp : fb.Cell scaleFactor p) :
    p.y.toNat * (fb.pixelBpp.toNat / 8 * 12 * fb.width.toNat) + p.x.toNat * scaleFactor.toNat * (fb.pixelBpp.toNat / 8 * 6) +
      (12 * (scaleFactor.toNat * (fb.width.toNat * (fb.pixelBpp.toNat / 8))) - fb.width.toNat * (fb.pixelBpp.toNat / 8) +
        5 * (scaleFactor.toNat * (fb.pixelBpp.toNat / 8))) ≤
    fb.width.toNat * fb.height.toNat * (fb.pixelBpp.toNat / 8) := by
  obtain ⟨x, hx⟩ := Int.eq_ofNat_of_zero_le hp.x_nonneg
  obtain ⟨y, hy⟩ := Int.eq_ofNat_of_zero_le hp.y_nonneg
  have hxlt := hp.x_lt
  have hylt := hp.y_lt
  have hscale := hfits.scale
  rw [hx] at hxlt
  rw [hy] at hylt
  rw [hx, hy, Int.toNat_natCast, Int.toNat_natCast]
  have hcolumn : 6 * ((x + 1) * scaleFactor.toNat) ≤ fb.width.toNat := by
    have hle := (Nat.le_div_iff_mul_le hscale).1 (show x + 1 ≤ fb.width.toNat / 6 / scaleFactor.toNat by omega)
    omega
  have hrow : 12 * (y + scaleFactor.toNat) ≤ fb.height.toNat := by omega
  generalize fb.pixelBpp.toNat / 8 = bytes
  have hright := Nat.mul_le_mul_right bytes hcolumn
  have hbelow := Nat.mul_le_mul_right (fb.width.toNat * bytes) hrow
  have hline : fb.width.toNat * bytes ≤ scaleFactor.toNat * (fb.width.toNat * bytes) := Nat.le_mul_of_pos_left _ hscale
  have hy' : y * (bytes * 12 * fb.width.toNat) = 12 * (y * (fb.width.toNat * bytes)) := by ring
  have hx' : x * scaleFactor.toNat * (bytes * 6) + 6 * (scaleFactor.toNat * bytes) =
      6 * ((x + 1) * scaleFactor.toNat) * bytes := by ring
  have hsum : 12 * (y + scaleFactor.toNat) * (fb.width.toNat * bytes) =
      12 * (y * (fb.width.toNat * bytes)) + 12 * (scaleFactor.toNat * (fb.width.toNat * bytes)) := by ring
  have hsize : fb.width.toNat * fb.height.toNat * bytes = fb.height.toNat * (fb.width.toNat * bytes) := by ring
  omega

theorem FrameBuffer.Fits.screen_lt (hfits : fb.Fits scaleFactor) :
    fb.width.toNat * fb.height.toNat * (fb.pixelBpp.toNat / 8) < 2 ^ 29 := by
  have hsize := hfits.size
  rw [Nat.mul_assoc 8, Nat.mul_assoc 8] at hsize
  omega

theorem FbEvent.Ok.bounds (hfits : fb.Fits scaleFactor) {e : FbEvent} (he : e.Ok fb scaleFactor) {w : BitVec 64 × BitVec 8}
    (hw : w ∈ e.writes fb scaleFactor mColor) :
    ∃ i < fb.width.toNat * fb.height.toNat * (fb.pixelBpp.toNat / 8), w.1 = fb.address + BitVec.ofNat 64 i := by
  cases e with
  | clear => exact resetFb_bounds hw
  | glyph index cell =>
    have hbound := cell_bound hfits he.2
    have hstride : (fb.gWidth.setWidth 32).toNat = fb.width.toNat := by
      rw [FrameBuffer.gWidth, BitVec.setWidth_setWidth_of_le _ (by decide), BitVec.setWidth_eq]
    have hbpp : ((fb.gBpp / 8#64).setWidth 32).toNat = fb.pixelBpp.toNat / 8 := by
      have hlt := fb.pixelBpp.isLt
      rw [BitVec.toNat_setWidth, toNat_gBpp, Nat.mod_eq_of_lt (by omega)]
    have hwide : 5 * scaleFactor.toNat ≤ fb.width.toNat := by
      have hle := (Nat.le_div_iff_mul_le hfits.scale).1 hfits.columns
      omega
    have hline : fb.width.toNat * (fb.pixelBpp.toNat / 8) < 2 ^ 32 := by
      have hrows := hfits.rows
      have hle : fb.width.toNat * (fb.pixelBpp.toNat / 8) ≤
          fb.height.toNat * (fb.width.toNat * (fb.pixelBpp.toNat / 8)) := Nat.le_mul_of_pos_left _ (by omega)
      have hscreen := hfits.screen_lt
      rw [Nat.mul_comm fb.width.toNat, Nat.mul_assoc] at hscreen
      omega
    obtain ⟨i, hi, hwi⟩ := fbConDrawglyph_bounds hfits.scale (hstride.symm ▸ hwide) (by rwa [hstride, hbpp]) hw
    rw [hstride, hbpp] at hi
    refine ⟨_, Nat.lt_of_lt_of_le (Nat.add_lt_add_left hi _) hbound, ?_⟩
    rw [hwi, pixels_eq he.2, BitVec.add_assoc, ← BitVec.ofNat_add]

/-- The position is kept right behind the pixels. -/
theorem position_eq (hfits : fb.Fits scaleFactor) (hbits : 8 ∣ fb.pixelBpp.toNat) : fb.position =
    fb.address + BitVec.ofNat 64 (fb.width.toNat * fb.height.toNat * (fb.pixelBpp.toNat / 8)) := by
  have hscreen := hfits.screen_lt
  have hbytes := hfits.bytes
  obtain ⟨bytes, hbytes8⟩ := hbits
  rw [hbytes8, Nat.mul_div_cancel_left bytes (by decide)] at hscreen hbytes ⊢
  have hle : fb.width.toNat * fb.height.toNat ≤ fb.width.toNat * fb.height.toNat * bytes :=
    Nat.le_mul_of_pos_right _ hbytes
  have hcancel : fb.width.toNat * fb.height.toNat * (8 * bytes) = 8 * (fb.width.toNat * fb.height.toNat * bytes) := by ring
  rw [FrameBuffer.position]
  congr 1
  apply BitVec.eq_of_toNat_eq
  rw [BitVec.toNat_setWidth_of_le (by decide), BitVec.toNat_udiv, BitVec.toNat_mul, BitVec.toNat_mul, hbytes8,
    Nat.mod_eq_of_lt (show fb.width.toNat * fb.height.toNat < 2 ^ 32 by omega),
    Nat.mod_eq_of_lt (show _ < 2 ^ 32 by omega), hcancel, BitVec.toNat_ofNat,
    BitVec.toNat_ofNat, Nat.mod_eq_of_lt (show _ < 2 ^ 64 by omega)]
  exact Nat.mul_div_cancel_left _ (by decide)

/-- **The console returns from every call**, with the cursor on the screen, and draws nothing outside of the screen. -/
theorem putChars_safe (hfits : fb.Fits scaleFactor) (mColor : FbconColor) (calls : List (BitVec 8 × FbConMsgType)) :
    ∃ events p, putChars fb scaleFactor 2 calls ⟨0, 0⟩ = some (events, p) ∧ fb.Cell scaleFactor p ∧
      (∀ e ∈ events, ∀ w ∈ e.writes fb scaleFactor mColor,
        (∃ i < fb.width.toNat * fb.height.toNat * (fb.pixelBpp.toNat / 8), w.1 = fb.address + BitVec.ofNat 64 i) ∧
        (8 ∣ fb.pixelBpp.toNat → ∀ k < 16, w.1 ≠ fb.position + BitVec.ofNat 64 k)) ∧
      ∀ index cell, FbEvent.glyph index cell ∈ events → index + 1 < font5x12.length := by
  obtain ⟨events, p, hcalls, hp, hok⟩ := putChars_ok hfits calls (cell_origin hfits)
  refine ⟨events, p, hcalls, hp, ?_, fun index cell he => (hok _ he).1⟩
  intro e he w hw
  obtain ⟨i, hi, hwi⟩ := (hok e he).bounds hfits hw
  refine ⟨⟨i, hi, hwi⟩, ?_⟩
  intro hbits k hk heq
  have hscreen := hfits.screen_lt
  rw [hwi, position_eq hfits hbits, BitVec.add_assoc, ← BitVec.ofNat_add] at heq
  have hoffset := congrArg BitVec.toNat ((BitVec.add_right_inj fb.address).1 heq)
  rw [BitVec.toNat_ofNat, BitVec.toNat_ofNat, Nat.mod_eq_of_lt (by omega), Nat.mod_eq_of_lt (by omega)] at hoffset
  omega

/-- The screen of the Surface Duo 2. -/
def surfaceDuo2FrameBuffer : FrameBuffer := ⟨0xE1000000#64, 1344#32, 1892#32, 32#32⟩

theorem fits_surfaceDuo2 : surfaceDuo2FrameBuffer.Fits 1#32 :=
  ⟨by decide, by decide, by decide, by decide, by decide⟩

theorem putChars_safe_surfaceDuo2 : ∃ events p,
    putChars surfaceDuo2FrameBuffer 1#32 2 [(65#8, .common), (10#8, .common)] ⟨0, 0⟩ = some (events, p) ∧
      surfaceDuo2FrameBuffer.Cell 1#32 p ∧
      (∀ e ∈ events, ∀ w ∈ e.writes surfaceDuo2FrameBuffer 1#32 ⟨0xffffffff, 0xff000000⟩,
        (∃ i < 1344 * 1892 * 4, w.1 = surfaceDuo2FrameBuffer.address + BitVec.ofNat 64 i) ∧
        (8 ∣ 32 → ∀ k < 16, w.1 ≠ surfaceDuo2FrameBuffer.position + BitVec.ofNat 64 k)) ∧
      ∀ index cell, FbEvent.glyph index cell ∈ events → index + 1 < font5x12.length :=
  putChars_safe fits_surfaceDuo2 ⟨0xffffffff, 0xff000000⟩ [(65#8, .common), (10#8, .common)]

end Andromeda
