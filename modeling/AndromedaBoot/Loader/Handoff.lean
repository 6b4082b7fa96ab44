import AndromedaBoot.BootConfig.Hob
import AndromedaBoot.Loader.BootShim
import AndromedaBoot.Loader.Payload

/-!
# From the payload to the boot configuration

The configuration the packager was given is the one the firmware reads: the direct loader copies the payload,
the shim in it passes the place and the size on in two registers, the module entry point keeps them in globals
while it fills the vectors and the stack, the platform is set up, and `PrePiMain` hands them to the reader and to the HOB.

| here | there |
| --- | --- |
| `armPlatformPeiBootAction` | ArmPlatformHelper.S:11-19 |
| `armPlatformGetBootConfig` | ArmPlatformLib.c:18-32 |
| `PrePiPcds.fillVectors`, `PrePiPcds.clearStack` | ModuleEntryPoint.S:44-55, :64-82 |
| `EarlyPlatform.initializeSharedUartBuffers` | InitializationUtils.c:18-43 |
| `EarlyPlatform.cEntryPoint` | PrePi.c:244-296, with InitializationUtils.c:45-62 |
| `prePiMainBootConfig` | PrePi.c:91-110, :163-178 |

What the serial port, the platform and the HOB list write is not looked at: it is a parameter of what follows.
-/

namespace Andromeda

open Arm64 ByteMemory

/-! ## Memory as bytes of the firmware -/

/-- What a pointer with a size denotes. -/
def readBytes (m : ByteMemory) (a : BitVec 64) (n : Nat) : Bytes :=
  (List.range n).map fun i => UInt8.ofBitVec (m (a + BitVec.ofNat 64 i))

def HoldsBytes (m : ByteMemory) (a : BitVec 64) (data : Bytes) : Prop := Holds m a (data.map UInt8.toBitVec)

variable {m m' : ByteMemory} {a : BitVec 64} {data data' : Bytes}

theorem HoldsBytes.read (h : HoldsBytes m a data) : readBytes m a data.length = data := by
  refine List.ext_getElem (by simp [readBytes]) ?_
  intro i hi hi'
  have hbyte := h i (by simpa using hi')
  simp [readBytes, hbyte]

theorem HoldsBytes.append (h : HoldsBytes m a (data ++ data')) :
    HoldsBytes m a data ∧ HoldsBytes m (a + BitVec.ofNat 64 data.length) data' := by
  rw [HoldsBytes, List.map_append] at h
  have hparts := Holds.append h
  rwa [List.length_map] at hparts

theorem HoldsBytes.congr (h : HoldsBytes m a data)
    (hm : ∀ i < data.length, m' (a + BitVec.ofNat 64 i) = m (a + BitVec.ofNat 64 i)) : HoldsBytes m' a data :=
  Holds.congr h fun i hi => hm i (by simpa using hi)

/-- Moved as a whole. -/
theorem HoldsBytes.moved {b : BitVec 64} (h : HoldsBytes m a data)
    (hm : ∀ i < data.length, m' (b + BitVec.ofNat 64 i) = m (a + BitVec.ofNat 64 i)) : HoldsBytes m' b data := by
  intro i hi
  rw [hm i (by simpa using hi), h i hi]

/-! ## The module entry point -/

/-- `gAndromedaBootConfigBuffer` and `gAndromedaBootConfigBufferSize`. -/
structure BootConfigGlobals where
  buffer : BitVec 64
  size : BitVec 64

/-- The registers the firmware is entered with are published (ArmPlatformHelper.S:11-19). -/
def armPlatformPeiBootAction (x0 x1 : BitVec 64) : BootConfigGlobals := ⟨x0, x1⟩

/-- `n` times the same bytes, one behind the other. -/
def fillBytes (unit : List (BitVec 8)) (m : ByteMemory) (a : BitVec 64) : Nat → ByteMemory
  | 0 => m
  | n + 1 => fillBytes unit (m.writeBytes a unit) (a + BitVec.ofNat 64 unit.length) n

theorem fillBytes_of_le {unit : List (BitVec 8)} {x : BitVec 64} {n : Nat} (h : n * unit.length ≤ (x - a).toNat) :
    fillBytes unit m a n x = m x := by
  induction n generalizing m a with
  | zero => rfl
  | succ n ih =>
    rw [Nat.succ_mul] at h
    rw [fillBytes, ih (by bv_omega), writeBytes_of_le (by omega)]

/-- The addresses and the size the module entry point is built with. -/
structure PrePiPcds where
  /-- `PcdCpuVectorBaseAddress`. -/
  cpuVectorBaseAddress : BitVec 64
  /-- `PcdPrePiStackBase`. -/
  stackBase : BitVec 32
  /-- `PcdPrePiStackSize`. -/
  stackSize : BitVec 32
  /-- `_NeverReturn`. -/
  neverReturn : BitVec 64
  /-- The end of the vectors is positive: `b.lt` compares signed numbers. -/
  vectors_lt : cpuVectorBaseAddress.toNat + 0x800 < 2 ^ 63

namespace PrePiPcds

variable (p : PrePiPcds)

/-- `_FillVectors`: a pair of double words at a time, 0x800 bytes. -/
def fillVectors (m : ByteMemory) : ByteMemory :=
  let x1 := (List.range 8).map fun i => m (p.neverReturn + BitVec.ofNat 64 i)
  fillBytes (x1 ++ x1) m p.cpuVectorBaseAddress (0x800 / 16)

/-- How often `_ClearStack` stores: once before it compares, and then up to the first address not below the end. -/
def stackStores : Nat := max 1 ((p.stackSize.toNat + 63) / 64)

/-- `_ClearStack`: 64 bytes at a time. -/
def clearStack (m : ByteMemory) : ByteMemory := fillBytes (List.replicate 64 0) m (p.stackBase.setWidth 64) p.stackStores

/-- What the module entry point leaves in memory. -/
def moduleEntryPoint (m : ByteMemory) : ByteMemory := p.clearStack (p.fillVectors m)

/-- `n` bytes from `a` on are none of the vectors and none of the stack. -/
structure Spares (a : BitVec 64) (n : Nat) : Prop where
  vectors : Apart a n p.cpuVectorBaseAddress 0x800
  stack : Apart a n (p.stackBase.setWidth 64) (64 * p.stackStores)

theorem moduleEntryPoint_of_spares {n i : Nat} (h : p.Spares a n) (hi : i < n) :
    p.moduleEntryPoint m (a + BitVec.ofNat 64 i) = m (a + BitVec.ofNat 64 i) := by
  have hstack : p.stackStores * (List.replicate 64 (0 : BitVec 8)).length ≤
      (a + BitVec.ofNat 64 i - p.stackBase.setWidth 64).toNat := by
    rw [List.length_replicate, Nat.mul_comm]
    exact h.stack.le_sub hi
  rw [moduleEntryPoint, clearStack, fillBytes_of_le hstack, fillVectors]
  exact fillBytes_of_le (h.vectors.le_sub hi)

variable {p} in
theorem Spares.sub {n k : Nat} (h : p.Spares a n) (o : Nat) (hfits : o + k ≤ n) : p.Spares (a + BitVec.ofNat 64 o) k :=
  ⟨h.vectors.sub o hfits, h.stack.sub o hfits⟩

end PrePiPcds

/-! ## Up to `PrePiMain` -/

/-- A step of the firmware, for what it does to memory, that leaves `n` bytes from `a` on as they are. -/
def Keeps (step : ByteMemory → ByteMemory) (a : BitVec 64) (n : Nat) : Prop :=
  ∀ m, ∀ i < n, step m (a + BitVec.ofNat 64 i) = m (a + BitVec.ofNat 64 i)

/-- What the platform does to memory from the module entry point to the HOB. -/
structure EarlyPlatform where
  /-- The place behind the frame buffer, in a build with `USE_SCREEN_FOR_SERIAL_OUTPUT`. -/
  pFbConPosition : Option (BitVec 64)
  /-- What `GetPlatformPStore` gives, in a build with `USE_MEMORY_FOR_SERIAL_OUTPUT`. -/
  pStoreMemoryRegion : Option (BitVec 64 × BitVec 64)
  serialPortInitialize : ByteMemory → ByteMemory
  /-- The messages of `UartInit`, then `PlatformInitialize` and what is left of `CEntryPoint`. -/
  platformInitialize : ByteMemory → ByteMemory
  /-- `PrePiMain` between `SetAndromedaBootConfigBuffer` and `BuildGuidDataHob`. -/
  hobConstructor : ByteMemory → ByteMemory

namespace EarlyPlatform

variable (platform : EarlyPlatform)

/-- `InitializeSharedUartBuffers`. -/
def initializeSharedUartBuffers (m : ByteMemory) : ByteMemory :=
  let m := match platform.pFbConPosition with
    | some position => (m.write64 position 0).write64 (position + 8) 0
    | none => m
  match platform.pStoreMemoryRegion with
  | some (address, length) => fillBytes [0] m address length.toNat
  | none => m

/-- `CEntryPoint`, whose `ArmPlatformInitialize` is `EarlyInitialization`, until it calls `PrePiMain`. -/
def cEntryPoint (m : ByteMemory) : ByteMemory :=
  platform.platformInitialize (platform.initializeSharedUartBuffers (platform.serialPortInitialize m))

/-- None of that touches `n` bytes from `a` on. -/
structure Spares (a : BitVec 64) (n : Nat) : Prop where
  pFbConPosition : ∀ position, platform.pFbConPosition = some position → Apart a n position 16
  pStoreMemoryRegion : ∀ address length, platform.pStoreMemoryRegion = some (address, length) →
    Apart a n address length.toNat
  serialPortInitialize : Keeps platform.serialPortInitialize a n
  platformInitialize : Keeps platform.platformInitialize a n
  hobConstructor : Keeps platform.hobConstructor a n

variable {platform} {n : Nat}

theorem Spares.initializeSharedUartBuffers (h : platform.Spares a n) :
    Keeps platform.initializeSharedUartBuffers a n := by
  intro m i hi
  have hcounters : (match platform.pFbConPosition with
      | some position => (m.write64 position 0).write64 (position + 8) 0
      | none => m) (a + BitVec.ofNat 64 i) = m (a + BitVec.ofNat 64 i) := by
    cases hposition : platform.pFbConPosition with
    | none => rfl
    | some position =>
      have hoff := (h.pFbConPosition position hposition).le_sub hi
      simp only [write64]
      rw [if_neg (by bv_omega), if_neg (by bv_omega)]
  rw [EarlyPlatform.initializeSharedUartBuffers]
  cases hregion : platform.pStoreMemoryRegion with
  | none => exact hcounters
  | some region =>
    obtain ⟨address, length⟩ := region
    refine (fillBytes_of_le ?_).trans hcounters
    rw [List.length_singleton, Nat.mul_one]
    exact (h.pStoreMemoryRegion address length hregion).le_sub hi

theorem Spares.cEntryPoint (h : platform.Spares a n) : Keeps platform.cEntryPoint a n := by
  intro m i hi
  rw [EarlyPlatform.cEntryPoint, h.platformInitialize _ i hi, h.initializeSharedUartBuffers _ i hi,
    h.serialPortInitialize _ i hi]

end EarlyPlatform

/-! ## `PrePiMain` -/

/-- `ArmPlatformGetBootConfig` with both of its pointers given. -/
def armPlatformGetBootConfig (g : BootConfigGlobals) : EfiStatus × BitVec 64 × BitVec 64 := (.success, g.buffer, g.size)

/-- What `PrePiMain` makes of the globals: the reader of SEC, and the HOB for the later phases. -/
def prePiMainBootConfig (platform : EarlyPlatform) (buildGuidDataHob : Bytes → GuidHob) (m : ByteMemory)
    (g : BootConfigGlobals) : BootConfig :=
  let (_, bootConfig, bootConfigSize) := armPlatformGetBootConfig g
  let config m := if bootConfig = 0 then none else some (readBytes m bootConfig bootConfigSize.toNat)
  let (_, st) := setAndromedaBootConfigBuffer ⟨none, none⟩ (config m)
  { st with hob := prePiMainHob buildGuidDataHob (config (platform.hobConstructor m)) }

theorem prePiMainBootConfig_of_holds {platform : EarlyPlatform} (buildGuidDataHob : Bytes → GuidHob) {g : BootConfigGlobals}
    {config : Bytes} (h : HoldsBytes m g.buffer config) (hhob : HoldsBytes (platform.hobConstructor m) g.buffer config)
    (hsize : g.size = BitVec.ofNat 64 config.length) (hbuffer : g.buffer ≠ 0)
    (hmax : config.length ≤ bootConfigMaxSize) (hnul : (0 : UInt8) ∉ config) :
    prePiMainBootConfig platform buildGuidDataHob m g =
      if config = [] then ⟨none, none⟩ else ⟨some config, some (buildGuidDataHob config)⟩ := by
  have hlen : g.size.toNat = config.length := by
    rw [hsize, BitVec.toNat_ofNat, Nat.mod_eq_of_lt (hmax.trans_lt (by decide))]
  simp only [prePiMainBootConfig, armPlatformGetBootConfig, if_neg hbuffer, hlen, h.read, hhob.read]
  by_cases hempty : config = []
  · rw [if_pos hempty, hempty]
    rfl
  · have hset : setAndromedaBootConfigBuffer ⟨none, none⟩ (some config) = (.success, ⟨some config, none⟩) :=
      setAndromedaBootConfigBuffer_success_iff.2 ⟨⟨config, hempty, hmax, hnul⟩, rfl, rfl⟩
    have hpos : config.length > 0 ∧ config.length ≤ bootConfigMaxSize := ⟨List.length_pos_iff.2 hempty, hmax⟩
    rw [hset, if_neg hempty, prePiMainHob, if_pos hpos]

/-! ## The boot -/

/-- The direct loader jumps to `UEFI_BASE`, where the payload stands. -/
theorem BootShim.jump_run {b : BootShim} {s : Cpu} (hload : b.LoadedIn s.mem) (hpc : s.pc = b.head)
    (hfits : b.Fits b.payload) (hintact : b.CopiesIntact s.mem b.payload) (hkeeps : b.KeepsStackBase s.mem b.payload) :
    Reaches (fun t => t.pc = b.uefiBase ∧
      ∀ j < b.uefiSize.toNat, t.mem (b.uefiBase + BitVec.ofNat 64 j) = s.mem (b.payload + BitVec.ofNat 64 j)) s := by
  refine (b.head_run hload hpc).trans ?_
  rintro t ⟨htpc, hx1, hmem⟩
  rw [← hmem] at hload hintact hkeeps ⊢
  rw [← hx1] at hfits hintact hkeeps ⊢
  obtain ⟨u, hwalk, hupc, hentry⟩ := start_run hload hfits htpc
  obtain ⟨hx5, hcopied⟩ := (hentry.relocated_iff hload hfits).2 ⟨hintact, hkeeps⟩
  have hloaded : Loaded u.mem b.start 0 startCode := by
    rw [hentry.mem]
    split_ifs
    · exact hload.startCode
    · exact copyLoop_loaded hfits.apart (Nat.mul_div_le _ _) hload.startCode
  refine hwalk.reaches (.block 10 [.br .x5] hloaded (by decide) hupc rfl rfl (.here ⟨?_, ?_⟩))
  · simp [hx5]
  · simpa using hcopied

namespace LoaderTarget

variable (target : LoaderTarget)

/-- The direct loader of the device, loaded at `head`. -/
def bootShim (head : BitVec 64) : BootShim := ⟨head, BitVec.ofNat 64 target.uefiBase, BitVec.ofNat 64 target.uefiSize⟩

/-- Where the shim says the configuration is. -/
def configBase : BitVec 64 := BitVec.ofNat 64 (target.uefiFdBase + target.uefiFdSize)

theorem Consistent.toNat_uefiBase {target : LoaderTarget} (h : target.Consistent) {head : BitVec 64} :
    (target.bootShim head).uefiBase.toNat = target.uefiBase := by
  have := h.inFourGiB
  simp only [bootShim, BitVec.toNat_ofNat]
  omega

theorem Consistent.toNat_uefiSize {target : LoaderTarget} (h : target.Consistent) {head : BitVec 64} :
    (target.bootShim head).uefiSize.toNat = target.uefiSize := by
  have := h.inFourGiB
  simp only [bootShim, BitVec.toNat_ofNat]
  omega

/-- What stands where in a payload. -/
structure Delivers (firmware config : Bytes) (base : BitVec 64) (m : ByteMemory) : Prop where
  shim : Loaded m base 0 (target.configShim config).code
  firmware : HoldsBytes m (base + 0x1000#64) firmware
  config : HoldsBytes m (base + BitVec.ofNat 64 (0x1000 + target.uefiFdSize)) config

variable {target} {iconv : Bytes → Bool} {firmware config payload : Bytes} {s : Cpu}

theorem delivers_of_packed {base : BitVec 64}
    (hpacked : Packed iconv firmware (target.configShim config).binary config target.uefiFdSize target.payloadSize payload)
    (h : HoldsBytes m base payload) : target.Delivers firmware config base m := by
  have hlayout := hpacked.layout
  rw [List.append_assoc, List.append_assoc] at hlayout
  obtain ⟨hshim, hrest⟩ := (hlayout ▸ h).append
  obtain ⟨hfirmware, hrest⟩ := hrest.append
  obtain ⟨hconfig, -⟩ := hrest.append
  rw [hpacked.shim_size] at hfirmware hconfig
  rw [hpacked.firmware_size, BitVec.add_assoc, ← BitVec.ofNat_add] at hconfig
  refine ⟨?_, hfirmware, hconfig⟩
  rw [HoldsBytes, ConfigShim.binary, List.map_append, List.map_map] at hshim
  have hid : (UInt8.toBitVec ∘ UInt8.ofBitVec) = id := rfl
  rw [hid, List.map_id] at hshim
  exact .of_assemble hshim (ConfigShim.decode_words _)

/-- **The firmware of a packed payload is entered with its configuration**, and reads just that, on every platform that
spares it until then. -/
theorem direct_boot_delivers_config (p : PrePiPcds) (platform : EarlyPlatform) (buildGuidDataHob : Bytes → GuidHob)
    (head : BitVec 64)
    (hconsistent : target.Consistent) (hbuild : target.payload iconv firmware config = .ok payload)
    (hload : (target.bootShim head).LoadedIn s.mem) (hpc : s.pc = head)
    (hpayload : HoldsBytes s.mem (target.bootShim head).payload payload)
    (hfits : (target.bootShim head).Fits (target.bootShim head).payload)
    (hintact : (target.bootShim head).CopiesIntact s.mem (target.bootShim head).payload)
    (hkeeps : (target.bootShim head).KeepsStackBase s.mem (target.bootShim head).payload)
    (hspares : p.Spares (BitVec.ofNat 64 target.uefiBase) target.uefiSize)
    (hplatform : platform.Spares target.configBase config.length) :
    Reaches (fun t => t.pc = BitVec.ofNat 64 target.uefiFdBase ∧ HoldsBytes t.mem t.pc firmware ∧
      prePiMainBootConfig platform buildGuidDataHob (platform.cEntryPoint (p.moduleEntryPoint t.mem))
        (armPlatformPeiBootAction (t.x .x0) (t.x .x1)) =
        if config = [] then ⟨none, none⟩ else ⟨some config, some (buildGuidDataHob config)⟩) s := by
  have hpacked := buildAppendablePayload_eq_ok.1 hbuild
  have hlength : payload.length = target.uefiSize := by
    rw [hpacked.layout]
    simp only [List.length_append, List.length_replicate, hpacked.shim_size, hpacked.firmware_size]
    have := hpacked.content
    have := hconsistent.size
    omega
  refine (BootShim.jump_run hload hpc hfits hintact hkeeps).trans ?_
  rintro t ⟨htpc, hcopied⟩
  have hmoved : HoldsBytes t.mem t.pc payload := by
    rw [htpc]
    refine hpayload.moved fun i hi => hcopied i ?_
    rwa [hconsistent.toNat_uefiSize, ← hlength]
  have hdelivers := delivers_of_packed hpacked hmoved
  have hcontent := hpacked.content
  have hmax := hpacked.config_size
  have hroom := hconsistent.size
  have hfour := hconsistent.inFourGiB
  have hbase := hconsistent.fdBase
  have hlow : target.uefiFdBase + target.uefiFdSize < 2 ^ 32 := by omega
  refine (ConfigShim.run hdelivers.shim hlow (by simpa [configShim] using hmax.trans_lt (by decide))).mono ?_
  rintro u ⟨hupc, hmem, hx0, hx1⟩
  have hfd : u.pc = t.pc + 0x1000#64 := by
    rw [hupc, htpc, configShim, hbase, BitVec.ofNat_add]
    rfl
  have hplace : target.configBase = BitVec.ofNat 64 target.uefiBase + BitVec.ofNat 64 (0x1000 + target.uefiFdSize) := by
    rw [configBase, hbase, Nat.add_assoc, BitVec.ofNat_add]
  have hconfig : HoldsBytes u.mem target.configBase config := by
    have hdelivered := hdelivers.config
    rw [htpc] at hdelivered
    rw [hmem, hplace]
    exact hdelivered
  have hfilled : p.Spares target.configBase config.length := by
    rw [hplace]
    exact hspares.sub _ (by omega)
  have hentered : HoldsBytes (platform.cEntryPoint (p.moduleEntryPoint u.mem)) target.configBase config := by
    refine hconfig.congr fun i hi => ?_
    rw [hplatform.cEntryPoint _ i hi, p.moduleEntryPoint_of_spares hfilled hi]
  refine ⟨hupc, ?_, ?_⟩
  · rw [hmem, hfd]
    exact hdelivers.firmware
  · rw [hx0, hx1]
    refine prePiMainBootConfig_of_holds buildGuidDataHob hentered ?_ rfl ?_ hmax hpacked.noNul
    · exact hentered.congr fun i hi => hplatform.hobConstructor _ i hi
    · simp only [armPlatformPeiBootAction, configShim]
      bv_omega

/-! ### The shipped values -/

theorem epsilonPcds_vectors_lt : (0x9FF8C000#64).toNat + 0x800 < 2 ^ 63 := by decide

/-- `QcomPkg.dsc.inc` of the Sm8150. -/
def epsilonPcds (neverReturn : BitVec 64) : PrePiPcds :=
  ⟨0x9FF8C000#64, 0x9FFB0000#32, 0x20000#32, neverReturn, epsilonPcds_vectors_lt⟩

theorem epsilonPcds_spares (neverReturn : BitVec 64) :
    (epsilonPcds neverReturn).Spares (BitVec.ofNat 64 epsilon.uefiBase) epsilon.uefiSize where
  vectors := (apart_of_le (by simp [epsilonPcds, epsilon]) (by simp [epsilonPcds])).symm
  stack := by
    refine (apart_of_le ?_ ?_).symm
    · simp [epsilonPcds, epsilon]
    · simp [epsilonPcds, PrePiPcds.stackStores]

/-- The loader with its payload ends below `UEFI_BASE`. -/
structure LoadedBelow (target : LoaderTarget) (head : BitVec 64) : Prop where
  below : head.toNat + 112 + target.uefiSize ≤ target.uefiBase
  pos : 0 < target.uefiSize
  pairs : 16 ∣ target.uefiSize

namespace LoadedBelow

variable {head : BitVec 64}

section

variable (h : target.LoadedBelow head) (hconsistent : target.Consistent)

include h hconsistent

theorem toNat_payload : (target.bootShim head).payload.toNat = head.toNat + 112 := by
  have := h.below
  have := hconsistent.inFourGiB
  simp only [BootShim.payload, bootShim]
  bv_omega

theorem fits : (target.bootShim head).Fits (target.bootShim head).payload := by
  have hbelow := h.below
  have hfour := hconsistent.inFourGiB
  have hstart : (target.bootShim head).start.toNat = head.toNat + 64 := by
    simp only [BootShim.start, bootShim]
    bv_omega
  have hlen : 4 * startCode.length = 48 := rfl
  refine ⟨?_, ?_, ?_, ?_, apart_of_le ?_ ?_⟩
  · rw [hconsistent.toNat_uefiSize]
    exact h.pos
  · rw [hconsistent.toNat_uefiSize]
    exact h.pairs
  · rw [h.toNat_payload hconsistent, hconsistent.toNat_uefiSize]
    omega
  · rw [hconsistent.toNat_uefiBase, hconsistent.toNat_uefiSize]
    omega
  · rw [hstart, hlen, hconsistent.toNat_uefiBase]
    omega
  · rw [hconsistent.toNat_uefiBase, hconsistent.toNat_uefiSize]
    omega

theorem copiesIntact (m : ByteMemory) : (target.bootShim head).CopiesIntact m (target.bootShim head).payload := by
  refine .inr (.inl ?_)
  rw [h.toNat_payload hconsistent, hconsistent.toNat_uefiSize, hconsistent.toNat_uefiBase]
  exact h.below

theorem keepsStackBase (m : ByteMemory) : (target.bootShim head).KeepsStackBase m (target.bootShim head).payload := by
  have hbelow := h.below
  have hfour := hconsistent.inFourGiB
  have hstack : (target.bootShim head).stackBase.toNat = head.toNat + 8 := by
    simp only [BootShim.stackBase, bootShim]
    bv_omega
  have hapart : Apart (target.bootShim head).uefiBase (target.bootShim head).uefiSize.toNat (target.bootShim head).stackBase 8 := by
    refine apart_of_le ?_ ?_
    · rw [hstack, hconsistent.toNat_uefiBase]
      omega
    · rw [hconsistent.toNat_uefiBase, hconsistent.toNat_uefiSize]
      omega
  intro j hj i hi heq
  exact absurd heq (hapart j hj i hi)

end

end LoadedBelow

/-! ### A boot of the first device -/

def sampleFirmware : Bytes := List.replicate 0x2EF000 0x1F

def sampleConfig : Bytes :=
  ascii "[Config]\nVersion = 3\n[AndromedaUefi]\nPStoreAddress = 0x17FE00000\nPStoreSize = 0x00200000\n"

/-- A build with `USE_MEMORY_FOR_SERIAL_OUTPUT`: its messages go where the configuration says, its HOB list to the heap. -/
def samplePlatform : EarlyPlatform where
  pFbConPosition := none
  pStoreMemoryRegion := some (0x17FE00000#64, 0x200000#64)
  serialPortInitialize m := m
  platformInitialize m := m.writeBytes 0x17FE00000#64 ((ascii "\nProject Mu on Surface Duo (AArch64)\n").map UInt8.toBitVec)
  hobConstructor m := m.write32 0x9AB00000#64 0x00380001#32

/-- The kernel is loaded half a mebibyte into the memory. -/
def sampleHead : BitVec 64 := 0x80080000#64

def samplePayload : Bytes :=
  (epsilon.configShim sampleConfig).binary ++ sampleFirmware ++ sampleConfig ++
    List.replicate (0x300000 - (4096 + 0x2EF000 + sampleConfig.length)) 0

def sampleBoot : Cpu where
  x _ := 0
  pc := sampleHead
  flags := ⟨false, false, false, false⟩
  mem := writeBytes (fun _ => 0) sampleHead
    (assemble (epsilon.bootShim sampleHead).words ++ samplePayload.map UInt8.toBitVec)
  mpidr := 0
  sgi := []

theorem loadedBelow_sample : epsilon.LoadedBelow sampleHead := ⟨by decide, by decide, by decide⟩

theorem sample_packed :
    epsilon.payload (fun config => config.all (· < 0x80)) sampleFirmware sampleConfig = .ok samplePayload := by
  refine buildAppendablePayload_eq_ok.2 ⟨?_, ?_, ?_, ?_, ?_, ?_, ?_, ?_⟩
  · exact fun h => absurd (List.replicate_eq_nil_iff _ |>.1 h) (by decide)
  · exact List.length_replicate
  · exact ConfigShim.length_binary _ (by decide)
  · decide
  · decide
  · decide
  · decide
  · rfl

theorem samplePlatform_spares : samplePlatform.Spares epsilon.configBase sampleConfig.length where
  pFbConPosition := nofun
  pStoreMemoryRegion := by
    intro address length hregion
    cases hregion
    exact (apart_of_le (by decide) (by decide)).symm
  serialPortInitialize _ _ _ := rfl
  platformInitialize := by
    intro m i hi
    have hlen : sampleConfig.length < 0x1000 := by decide
    refine writeBytes_of_le ?_
    rw [List.length_map, show (ascii "\nProject Mu on Surface Duo (AArch64)\n").length = 37 by decide]
    simp only [configBase, epsilon]
    bv_omega
  hobConstructor := by
    intro m i hi
    have hlen : sampleConfig.length < 0x1000 := by decide
    simp only [samplePlatform, write32, configBase, epsilon]
    rw [if_neg (by bv_omega)]

theorem sample_loadedIn : (epsilon.bootShim sampleHead).LoadedIn sampleBoot.mem ∧
    HoldsBytes sampleBoot.mem (epsilon.bootShim sampleHead).payload samplePayload := by
  have hholds : Holds sampleBoot.mem sampleHead
      (assemble (epsilon.bootShim sampleHead).words ++ samplePayload.map UInt8.toBitVec) := by
    refine holds_writeBytes _ _ ?_
    have hlen : samplePayload.length = 0x300000 := by
      simp only [samplePayload, sampleFirmware, List.length_append, List.length_replicate,
        ConfigShim.length_binary (epsilon.configShim sampleConfig) (by decide)]
      decide
    rw [List.length_append, length_assemble, BootShim.length_words, List.length_map, hlen]
    decide
  obtain ⟨hwords, hpayload⟩ := hholds.append
  refine ⟨BootShim.loadedIn_of_holdsWords ?_, ?_⟩
  · have := Arm64.Holds.words hwords
    rwa [words_assemble] at this
  · rwa [length_assemble] at hpayload

theorem direct_boot_delivers_config_epsilon :
    Reaches (fun t => t.pc = 0x9FC01000#64 ∧ HoldsBytes t.mem t.pc sampleFirmware ∧
      prePiMainBootConfig samplePlatform (fun _ => ⟨0, fun _ => 0⟩)
        (samplePlatform.cEntryPoint ((epsilonPcds 0).moduleEntryPoint t.mem)) (armPlatformPeiBootAction (t.x .x0) (t.x .x1)) =
          if sampleConfig = [] then ⟨none, none⟩ else ⟨some sampleConfig, some ⟨0, fun _ => 0⟩⟩) sampleBoot :=
  direct_boot_delivers_config (epsilonPcds 0) samplePlatform (fun _ => ⟨0, fun _ => 0⟩) sampleHead consistent_epsilon
    sample_packed sample_loadedIn.1 rfl sample_loadedIn.2 (loadedBelow_sample.fits consistent_epsilon)
    (loadedBelow_sample.copiesIntact consistent_epsilon _) (loadedBelow_sample.keepsStackBase consistent_epsilon _)
    (epsilonPcds_spares 0) samplePlatform_spares

end LoaderTarget

end Andromeda
