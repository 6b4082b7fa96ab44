import AndromedaBoot.MemoryMap.Number
import AndromedaBoot.MemoryMap.Numeral
import Mathlib.Logic.Function.Basic

/-!
# Provisioning of Secure Boot (SecureBootProvisioningDxe.c)

| here | there |
| --- | --- |
| `getAndromedaUefiConfigUint32ByName` | AndromedaUefiConfigHelperLib.c:10-25 |
| `isSecureBootOn` | `IsSecureBootOn`, :37-72 |
| `tryWritePlatformSiPolicy` | `TryWritePlatformSiPolicy`, :74-202 |
| `notifyLoop`, `provisionStep` | `OnFileSystemNotification`, :217-250, and the file systems that arrive |

A volume is what is looked at of a file system: the boot manager, and the policy beside it. What the calls do to it is
the file system's own, as the handle that comes next is the boot services'. Both are parameters (`VolumeIo`,
`HandleDatabase`) that say what such a call may do, with a predicate for those that never fail without need; `idealIo` and
`idealHandles` are the simplest there are. The statuses of `Close` are logged and nothing else.
-/

namespace Andromeda

/-! ## The setting -/

theorem uefiSection_noNul : (0 : UInt8) ∉ ascii "AndromedaUefi" := by decide

/-- `ANDROMEDA_BOOT_CONFIG_UEFI_SECTION` and `ANDROMEDA_BOOT_CONFIG_SECURE_BOOT_ENABLED_KEY`. -/
def uefiSection : CStr := ⟨ascii "AndromedaUefi", uefiSection_noNul⟩

def secureBootEnabledKey : CStr := ⟨ascii "SecureBootEnabled", by decide⟩

/-- `GetAndromedaUefiConfigUint32ByName`. -/
def getAndromedaUefiConfigUint32ByName (st : BootConfig) (key : Option CStr) (value : Option UInt32) :
    EfiStatus × Option UInt32 :=
  if key = none ∨ value = none then (.invalidParameter, value)
  else getAndromedaBootConfigUint32 st (some uefiSection) key value

/-- `IsSecureBootOn`; a value that is neither 0 nor 1 is logged and taken for 1. -/
def isSecureBootOn (st : BootConfig) : Bool :=
  match getAndromedaUefiConfigUint32ByName st (some secureBootEnabledKey) (some 0) with
  | (.success, some value) => if value = 0 then false else true
  | _ => true

/-- The configuration has the one setting that turns Secure Boot off, and it can be read. -/
def SecureBootOff (c : ConfigText) : Prop :=
  ∃ v, ReturnsValue c uefiSection secureBootEnabledKey v ∧ v.length < 32 ∧ Denotes v 0

/-! ## One volume -/

structure Volume where
  bootManager : Bool
  siPolicy : Option Bytes
deriving DecidableEq, Repr

/-- The protocols of one volume as they behave at one notification, and the key library. A failing call gives any status;
the code tells only success, `EFI_NOT_FOUND` and the rest apart. -/
structure VolumeIo where
  handleProtocol : EfiStatus
  openVolume : EfiStatus
  /-- `Open` of the boot manager to read it. -/
  openBootManager : Volume → EfiStatus
  /-- `Open` of the policy to read and write it. -/
  openSiPolicy : Volume → EfiStatus
  /-- The same with `EFI_FILE_MODE_CREATE`. -/
  createSiPolicy : Volume → EfiStatus × Volume
  /-- `Write` to the policy that was just opened. -/
  writeSiPolicy : Bytes → Volume → EfiStatus × Volume
  /-- `Delete`, which closes the policy even if it warns that the file is still there. -/
  deleteSiPolicy : Volume → Volume
  setSecureBootConfig : EfiStatus
  openBootManager_success : ∀ v, openBootManager v = .success → v.bootManager = true
  openSiPolicy_success : ∀ v, openSiPolicy v = .success → v.siPolicy.isSome = true
  openSiPolicy_notFound : ∀ v, openSiPolicy v = .notFound → v.siPolicy = none
  createSiPolicy_success : ∀ v, (createSiPolicy v).1 = .success → (createSiPolicy v).2.siPolicy.isSome = true
  createSiPolicy_changes : ∀ v, (createSiPolicy v).2 = v ∨ (createSiPolicy v).2 = { v with siPolicy := some (v.siPolicy.getD []) }
  writeSiPolicy_success : ∀ data file v, v.siPolicy = some file → (writeSiPolicy data v).1 = .success →
    (writeSiPolicy data v).2 = { v with siPolicy := some (data ++ file.drop data.length) }
  writeSiPolicy_changes : ∀ data file v, v.siPolicy = some file →
    ∃ n ≤ data.length, (writeSiPolicy data v).2 = { v with siPolicy := some (data.take n ++ file.drop n) }
  deleteSiPolicy_changes : ∀ v, deleteSiPolicy v = v ∨ deleteSiPolicy v = { v with siPolicy := none }

/-- No call fails that need not. -/
structure VolumeIo.Reliable (io : VolumeIo) : Prop where
  handleProtocol : io.handleProtocol = .success
  openVolume : io.openVolume = .success
  openBootManager : ∀ v, v.bootManager = true → io.openBootManager v = .success
  openSiPolicy : ∀ v, v.siPolicy.isSome = true → io.openSiPolicy v = .success
  openSiPolicy_missing : ∀ v, v.siPolicy = none → io.openSiPolicy v = .notFound
  createSiPolicy : ∀ v, (io.createSiPolicy v).1 = .success
  writeSiPolicy : ∀ data v, v.siPolicy.isSome = true → (io.writeSiPolicy data v).1 = .success
  deleteSiPolicy : ∀ v, (io.deleteSiPolicy v).siPolicy = none

/-- The boot services as they behave at one notification. -/
structure HandleDatabase where
  /-- `LocateHandleBuffer` by `ByRegisterNotify`: one of the handles it has not given before, or an error. -/
  locateHandleBuffer : List Nat → Option Nat
  locateHandleBuffer_mem : ∀ pending handle, locateHandleBuffer pending = some handle → handle ∈ pending

/-- As long as there is a handle one is given. -/
def HandleDatabase.Reliable (handles : HandleDatabase) : Prop :=
  ∀ pending, pending ≠ [] → handles.locateHandleBuffer pending ≠ none

section Code

variable (st : BootConfig) (siPolicyFile : Except EfiStatus Bytes)

/-- `mSiPolicyDefault`; the status of `GetSectionFromAnyFv` is overwritten, so without the section it is empty. -/
def siPolicyDefault : Except EfiStatus Bytes → Bytes
  | .ok data => data
  | .error _ => []

/-- `TryWritePlatformSiPolicy`: its status, the volume, and the configurations given to `SetSecureBootConfig`. -/
def tryWritePlatformSiPolicy (io : VolumeIo) (v : Volume) : EfiStatus × Volume × List Nat :=
  if io.handleProtocol ≠ .success then (io.handleProtocol, v, [])
  else if io.openVolume ≠ .success then (io.openVolume, v, [])
  else if io.openBootManager v ≠ .success then (io.openBootManager v, v, [])
  else if io.openSiPolicy v ≠ .success ∧ io.openSiPolicy v ≠ .notFound then (io.openSiPolicy v, v, [])
  else if io.openSiPolicy v ≠ .notFound then
    if !isSecureBootOn st then (.success, io.deleteSiPolicy v, [])
    else (io.setSecureBootConfig, v, [0])
  else if !isSecureBootOn st then (.success, v, [])
  else
    let created := io.createSiPolicy v
    if created.1 ≠ .success then (created.1, created.2, [])
    else
      -- a write that fails is logged, and the keys are enrolled all the same
      (io.setSecureBootConfig, (io.writeSiPolicy (siPolicyDefault siPolicyFile) created.2).2, [0])

/-! ## All volumes -/

/-- The volumes by handle, the handles that `LocateHandleBuffer` has yet to give, and what `SetSecureBootConfig` was
called with. -/
structure Provisioning where
  volumes : Nat → Volume
  pending : List Nat
  secureBootConfigs : List Nat

/-- One round of `OnFileSystemNotification`. -/
def Provisioning.handled (io : Nat → VolumeIo) (handle : Nat) (s : Provisioning) : Provisioning :=
  let r := tryWritePlatformSiPolicy st siPolicyFile (io handle) (s.volumes handle)
  ⟨Function.update s.volumes handle r.2.1, s.pending.erase handle, s.secureBootConfigs ++ r.2.2⟩

/-- The loop of `OnFileSystemNotification`. -/
def notifyLoop (io : Nat → VolumeIo) (handles : HandleDatabase) (s : Provisioning) : Provisioning :=
  match _located : handles.locateHandleBuffer s.pending with
  | none => s
  | some handle => notifyLoop io handles (s.handled st siPolicyFile io handle)
termination_by s.pending.length
decreasing_by
  have hmem := handles.locateHandleBuffer_mem _ _ _located
  have hpos := List.length_pos_of_mem hmem
  simp only [Provisioning.handled, List.length_erase_of_mem hmem]
  omega

/-- What happens: a file system arrives, or the notification is handled. -/
inductive FileSystemEvent
  | arrives (handle : Nat)
  | notify (io : Nat → VolumeIo) (handles : HandleDatabase)

def provisionStep : FileSystemEvent → Provisioning → Provisioning
  | .arrives handle, s => { s with pending := s.pending ++ [handle] }
  | .notify io handles, s => notifyLoop st siPolicyFile io handles s

def runProvisioning (events : List FileSystemEvent) (s : Provisioning) : Provisioning :=
  events.foldl (fun s event => provisionStep st siPolicyFile event s) s

end Code

/-! ## The simplest file system -/

theorem idealOpen_eq_success {present : Bool} (h : (if present then .success else .notFound : EfiStatus) = .success) :
    present = true := by
  cases present with
  | false => cases h
  | true => rfl

theorem idealOpen_eq_notFound {policy : Option Bytes}
    (h : (if policy.isSome then .success else .notFound : EfiStatus) = .notFound) : policy = none := by
  cases policy with
  | none => rfl
  | some file => cases h

theorem idealWrite_eq {data file : Bytes} {v : Volume} (h : v.siPolicy = some file) :
    ({ v with siPolicy := some (data ++ (v.siPolicy.getD []).drop data.length) } : Volume) =
      { v with siPolicy := some (data ++ file.drop data.length) } := by
  rw [h]
  rfl

/-- Whatever can be done is done. -/
def idealIo : VolumeIo where
  handleProtocol := .success
  openVolume := .success
  openBootManager v := if v.bootManager then .success else .notFound
  openSiPolicy v := if v.siPolicy.isSome then .success else .notFound
  createSiPolicy v := (.success, { v with siPolicy := some (v.siPolicy.getD []) })
  writeSiPolicy data v := (.success, { v with siPolicy := some (data ++ (v.siPolicy.getD []).drop data.length) })
  deleteSiPolicy v := { v with siPolicy := none }
  setSecureBootConfig := .success
  openBootManager_success _ := idealOpen_eq_success
  openSiPolicy_success _ := idealOpen_eq_success
  openSiPolicy_notFound _ := idealOpen_eq_notFound
  createSiPolicy_success _ _ := rfl
  createSiPolicy_changes _ := .inr rfl
  writeSiPolicy_success _ _ _ h _ := idealWrite_eq h
  writeSiPolicy_changes data file v h :=
    ⟨data.length, le_rfl, (idealWrite_eq h).trans (by rw [List.take_length])⟩
  deleteSiPolicy_changes _ := .inr rfl

theorem idealIo_reliable : idealIo.Reliable where
  handleProtocol := rfl
  openVolume := rfl
  openBootManager v h := if_pos h
  openSiPolicy v h := if_pos h
  openSiPolicy_missing v h := by
    simp only [idealIo, h]
    rfl
  createSiPolicy _ := rfl
  writeSiPolicy _ _ _ := rfl
  deleteSiPolicy _ := rfl

/-- The handles in the order of their arrival. -/
def idealHandles : HandleDatabase := ⟨List.head?, fun _ _ => List.mem_of_head?⟩

theorem idealHandles_reliable : idealHandles.Reliable := by
  intro pending hpending hnone
  exact hpending (List.head?_eq_none_iff.1 hnone)

/-! ## Reading the setting -/

/-- What a successful read of a number has read. -/
theorem returnsValue_of_getUint64 {c : ConfigText} {section_ key : CStr} (hkey : key.bytes ≠ []) {value : UInt64}
    {r : Option UInt64} (h : getAndromedaBootConfigUint64 c.installed (some section_) (some key) (some value) = (.success, r)) :
    ∃ v, ReturnsValue c section_ key v ∧ v.length < 32 := by
  have hspec := getAndromedaBootConfigValue_spec c.getBootConfig_installed c.noNul section_ key hkey
    (some (List.replicate 32 0)) 32 (by simp)
  have hstatus : (getAndromedaBootConfigValue c.installed (some section_) (some key) (some (List.replicate 32 0))
      (some 32)).status = .success := by
    by_contra hne
    rw [getAndromedaBootConfigUint64, if_neg (by simp)] at h
    simp only [ne_eq, hne, not_false_eq_true, ↓reduceIte, Prod.mk.injEq, false_and] at h
  rw [hspec] at hstatus
  by_cases hfails : LookupFails section_.bytes key.bytes [] (configLines c.bytes) 0
  · simp [hfails] at hstatus
  · rw [if_neg hfails] at hstatus
    cases hans : answers section_.bytes key.bytes c.bytes with
    | nil => simp [hans] at hstatus
    | cons en es =>
      refine ⟨en.value, returnsValue_iff.2 ⟨hkey, hfails, by rw [hans]; rfl⟩, ?_⟩
      by_contra hlong
      simp only [hans, copyText] at hstatus
      rw [if_pos (by omega)] at hstatus
      simp at hstatus

/-- **`IsSecureBootOn`** is false for the configurations that turn Secure Boot off, and for no other. -/
theorem isSecureBootOn_eq_false_iff (c : ConfigText) : isSecureBootOn c.installed = false ↔ SecureBootOff c := by
  have hread : isSecureBootOn c.installed = false ↔
      getAndromedaBootConfigUint32 c.installed (some uefiSection) (some secureBootEnabledKey) (some 0) = (.success, some 0) := by
    rw [isSecureBootOn, getAndromedaUefiConfigUint32ByName, if_neg (by simp)]
    generalize getAndromedaBootConfigUint32 c.installed (some uefiSection) (some secureBootEnabledKey) (some 0) = r
    obtain ⟨status, value⟩ := r
    cases status <;> cases value <;> simp
  rw [hread]
  constructor
  · intro h
    have h64 : ∃ r, getAndromedaBootConfigUint64 c.installed (some uefiSection) (some secureBootEnabledKey) (some 0) =
        (.success, r) := by
      rw [getAndromedaBootConfigUint32, if_neg (by simp)] at h
      generalize getAndromedaBootConfigUint64 c.installed (some uefiSection) (some secureBootEnabledKey) (some 0) = r at h
      obtain ⟨status, value⟩ := r
      cases status <;> cases value <;> simp at h ⊢
    obtain ⟨r, hr⟩ := h64
    obtain ⟨v, hv, hlen⟩ := returnsValue_of_getUint64 (by decide) hr
    have hparse := ((sameNumbers_of_fits hv hlen).uint32 0 0).1 h
    exact ⟨v, hv, hlen, (parse_iff_denotes v 0 0).1 hparse⟩
  · rintro ⟨v, hv, hlen, hzero⟩
    exact ((sameNumbers_of_fits hv hlen).uint32 0 0).2 ((parse_iff_denotes v 0 0).2 hzero)

/-! ## What becomes of one volume -/

/-- The volume as it is meant to be. -/
def Volume.provisioned (on : Bool) (policy : Bytes) (v : Volume) : Volume :=
  if v.bootManager then { v with siPolicy := if on then some (v.siPolicy.getD policy) else none } else v

/-- What may become of a volume, and the calls of `SetSecureBootConfig` along with it. -/
structure MayBecome (on : Bool) (policy : Bytes) (v v' : Volume) (calls : List Nat) : Prop where
  bootManager : v'.bootManager = v.bootManager
  foreign : v.bootManager = false → v' = v ∧ calls = []
  off : on = false → calls = [] ∧ (v'.siPolicy = v.siPolicy ∨ v'.siPolicy = none)
  kept : on = true → v.siPolicy.isSome = true → v' = v
  made : on = true → v.siPolicy = none → v'.siPolicy = none ∨ ∃ n, v'.siPolicy = some (policy.take n)
  enrolled : calls = [] ∨ calls = [0] ∧ v'.bootManager = true ∧ v'.siPolicy.isSome = true

/-- With an error no file is made, or an empty one. -/
theorem VolumeIo.createSiPolicy_eq (io : VolumeIo) {v : Volume} (hnone : v.siPolicy = none) :
    (io.createSiPolicy v).2 = v ∨ (io.createSiPolicy v).2 = { v with siPolicy := some [] } := by
  have hchanges := io.createSiPolicy_changes v
  rwa [hnone] at hchanges

theorem VolumeIo.createSiPolicy_eq_of_success (io : VolumeIo) {v : Volume} (hnone : v.siPolicy = none)
    (hsuccess : (io.createSiPolicy v).1 = .success) : (io.createSiPolicy v).2 = { v with siPolicy := some [] } := by
  refine (io.createSiPolicy_eq hnone).resolve_left ?_
  intro heq
  have hthere := io.createSiPolicy_success v hsuccess
  rw [heq, hnone] at hthere
  cases hthere

theorem VolumeIo.deleteSiPolicy_eq (io : VolumeIo) (hreliable : io.Reliable) (v : Volume) :
    io.deleteSiPolicy v = { v with siPolicy := none } := by
  rcases io.deleteSiPolicy_changes v with heq | heq
  · have hgone := hreliable.deleteSiPolicy v
    rw [heq] at hgone ⊢
    rw [← hgone]
  · exact heq

/-- The policy that is made is the packaged one. -/
theorem VolumeIo.written_eq (io : VolumeIo) (hreliable : io.Reliable) {v : Volume} (hnone : v.siPolicy = none)
    (data : Bytes) : (io.writeSiPolicy data (io.createSiPolicy v).2).2 = { v with siPolicy := some data } := by
  have hcreated := io.createSiPolicy_eq_of_success hnone (hreliable.createSiPolicy v)
  rw [io.writeSiPolicy_success data [] _ (by rw [hcreated]) (hreliable.writeSiPolicy data _ (by rw [hcreated]; rfl)), hcreated]
  simp

theorem MayBecome.refl (on : Bool) (policy : Bytes) (v : Volume) : MayBecome on policy v v [] :=
  ⟨rfl, fun _ => ⟨rfl, rfl⟩, fun _ => ⟨rfl, .inl rfl⟩, fun _ _ => rfl, fun _ h => .inl h, .inl rfl⟩

theorem VolumeIo.deleted_mayBecome (io : VolumeIo) {policy : Bytes} {v : Volume} (hpresent : v.bootManager = true) :
    MayBecome false policy v (io.deleteSiPolicy v) [] := by
  rcases io.deleteSiPolicy_changes v with heq | heq
  · rw [heq]
    exact .refl _ _ v
  · rw [heq]
    exact ⟨rfl, by simp [hpresent], fun _ => ⟨rfl, .inr rfl⟩, by simp, by simp, .inl rfl⟩

/-- The last steps of `TryWritePlatformSiPolicy`. -/
theorem VolumeIo.created_mayBecome (io : VolumeIo) {policy : Bytes} {v : Volume} (hpresent : v.bootManager = true)
    (hnone : v.siPolicy = none) :
    let r := if (io.createSiPolicy v).1 ≠ .success then ((io.createSiPolicy v).1, (io.createSiPolicy v).2, [])
      else (io.setSecureBootConfig, (io.writeSiPolicy policy (io.createSiPolicy v).2).2, [0])
    MayBecome true policy v r.2.1 r.2.2 := by
  by_cases hsuccess : (io.createSiPolicy v).1 = .success
  · have hcreated := io.createSiPolicy_eq_of_success hnone hsuccess
    obtain ⟨n, -, hwritten⟩ := io.writeSiPolicy_changes policy [] (io.createSiPolicy v).2 (by rw [hcreated])
    rw [if_neg (not_not.2 hsuccess), hwritten, hcreated]
    refine ⟨rfl, by simp [hpresent], by simp, by simp [hnone], ?_, .inr ⟨rfl, hpresent, rfl⟩⟩
    exact fun _ _ => .inr ⟨n, by simp⟩
  · rw [if_pos hsuccess]
    rcases io.createSiPolicy_eq hnone with heq | heq
    · rw [heq]
      exact .refl _ _ v
    · rw [heq]
      exact ⟨rfl, by simp [hpresent], by simp, by simp [hnone], fun _ _ => .inr ⟨0, rfl⟩, .inl rfl⟩

variable {st : BootConfig} {siPolicyFile : Except EfiStatus Bytes}

/-- **`TryWritePlatformSiPolicy`**, whatever fails. -/
theorem tryWritePlatformSiPolicy_mayBecome (st : BootConfig) (siPolicyFile : Except EfiStatus Bytes) (io : VolumeIo)
    (v : Volume) :
    MayBecome (isSecureBootOn st) (siPolicyDefault siPolicyFile) v (tryWritePlatformSiPolicy st siPolicyFile io v).2.1
      (tryWritePlatformSiPolicy st siPolicyFile io v).2.2 := by
  rw [tryWritePlatformSiPolicy]
  by_cases hhandle : io.handleProtocol = .success
  swap
  · rw [if_pos hhandle]
    exact .refl _ _ v
  by_cases hvolume : io.openVolume = .success
  swap
  · rw [if_neg (not_not.2 hhandle), if_pos hvolume]
    exact .refl _ _ v
  by_cases hmanager : io.openBootManager v = .success
  swap
  · rw [if_neg (not_not.2 hhandle), if_neg (not_not.2 hvolume), if_pos hmanager]
    exact .refl _ _ v
  rw [if_neg (not_not.2 hhandle), if_neg (not_not.2 hvolume), if_neg (not_not.2 hmanager)]
  have hpresent : v.bootManager = true := io.openBootManager_success v hmanager
  by_cases herror : io.openSiPolicy v ≠ .success ∧ io.openSiPolicy v ≠ .notFound
  · rw [if_pos herror]
    exact .refl _ _ v
  rw [if_neg herror]
  by_cases habsent : io.openSiPolicy v = .notFound
  · have hnone := io.openSiPolicy_notFound v habsent
    cases hon : isSecureBootOn st with
    | false =>
      simp only [habsent, ne_eq, not_true_eq_false, ↓reduceIte, Bool.not_false]
      exact .refl _ _ v
    | true =>
      simp only [habsent, ne_eq, not_true_eq_false, ↓reduceIte, Bool.not_true, Bool.false_eq_true]
      exact io.created_mayBecome hpresent hnone
  · have hthere : v.siPolicy.isSome = true := by
      refine io.openSiPolicy_success v ?_
      by_contra hne
      exact herror ⟨hne, habsent⟩
    cases hon : isSecureBootOn st with
    | false =>
      simp only [ne_eq, habsent, not_false_eq_true, ↓reduceIte, Bool.not_false]
      exact io.deleted_mayBecome hpresent
    | true =>
      simp only [ne_eq, habsent, not_false_eq_true, ↓reduceIte, Bool.not_true, Bool.false_eq_true]
      exact ⟨rfl, by simp [hpresent], by simp, fun _ _ => rfl, fun _ h => .inl h, .inr ⟨rfl, hpresent, hthere⟩⟩

/-- **`TryWritePlatformSiPolicy`** when nothing fails. -/
theorem tryWritePlatformSiPolicy_reliable (st : BootConfig) (siPolicyFile : Except EfiStatus Bytes) {io : VolumeIo}
    (hreliable : io.Reliable) (v : Volume) :
    (tryWritePlatformSiPolicy st siPolicyFile io v).2 =
      (v.provisioned (isSecureBootOn st) (siPolicyDefault siPolicyFile),
        if isSecureBootOn st && v.bootManager then [0] else []) := by
  rw [tryWritePlatformSiPolicy, if_neg (not_not.2 hreliable.handleProtocol), if_neg (not_not.2 hreliable.openVolume)]
  cases hmanager : v.bootManager with
  | false =>
    have hmissing : io.openBootManager v ≠ .success := by
      intro hsuccess
      rw [io.openBootManager_success v hsuccess] at hmanager
      cases hmanager
    rw [if_pos hmissing, Volume.provisioned, hmanager, Bool.and_false]
    rfl
  | true =>
    rw [if_neg (not_not.2 (hreliable.openBootManager v hmanager)), Volume.provisioned, if_pos hmanager, Bool.and_true]
    cases hpolicy : v.siPolicy with
    | some file =>
      have hopen := hreliable.openSiPolicy v (by rw [hpolicy]; rfl)
      cases hon : isSecureBootOn st with
      | false =>
        have hdeleted := io.deleteSiPolicy_eq hreliable v
        simp [hopen, hdeleted]
      | true =>
        obtain ⟨bootManager, siPolicy⟩ := v
        cases hpolicy
        simp [hopen]
    | none =>
      have hopen := hreliable.openSiPolicy_missing v hpolicy
      cases hon : isSecureBootOn st with
      | false => simp [hopen, ← hpolicy]
      | true =>
        have hcreated := hreliable.createSiPolicy v
        simp [hopen, hcreated, io.written_eq hreliable hpolicy]

theorem Volume.provisioned_provisioned (on : Bool) (policy : Bytes) (v : Volume) :
    (v.provisioned on policy).provisioned on policy = v.provisioned on policy := by
  unfold Volume.provisioned
  cases hmanager : v.bootManager with
  | false => simp [hmanager]
  | true => cases on <;> simp

theorem Volume.bootManager_provisioned (on : Bool) (policy : Bytes) (v : Volume) :
    (v.provisioned on policy).bootManager = v.bootManager := by
  unfold Volume.provisioned
  split_ifs <;> rfl

/-! ## What becomes of all of them -/

/-- What may become of the volumes on the way from one state to another. -/
structure MayLead (on : Bool) (policy : Bytes) (s s' : Provisioning) : Prop where
  volumes : ∀ handle, ∃ calls, MayBecome on policy (s.volumes handle) (s'.volumes handle) calls
  off : on = false → s'.secureBootConfigs = s.secureBootConfigs
  enrolled : s'.secureBootConfigs = s.secureBootConfigs ∨
    ∃ handle, (s'.volumes handle).bootManager = true ∧ (s'.volumes handle).siPolicy.isSome = true

theorem MayBecome.trans {on : Bool} {policy : Bytes} {v₁ v₂ v₃ : Volume} {calls₁ calls₂ : List Nat}
    (h₁ : MayBecome on policy v₁ v₂ calls₁) (h₂ : MayBecome on policy v₂ v₃ calls₂) :
    ∃ calls, MayBecome on policy v₁ v₃ calls := by
  have hon_kept : on = true → v₁.siPolicy.isSome = true → v₃ = v₁ := by
    intro hon hsome
    have heq := h₁.kept hon hsome
    exact (h₂.kept hon (by rwa [heq])).trans heq
  refine ⟨[], h₂.bootManager.trans h₁.bootManager, ?_, ?_, hon_kept, ?_, .inl rfl⟩
  · intro hforeign
    have heq := (h₁.foreign hforeign).1
    exact ⟨(h₂.foreign (by rwa [heq])).1.trans heq, rfl⟩
  · intro hoff
    refine ⟨rfl, ?_⟩
    rcases (h₂.off hoff).2 with heq | hnone
    · rw [heq]
      exact (h₁.off hoff).2
    · exact .inr hnone
  · intro hon hnone
    cases hpolicy : v₂.siPolicy with
    | none => exact h₂.made hon hpolicy
    | some data =>
      rw [h₂.kept hon (by rw [hpolicy]; rfl)]
      exact h₁.made hon hnone

/-- With Secure Boot on no policy goes away. -/
theorem MayBecome.isSome {on : Bool} {policy : Bytes} {v v' : Volume} {calls : List Nat} (h : MayBecome on policy v v' calls)
    (hon : on = true) (hsome : v.siPolicy.isSome = true) : v'.siPolicy.isSome = true := by
  rwa [h.kept hon hsome]

theorem MayLead.refl (on : Bool) (policy : Bytes) (s : Provisioning) : MayLead on policy s s :=
  ⟨fun _ => ⟨[], .refl _ _ _⟩, fun _ => rfl, .inl rfl⟩

theorem MayLead.trans {on : Bool} {policy : Bytes} {s₁ s₂ s₃ : Provisioning} (h₁ : MayLead on policy s₁ s₂)
    (h₂ : MayLead on policy s₂ s₃) : MayLead on policy s₁ s₃ := by
  refine ⟨?_, fun hoff => (h₂.off hoff).trans (h₁.off hoff), ?_⟩
  · intro handle
    obtain ⟨_, hfirst⟩ := h₁.volumes handle
    obtain ⟨_, hsecond⟩ := h₂.volumes handle
    exact hfirst.trans hsecond
  · rcases h₂.enrolled with heq | hvolume
    · rcases h₁.enrolled with heq₁ | ⟨handle, hmanager, hsome⟩
      · exact .inl (heq.trans heq₁)
      · obtain ⟨_, hstep⟩ := h₂.volumes handle
        cases on with
        | false => exact .inl ((h₂.off rfl).trans (h₁.off rfl))
        | true => exact .inr ⟨handle, hstep.bootManager.trans hmanager, hstep.isSome rfl hsome⟩
    · exact .inr hvolume

theorem Provisioning.handled_mayLead (io : Nat → VolumeIo) (handle : Nat) (s : Provisioning) :
    MayLead (isSecureBootOn st) (siPolicyDefault siPolicyFile) s (s.handled st siPolicyFile io handle) := by
  have hone := tryWritePlatformSiPolicy_mayBecome st siPolicyFile (io handle) (s.volumes handle)
  refine ⟨?_, fun hoff => ?_, ?_⟩
  · intro other
    by_cases hsame : other = handle
    · subst hsame
      exact ⟨_, by simpa only [Provisioning.handled, Function.update_self] using hone⟩
    · exact ⟨[], by simpa only [Provisioning.handled, Function.update_of_ne hsame] using .refl _ _ _⟩
  · change s.secureBootConfigs ++ _ = _
    rw [(hone.off hoff).1, List.append_nil]
  · rcases hone.enrolled with hnone | ⟨-, hmanager, hsome⟩
    · refine .inl ?_
      change s.secureBootConfigs ++ _ = _
      rw [hnone, List.append_nil]
    · exact .inr ⟨handle, by simpa only [Provisioning.handled, Function.update_self] using ⟨hmanager, hsome⟩⟩

theorem notifyLoop_mayLead (io : Nat → VolumeIo) (handles : HandleDatabase) (s : Provisioning) :
    MayLead (isSecureBootOn st) (siPolicyDefault siPolicyFile) s (notifyLoop st siPolicyFile io handles s) := by
  fun_induction notifyLoop st siPolicyFile io handles s with
  | case1 s => exact .refl _ _ s
  | case2 s handle _ ih => exact (Provisioning.handled_mayLead io handle s).trans ih

theorem runProvisioning_mayLead (events : List FileSystemEvent) (s : Provisioning) :
    MayLead (isSecureBootOn st) (siPolicyDefault siPolicyFile) s (runProvisioning st siPolicyFile events s) := by
  induction events generalizing s with
  | nil => exact .refl _ _ s
  | cons event events ih =>
    refine MayLead.trans ?_ (ih _)
    cases event with
    | arrives handle => exact ⟨fun _ => ⟨[], .refl _ _ _⟩, fun _ => rfl, .inl rfl⟩
    | notify io handles => exact notifyLoop_mayLead io handles s

/-- The handles in the order of their arrival. -/
def arrivals : List FileSystemEvent → List Nat
  | [] => []
  | .arrives handle :: events => handle :: arrivals events
  | .notify _ _ :: events => arrivals events

/-- The handles `done` are provisioned, each as often as it is there, and no others. -/
structure Provisioned (on : Bool) (policy : Bytes) (initial : Nat → Volume) (done : List Nat) (s : Provisioning) : Prop where
  volumes : ∀ handle, s.volumes handle = if handle ∈ done then (initial handle).provisioned on policy else initial handle
  secureBootConfigs : s.secureBootConfigs = (done.filter fun handle => on && (initial handle).bootManager).map fun _ => 0

theorem Provisioned.handled {io : Nat → VolumeIo} {handle : Nat} (hreliable : (io handle).Reliable) {initial : Nat → Volume}
    {done : List Nat} {s : Provisioning}
    (h : Provisioned (isSecureBootOn st) (siPolicyDefault siPolicyFile) initial done s) :
    Provisioned (isSecureBootOn st) (siPolicyDefault siPolicyFile) initial (done ++ [handle])
      (s.handled st siPolicyFile io handle) := by
  have hone := tryWritePlatformSiPolicy_reliable st siPolicyFile hreliable (s.volumes handle)
  have hmanager : (s.volumes handle).bootManager = (initial handle).bootManager := by
    rw [h.volumes handle]
    split_ifs
    · exact Volume.bootManager_provisioned _ _ _
    · rfl
  rw [Provisioning.handled, hone]
  constructor
  · intro other
    by_cases hsame : other = handle
    · subst hsame
      simp only [Function.update_self, List.mem_append, List.mem_singleton, or_true, ↓reduceIte, h.volumes other]
      split_ifs
      · exact Volume.provisioned_provisioned _ _ _
      · rfl
    · simp only [Function.update_of_ne hsame, List.mem_append, List.mem_singleton, hsame, or_false, h.volumes other]
  · simp only [h.secureBootConfigs, hmanager, List.filter_append, List.map_append, List.filter_cons, List.filter_nil]
    split_ifs <;> rfl

/-- A notification at which no volume fails takes handles from those that are pending. -/
theorem notifyLoop_provisioned {io : Nat → VolumeIo} (hreliable : ∀ handle, (io handle).Reliable) (handles : HandleDatabase)
    {initial : Nat → Volume} {done : List Nat} {s : Provisioning}
    (h : Provisioned (isSecureBootOn st) (siPolicyDefault siPolicyFile) initial done s) :
    ∃ taken, s.pending.Perm (taken ++ (notifyLoop st siPolicyFile io handles s).pending) ∧
      Provisioned (isSecureBootOn st) (siPolicyDefault siPolicyFile) initial (done ++ taken)
        (notifyLoop st siPolicyFile io handles s) := by
  fun_induction notifyLoop st siPolicyFile io handles s generalizing done with
  | case1 s => exact ⟨[], .refl _, by rwa [List.append_nil]⟩
  | case2 s handle hlocated ih =>
    obtain ⟨taken, hsplit, htaken⟩ := ih (h.handled (hreliable handle))
    refine ⟨handle :: taken, ?_, ?_⟩
    · exact (List.perm_cons_erase (handles.locateHandleBuffer_mem _ _ hlocated)).trans (hsplit.cons handle)
    · rwa [List.append_assoc] at htaken

/-- A notification ends with no handle left, unless `LocateHandleBuffer` fails. -/
theorem notifyLoop_pending {io : Nat → VolumeIo} {handles : HandleDatabase} (hhandles : handles.Reliable) (s : Provisioning) :
    (notifyLoop st siPolicyFile io handles s).pending = [] := by
  fun_induction notifyLoop st siPolicyFile io handles s with
  | case1 s hnone =>
    by_contra hpending
    exact hhandles _ hpending hnone
  | case2 _ _ _ ih => exact ih

theorem runProvisioning_append (events later : List FileSystemEvent) (s : Provisioning) :
    runProvisioning st siPolicyFile (events ++ later) s =
      runProvisioning st siPolicyFile later (runProvisioning st siPolicyFile events s) := List.foldl_append

theorem runProvisioning_provisioned {initial : Nat → Volume} (events : List FileSystemEvent)
    (hreliable : ∀ io handles, .notify io handles ∈ events → ∀ handle, (io handle).Reliable) {done : List Nat}
    {s : Provisioning} (h : Provisioned (isSecureBootOn st) (siPolicyDefault siPolicyFile) initial done s) :
    ∃ taken, (s.pending ++ arrivals events).Perm (taken ++ (runProvisioning st siPolicyFile events s).pending) ∧
      Provisioned (isSecureBootOn st) (siPolicyDefault siPolicyFile) initial (done ++ taken)
        (runProvisioning st siPolicyFile events s) := by
  induction events generalizing done s with
  | nil => exact ⟨[], by simp [arrivals, runProvisioning], by simpa [runProvisioning] using h⟩
  | cons event events ih =>
    have hrest := fun io handles hmem => hreliable io handles (List.mem_cons_of_mem _ hmem)
    cases event with
    | arrives handle =>
      obtain ⟨taken, hsplit, htaken⟩ :=
        ih hrest (s := { s with pending := s.pending ++ [handle] }) ⟨h.volumes, h.secureBootConfigs⟩
      refine ⟨taken, ?_, htaken⟩
      rw [List.append_assoc] at hsplit
      exact hsplit
    | notify io handles =>
      obtain ⟨first, hpending, hfirst⟩ := notifyLoop_provisioned (hreliable io handles List.mem_cons_self) handles h
      obtain ⟨taken, hsplit, htaken⟩ := ih hrest hfirst
      refine ⟨first ++ taken, ?_, ?_⟩
      · rw [arrivals, List.append_assoc]
        refine (hpending.append_right _).trans ?_
        rw [List.append_assoc]
        exact hsplit.append_left first
      · rwa [List.append_assoc] at htaken

/-- **Provisioning follows the setting.** Secure Boot counts as off for the configurations that say so and for no other.
Whatever volumes arrive, in whatever order, and whatever fails: a volume without the boot manager is left alone; with
Secure Boot off nothing is enrolled and policies only go away; with it on they stay, a new one is the beginning of the
packaged one, and keys are enrolled only if a volume with the boot manager has a policy. A notification leaves no handle
behind unless `LocateHandleBuffer` fails, and if no volume fails, those it took are provisioned, each once for each arrival
in the enrolments. -/
theorem runProvisioning_follows (c : ConfigText) (siPolicyFile : Except EfiStatus Bytes) (volumes : Nat → Volume)
    (events : List FileSystemEvent) :
    let on := isSecureBootOn c.installed
    let policy := siPolicyDefault siPolicyFile
    let s := runProvisioning c.installed siPolicyFile events ⟨volumes, [], []⟩
    (on = false ↔ SecureBootOff c) ∧
    (∀ handle, (volumes handle).bootManager = false → s.volumes handle = volumes handle) ∧
    (on = false → s.secureBootConfigs = [] ∧
      ∀ handle, (s.volumes handle).siPolicy = (volumes handle).siPolicy ∨ (s.volumes handle).siPolicy = none) ∧
    (on = true →
      (∀ handle, (volumes handle).siPolicy ≠ none → s.volumes handle = volumes handle) ∧
      (∀ handle, (volumes handle).siPolicy = none →
        (s.volumes handle).siPolicy = none ∨ ∃ n, (s.volumes handle).siPolicy = some (policy.take n)) ∧
      (s.secureBootConfigs ≠ [] →
        ∃ handle, (s.volumes handle).bootManager = true ∧ (s.volumes handle).siPolicy ≠ none)) ∧
    (∀ earlier io handles, events = earlier ++ [.notify io handles] → handles.Reliable → s.pending = []) ∧
    ((∀ io handles, .notify io handles ∈ events → ∀ handle, (io handle).Reliable) →
      ∃ done, (arrivals events).Perm (done ++ s.pending) ∧ Provisioned on policy volumes done s) := by
  intro on policy s
  have hlead : MayLead on policy ⟨volumes, [], []⟩ s := runProvisioning_mayLead events _
  refine ⟨isSecureBootOn_eq_false_iff c, ?_, ?_, ?_, ?_, ?_⟩
  · intro handle hforeign
    obtain ⟨_, hvolume⟩ := hlead.volumes handle
    exact (hvolume.foreign hforeign).1
  · intro hoff
    refine ⟨hlead.off hoff, fun handle => ?_⟩
    obtain ⟨_, hvolume⟩ := hlead.volumes handle
    exact (hvolume.off hoff).2
  · intro hon
    refine ⟨?_, ?_, ?_⟩
    · intro handle hsome
      obtain ⟨_, hvolume⟩ := hlead.volumes handle
      exact hvolume.kept hon (Option.isSome_iff_ne_none.2 hsome)
    · intro handle hnone
      obtain ⟨_, hvolume⟩ := hlead.volumes handle
      exact hvolume.made hon hnone
    · intro hne
      obtain ⟨handle, hmanager, hsome⟩ := hlead.enrolled.resolve_left hne
      exact ⟨handle, hmanager, Option.isSome_iff_ne_none.1 hsome⟩
  · intro earlier io handles hevents hhandles
    simp only [s, hevents, runProvisioning_append]
    exact notifyLoop_pending hhandles _
  · intro hreliable
    have hstart : Provisioned on policy volumes [] ⟨volumes, [], []⟩ := ⟨fun _ => rfl, rfl⟩
    obtain ⟨done, hsplit, hdone⟩ := runProvisioning_provisioned events hreliable hstart
    exact ⟨done, hsplit, hdone⟩

theorem runProvisioning_follows_twoVolumes :
    let c : ConfigText := ⟨ascii "[AndromedaUefi]\nSecureBootEnabled=1\n", by decide, by decide, by decide⟩
    let volumes handle : Volume := ⟨handle = 0, none⟩
    let s := runProvisioning c.installed (.ok [0x30, 0x82])
      [.arrives 0, .arrives 1, .notify (fun _ => idealIo) idealHandles] ⟨volumes, [], []⟩
    s.pending = [] ∧ s.volumes 0 = ⟨true, some [0x30, 0x82]⟩ ∧ s.volumes 1 = ⟨false, none⟩ ∧ s.secureBootConfigs = [0] := by
  intro c volumes s
  have hon : isSecureBootOn c.installed = true := by decide +kernel
  obtain ⟨-, hforeign, -, -, hpending, hdone⟩ := runProvisioning_follows c (.ok [0x30, 0x82]) volumes
    [.arrives 0, .arrives 1, .notify (fun _ => idealIo) idealHandles]
  have hnone : s.pending = [] := hpending [.arrives 0, .arrives 1] _ _ rfl idealHandles_reliable
  obtain ⟨done, hperm, hprovisioned⟩ := hdone (by
    intro io handles hmem handle
    simp only [List.mem_cons, reduceCtorEq, List.not_mem_nil, or_false, false_or, FileSystemEvent.notify.injEq] at hmem
    rw [hmem.1]
    exact idealIo_reliable)
  rw [hnone, List.append_nil] at hperm
  have hperm : [0, 1].Perm done := hperm
  refine ⟨hnone, ?_, hforeign 1 rfl, ?_⟩
  · rw [hprovisioned.volumes 0, if_pos (hperm.mem_iff.1 (by decide)), hon]
    rfl
  · have hcalls := (hperm.filter fun handle => isSecureBootOn c.installed && (volumes handle).bootManager).map fun _ => 0
    rw [← hprovisioned.secureBootConfigs, hon] at hcalls
    exact List.perm_singleton.1 hcalls.symm

end Andromeda
