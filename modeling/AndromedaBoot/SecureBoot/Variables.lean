import AndromedaBoot.Lib.PackedFields
import Mathlib.Logic.Function.Basic

/-!
# The variables of Secure Boot (AuthVariableLib)

The library does not store variables itself: it finds and updates them through `mAuthVarLibContextIn`, which the variable
driver gives it. That driver is not part of the repository: every result takes any `VariableDriver`, whose fields say what
its documentation does, and `referenceDriver` is one. An update is atomic. It may fail, and the power may be lost before it;
a run of the library then goes on only with the next boot.

| here | there |
| --- | --- |
| `VariableDriver.update`, `updateVariable` | `UpdateVariable` of `AUTH_VAR_LIB_CONTEXT_IN` |
| `authServiceInternalFindVariable` | AuthService.c:192-211 |
| `authServiceInternalUpdateVariable` | AuthService.c:229-249, and :268-321 behind the filter |
| `authServiceInternalCompareTimeStamp` | AuthService.c:1214-1232 |
-/

namespace Andromeda

open PackedFields

/-- The codes of an `EFI_STATUS` that this library returns. -/
inductive AuthStatus
  | success
  | invalidParameter
  | notFound
  | accessDenied
  | securityViolation
  | outOfResources
  | writeProtected
  | unsupported
  | aborted
deriving DecidableEq, Repr

/-- The name, as `CHAR16`s without the terminator, and the GUID, as the number of its 16 bytes. -/
structure VariableKey where
  name : List (BitVec 16)
  vendorGuid : BitVec 128
deriving DecidableEq, Repr

/-- The bytes of a GUID. -/
def guidBytes (guid : BitVec 128) : List (BitVec 8) := leBytes 16 guid.toNat

theorem guidBytes_inj {guid guid' : BitVec 128} : guidBytes guid = guidBytes guid' ↔ guid = guid' := by
  rw [guidBytes, guidBytes, leBytes_inj guid.isLt guid'.isLt, BitVec.toNat_inj]

def utf16 (s : String) : List (BitVec 16) := s.toList.map fun c => BitVec.ofNat 16 c.toNat

/-! ## Names -/

def gEfiGlobalVariableGuid : BitVec 128 := 0x8C2B0398E0000DAA11D293CA8BE4DF61

def gEfiImageSecurityDatabaseGuid : BitVec 128 := 0x6F65670ED0DABCA345963D3AD719B2CB

def gEfiSecureBootEnableDisableGuid : BitVec 128 := 0x443AC9091000C4994556AF08F0A30BC7

def gEfiCustomModeEnableGuid : BitVec 128 := 0x9F8B445CEE7172A043997028C076EC0C

def gEfiVendorKeysNvGuid : BitVec 128 := 0x3C0F263C224C03994B6E60EC9073E4E0

def gEfiCertDbGuid : BitVec 128 := 0x7A630F2134B5D7B449D975DCD9BEE56E

/-- `EFI_PLATFORM_KEY_NAME` -/
def pkKey : VariableKey := ⟨utf16 "PK", gEfiGlobalVariableGuid⟩

/-- `EFI_KEY_EXCHANGE_KEY_NAME` -/
def kekKey : VariableKey := ⟨utf16 "KEK", gEfiGlobalVariableGuid⟩

/-- `EFI_IMAGE_SECURITY_DATABASE`, and the same with 1 and 2: db, dbx and dbt. -/
def databaseKeys : List VariableKey :=
  [⟨utf16 "db", gEfiImageSecurityDatabaseGuid⟩, ⟨utf16 "dbx", gEfiImageSecurityDatabaseGuid⟩,
   ⟨utf16 "dbt", gEfiImageSecurityDatabaseGuid⟩]

def setupModeKey : VariableKey := ⟨utf16 "SetupMode", gEfiGlobalVariableGuid⟩

def signatureSupportKey : VariableKey := ⟨utf16 "SignatureSupport", gEfiGlobalVariableGuid⟩

def secureBootKey : VariableKey := ⟨utf16 "SecureBoot", gEfiGlobalVariableGuid⟩

def secureBootEnableKey : VariableKey := ⟨utf16 "SecureBootEnable", gEfiSecureBootEnableDisableGuid⟩

def customModeKey : VariableKey := ⟨utf16 "CustomMode", gEfiCustomModeEnableGuid⟩

def vendorKeysNvKey : VariableKey := ⟨utf16 "VendorKeysNv", gEfiVendorKeysNvGuid⟩

def vendorKeysKey : VariableKey := ⟨utf16 "VendorKeys", gEfiGlobalVariableGuid⟩

/-- `EFI_CERT_DB_NAME` or `EFI_CERT_DB_VOLATILE_NAME`, as the attributes say. -/
def certDbKey (nv : Bool) : VariableKey := ⟨if nv then utf16 "certdb" else utf16 "certdbv", gEfiCertDbGuid⟩

/-- `EFI_TIME` -/
structure EfiTime where
  year : BitVec 16
  month : BitVec 8
  day : BitVec 8
  hour : BitVec 8
  minute : BitVec 8
  second : BitVec 8
  pad1 : BitVec 8
  nanosecond : BitVec 32
  timeZone : BitVec 16
  daylight : BitVec 8
  pad2 : BitVec 8
deriving DecidableEq, Repr

def EfiTime.zero : EfiTime := ⟨0, 0, 0, 0, 0, 0, 0, 0, 0, 0, 0⟩

/-! ## Attributes -/

def nonVolatile : BitVec 32 := 0x01

def bootserviceAccess : BitVec 32 := 0x02

def runtimeAccess : BitVec 32 := 0x04

def authenticatedWriteAccess : BitVec 32 := 0x10

def timeBasedAuthenticatedWriteAccess : BitVec 32 := 0x20

def appendWrite : BitVec 32 := 0x40

/-- `(Attributes & Mask) != 0` -/
def hasAny (attributes mask : BitVec 32) : Bool := attributes &&& mask ≠ 0

/-! ## Time stamps -/

/-- `AuthServiceInternalCompareTimeStamp`: the first one is not later. -/
def authServiceInternalCompareTimeStamp (first second : EfiTime) : Bool :=
  if first.year ≠ second.year then first.year < second.year
  else if first.month ≠ second.month then first.month < second.month
  else if first.day ≠ second.day then first.day < second.day
  else if first.hour ≠ second.hour then first.hour < second.hour
  else if first.minute ≠ second.minute then first.minute < second.minute
  else first.second ≤ second.second

/-- The fields that are compared, as the digits of a number. -/
def EfiTime.stamp (t : EfiTime) : Nat :=
  ((((t.year.toNat * 256 + t.month.toNat) * 256 + t.day.toNat) * 256 + t.hour.toNat) * 256 + t.minute.toNat) * 256 +
    t.second.toNat

theorem compareTimeStamp_iff {first second : EfiTime} :
    authServiceInternalCompareTimeStamp first second = true ↔ first.stamp ≤ second.stamp := by
  have := first.month.isLt
  have := first.day.isLt
  have := first.hour.isLt
  have := first.minute.isLt
  have := first.second.isLt
  have := second.month.isLt
  have := second.day.isLt
  have := second.hour.isLt
  have := second.minute.isLt
  have := second.second.isLt
  unfold authServiceInternalCompareTimeStamp EfiTime.stamp
  split_ifs <;> simp only [ne_eq, not_not, ← BitVec.toNat_inj, BitVec.lt_def, BitVec.le_def, decide_eq_true_eq] at * <;> omega

/-! ## The driver -/

structure AuthVariable where
  data : List (BitVec 8)
  attributes : BitVec 32
  timeStamp : EfiTime
deriving DecidableEq, Repr

abbrev Variables := VariableKey → Option AuthVariable

/-- `AUTH_VARIABLE_INFO`, as it is given to `UpdateVariable`. -/
structure VariableUpdate where
  key : VariableKey
  data : List (BitVec 8)
  attributes : BitVec 32
  timeStamp : Option EfiTime

/-- The variable is to be deleted: there are no data and nothing is appended, or there is no access to it. -/
def VariableUpdate.Deletes (u : VariableUpdate) : Prop :=
  u.data = [] ∧ hasAny u.attributes appendWrite = false ∨ hasAny u.attributes (bootserviceAccess ||| runtimeAccess) = false

instance (u : VariableUpdate) : Decidable u.Deletes := inferInstanceAs (Decidable (_ ∨ _))

/-- There are data to store, or there is a variable to change. -/
def VariableUpdate.Possible (u : VariableUpdate) (vars : Variables) : Prop :=
  u.data ≠ [] ∧ hasAny u.attributes (bootserviceAccess ||| runtimeAccess) = true ∨ (vars u.key).isSome = true

/-- The attributes of a stored variable: the given ones, or those that it has. -/
def VariableUpdate.Labels (u : VariableUpdate) (old : Option AuthVariable) (v : AuthVariable) : Prop :=
  v.attributes = u.attributes &&& ~~~appendWrite ∨ ∃ o, old = some o ∧ v.attributes = o.attributes

/-- The variable driver is not part of this repository. It is given with what is documented of it. -/
structure VariableDriver where
  /-- `UpdateVariable`, for each call: the status and the variables behind it, or none if the power is lost before it. -/
  update : Nat → Variables → VariableUpdate → Option (AuthStatus × Variables)
  /-- The attributes with which `SetVariable` lets a request through. -/
  accepts : Variables → VariableKey → BitVec 32 → Bool
  /-- The variables behind a reset. -/
  restart : Variables → Variables
  /-- No other variable changes. -/
  update_other : ∀ {n vars u status vars' key}, update n vars u = some (status, vars') → key ≠ u.key → vars' key = vars key
  /-- A call that fails changes nothing. -/
  update_fails : ∀ {n vars u status vars'}, update n vars u = some (status, vars') → status ≠ .success → vars' = vars
  /-- Only a variable that is there is deleted. -/
  update_deletes : ∀ {n vars u vars'}, update n vars u = some (.success, vars') →
    ¬(u.data = [] ∧ hasAny u.attributes appendWrite = true) →
    u.Deletes → (vars u.key).isSome = true ∧ vars' u.key = none
  /-- `EFI_VARIABLE_APPEND_WRITE` has no effect where there is no variable. -/
  update_stores : ∀ {n vars u vars'}, update n vars u = some (.success, vars') → u.data ≠ [] → ¬u.Deletes →
    hasAny u.attributes appendWrite = false ∨ vars u.key = none →
    ∃ v, vars' u.key = some v ∧ v.data = u.data ∧ u.Labels (vars u.key) v
  /-- Appended data come behind the old ones, and a time stamp counts if it is not earlier than the old one. -/
  update_appends : ∀ {n vars u vars' old}, update n vars u = some (.success, vars') → vars u.key = some old → ¬u.Deletes →
    hasAny u.attributes appendWrite = true →
    ∃ v, vars' u.key = some v ∧ v.data = old.data ++ u.data ∧ u.Labels (vars u.key) v ∧
      ∀ t, hasAny u.attributes timeBasedAuthenticatedWriteAccess = true → u.timeStamp = some t →
        v.timeStamp = if authServiceInternalCompareTimeStamp old.timeStamp t then t else old.timeStamp
  /-- A variable that is there is only written with its attributes, but for `EFI_VARIABLE_APPEND_WRITE`. -/
  accepts_attributes : ∀ {vars key attributes v}, accepts vars key attributes = true → vars key = some v → attributes ≠ 0 →
    attributes &&& ~~~appendWrite = v.attributes
  /-- Volatile variables are lost. -/
  restart_eq_some_iff : ∀ {vars key v}, restart vars key = some v ↔ vars key = some v ∧ hasAny v.attributes nonVolatile = true

theorem VariableDriver.restart_eq_none (driver : VariableDriver) {vars : Variables} {key : VariableKey} (h : vars key = none) :
    driver.restart vars key = none := by
  refine Option.eq_none_iff_forall_ne_some.2 fun v hv => ?_
  have hold := (driver.restart_eq_some_iff.1 hv).1
  simp [h] at hold

/-- The driver fails no update that is possible; it may lose its power. -/
def VariableDriver.Reliable (driver : VariableDriver) : Prop :=
  ∀ n vars u status vars', driver.update n vars u = some (status, vars') → u.Possible vars → status = .success

/-! ## The library -/

/-- The variables, the globals of the library that change, and how often the driver was called. Firmware that is not
`running` has lost power, or is in a loop that does not end: it changes nothing any more. -/
structure AuthState where
  vars : Variables
  platformMode : BitVec 32
  vendorKeyState : BitVec 8
  calls : Nat
  running : Bool

/-- Nothing is done any more until the next boot. -/
def AuthState.stop (s : AuthState) : AuthState := { s with running := false }

section

variable (driver : VariableDriver)

/-- `mAuthVarLibContextIn->UpdateVariable` -/
def updateVariable (u : VariableUpdate) (s : AuthState) : AuthStatus × AuthState :=
  if !s.running then (.aborted, s)
  else
    match driver.update s.calls s.vars u with
    | none => (.aborted, { s with calls := s.calls + 1, running := false })
    | some (status, vars) => (status, { s with vars := vars, calls := s.calls + 1 })

/-- `AuthServiceInternalFindVariable`: an error, or the data. -/
def authServiceInternalFindVariable (key : VariableKey) (s : AuthState) : Option (List (BitVec 8)) :=
  (s.vars key).map (·.data)

/-- `AuthServiceInternalUpdateVariable` -/
def authServiceInternalUpdateVariable (key : VariableKey) (data : List (BitVec 8)) (attributes : BitVec 32) (s : AuthState) :
    AuthStatus × AuthState :=
  updateVariable driver ⟨key, data, attributes, none⟩ s

end

/-! ## What an update changes -/

section Changes

variable {driver : VariableDriver} {vars : Variables} {u : VariableUpdate} {s : AuthState} {key : VariableKey}

/-- An update changes at most the one variable, and that only while the firmware runs. -/
theorem updateVariable_other (h : key ≠ u.key) : (updateVariable driver u s).2.vars key = s.vars key := by
  unfold updateVariable
  split_ifs
  · rfl
  · cases hupdate : driver.update s.calls s.vars u with
    | none => rfl
    | some r => exact driver.update_other hupdate h

theorem updateVariable_platformMode : (updateVariable driver u s).2.platformMode = s.platformMode := by
  unfold updateVariable
  split_ifs
  · rfl
  · cases driver.update s.calls s.vars u <;> rfl

theorem updateVariable_vendorKeyState : (updateVariable driver u s).2.vendorKeyState = s.vendorKeyState := by
  unfold updateVariable
  split_ifs
  · rfl
  · cases driver.update s.calls s.vars u <;> rfl

/-- An update that fails changes nothing; one that succeeds is the driver's. -/
theorem updateVariable_cases (driver : VariableDriver) (s : AuthState) (u : VariableUpdate) :
    (updateVariable driver u s).1 ≠ .success ∧ (updateVariable driver u s).2.vars = s.vars ∨
      (updateVariable driver u s).1 = .success ∧
        driver.update s.calls s.vars u = some (.success, (updateVariable driver u s).2.vars) := by
  have haborted : AuthStatus.aborted ≠ .success := by decide
  unfold updateVariable
  split_ifs
  · exact .inl ⟨haborted, rfl⟩
  · cases hupdate : driver.update s.calls s.vars u with
    | none => exact .inl ⟨haborted, rfl⟩
    | some r =>
      by_cases hsuccess : r.1 = .success
      · exact .inr ⟨hsuccess, by rw [← hsuccess]⟩
      · exact .inl ⟨hsuccess, driver.update_fails hupdate hsuccess⟩

/-- While the power is on, a reliable driver does what is possible. -/
theorem updateVariable_reliable (h : driver.Reliable) (hpossible : u.Possible s.vars)
    (hrunning : (updateVariable driver u s).2.running = true) : (updateVariable driver u s).1 = .success := by
  unfold updateVariable at hrunning ⊢
  split_ifs at hrunning ⊢ with hoff
  · have hrun : s.running = true := hrunning
    simp [hrun] at hoff
  · cases hupdate : driver.update s.calls s.vars u with
    | none => simp [hupdate] at hrunning
    | some r => exact h _ _ _ _ _ hupdate hpossible

/-- What holds of the attributes that are given and of those that the variable has holds of those that are stored. -/
theorem VariableUpdate.Labels.holds {old : Option AuthVariable} {v : AuthVariable} (h : u.Labels old v) (P : BitVec 32 → Prop)
    (hgiven : P (u.attributes &&& ~~~appendWrite)) (hold : ∀ o, old = some o → P o.attributes) : P v.attributes := by
  rcases h with hnew | ⟨o, ho, hkept⟩
  · rw [hnew]
    exact hgiven
  · rw [hkept]
    exact hold o ho

/-- Data that are stored or appended leave a variable. -/
theorem VariableDriver.update_leaves {n : Nat} {vars' : Variables} (h : driver.update n vars u = some (.success, vars'))
    (hdata : u.data ≠ []) (hstays : ¬u.Deletes) : ∃ v, vars' u.key = some v ∧ u.Labels (vars u.key) v := by
  by_cases happend : hasAny u.attributes appendWrite = true
  · cases hthere : vars u.key with
    | none =>
      obtain ⟨v, hv, -, hlabels⟩ := driver.update_stores h hdata hstays (.inr hthere)
      exact ⟨v, hv, hthere ▸ hlabels⟩
    | some old =>
      obtain ⟨v, hv, -, hlabels, -⟩ := driver.update_appends h hthere hstays happend
      exact ⟨v, hv, hthere ▸ hlabels⟩
  · obtain ⟨v, hv, -, hlabels⟩ := driver.update_stores h hdata hstays (.inl (by simpa using happend))
    exact ⟨v, hv, hlabels⟩

end Changes

/-! ## A driver that fails nothing -/

/-- The time stamp that is stored. -/
def referenceStamp (old : Option AuthVariable) (u : VariableUpdate) : EfiTime :=
  match u.timeStamp with
  | none => .zero
  | some t =>
    if !hasAny u.attributes timeBasedAuthenticatedWriteAccess then .zero
    else if !hasAny u.attributes appendWrite then t
    else
      match old with
      | none => .zero
      | some o => if authServiceInternalCompareTimeStamp o.timeStamp t then t else o.timeStamp

/-- An update of a driver that has room for everything. -/
def referenceUpdate (vars : Variables) (u : VariableUpdate) : AuthStatus × Variables :=
  let store := fun data => (AuthStatus.success,
    Function.update vars u.key (some ⟨data, u.attributes &&& ~~~appendWrite, referenceStamp (vars u.key) u⟩))
  match vars u.key with
  | none =>
    if u.data = [] ∧ hasAny u.attributes appendWrite then (.success, vars)
    else if u.data = [] ∨ u.Deletes then (.notFound, vars)
    else store u.data
  | some old =>
    if u.Deletes then (.success, Function.update vars u.key none)
    else if hasAny u.attributes appendWrite then store (old.data ++ u.data)
    else if old.data = u.data ∧ u.timeStamp = none then (.success, vars)
    else store u.data

def referenceAccepts (vars : Variables) (key : VariableKey) (attributes : BitVec 32) : Bool :=
  (vars key).all fun v => attributes = 0 ∨ attributes &&& ~~~appendWrite = v.attributes

/-- Volatile variables are lost. -/
def keepNonVolatile (vars : Variables) : Variables := fun key => (vars key).filter fun v => hasAny v.attributes nonVolatile

section Reference

variable {vars vars' : Variables} {u : VariableUpdate} {status : AuthStatus} {key : VariableKey} {old v : AuthVariable}
  {attributes : BitVec 32}

theorem referenceUpdate_other (h : some (referenceUpdate vars u) = some (status, vars')) (hkey : key ≠ u.key) :
    vars' key = vars key := by
  obtain rfl : (referenceUpdate vars u).2 = vars' := congrArg Prod.snd (Option.some.inj h)
  unfold referenceUpdate
  cases vars u.key <;> dsimp only <;> split_ifs <;> simp [Function.update_of_ne hkey]

theorem referenceUpdate_fails (h : some (referenceUpdate vars u) = some (status, vars'))
    (hfails : status ≠ .success) : vars' = vars := by
  obtain rfl : (referenceUpdate vars u).1 = status := congrArg Prod.fst (Option.some.inj h)
  obtain rfl : (referenceUpdate vars u).2 = vars' := congrArg Prod.snd (Option.some.inj h)
  revert hfails
  unfold referenceUpdate
  cases vars u.key <;> dsimp only <;> split_ifs <;> simp

theorem referenceUpdate_deletes (h : some (referenceUpdate vars u) = some (.success, vars'))
    (hsome : ¬(u.data = [] ∧ hasAny u.attributes appendWrite = true)) (hdeletes : u.Deletes) :
    (vars u.key).isSome = true ∧ vars' u.key = none := by
  have hupdate := Option.some.inj h
  unfold referenceUpdate at hupdate
  cases hv : vars u.key with
  | none =>
    simp only [hv] at hupdate
    rw [if_neg hsome, if_pos (.inr hdeletes)] at hupdate
    simp at hupdate
  | some old =>
    simp only [hv, if_pos hdeletes] at hupdate
    rw [← (Prod.mk.inj hupdate).2]
    exact ⟨rfl, Function.update_self ..⟩

theorem referenceUpdate_stores (h : some (referenceUpdate vars u) = some (.success, vars')) (hdata : u.data ≠ [])
    (hstays : ¬u.Deletes)
    (happend : hasAny u.attributes appendWrite = false ∨ vars u.key = none) :
    ∃ v, vars' u.key = some v ∧ v.data = u.data ∧ u.Labels (vars u.key) v := by
  have hupdate := Option.some.inj h
  unfold referenceUpdate at hupdate
  cases hv : vars u.key with
  | none =>
    simp only [hv] at hupdate
    rw [if_neg fun h => hdata h.1, if_neg (not_or.2 ⟨hdata, hstays⟩)] at hupdate
    rw [← (Prod.mk.inj hupdate).2]
    exact ⟨_, Function.update_self .., rfl, .inl rfl⟩
  | some old =>
    have hnot : hasAny u.attributes appendWrite = false := happend.resolve_right (by simp [hv])
    simp only [hv, if_neg hstays, hnot, Bool.false_eq_true, if_false] at hupdate
    split_ifs at hupdate with hsame
    · rw [← (Prod.mk.inj hupdate).2]
      exact ⟨old, hv, hsame.1, .inr ⟨old, rfl, rfl⟩⟩
    · rw [← (Prod.mk.inj hupdate).2]
      exact ⟨_, Function.update_self .., rfl, .inl rfl⟩

theorem referenceUpdate_appends (h : some (referenceUpdate vars u) = some (.success, vars'))
    (hv : vars u.key = some old) (hstays : ¬u.Deletes)
    (happend : hasAny u.attributes appendWrite = true) :
    ∃ v, vars' u.key = some v ∧ v.data = old.data ++ u.data ∧ u.Labels (vars u.key) v ∧
      ∀ t, hasAny u.attributes timeBasedAuthenticatedWriteAccess = true → u.timeStamp = some t →
        v.timeStamp = if authServiceInternalCompareTimeStamp old.timeStamp t then t else old.timeStamp := by
  have hupdate := Option.some.inj h
  unfold referenceUpdate at hupdate
  simp only [hv, if_neg hstays, happend, if_true] at hupdate
  rw [← (Prod.mk.inj hupdate).2]
  refine ⟨_, Function.update_self .., rfl, .inl rfl, fun t htime ht => ?_⟩
  simp [referenceStamp, ht, htime, happend]

theorem referenceAccepts_attributes (h : referenceAccepts vars key attributes = true) (hv : vars key = some v)
    (hattributes : attributes ≠ 0) :
    attributes &&& ~~~appendWrite = v.attributes := by
  rw [referenceAccepts, hv, Option.all_some, decide_eq_true_eq] at h
  exact h.resolve_left hattributes

theorem keepNonVolatile_eq_some_iff :
    keepNonVolatile vars key = some v ↔ vars key = some v ∧ hasAny v.attributes nonVolatile = true :=
  Option.filter_eq_some_iff

end Reference

def referenceDriver : VariableDriver where
  update _ vars u := some (referenceUpdate vars u)
  accepts := referenceAccepts
  restart := keepNonVolatile
  update_other := referenceUpdate_other
  update_fails := referenceUpdate_fails
  update_deletes := referenceUpdate_deletes
  update_stores := referenceUpdate_stores
  update_appends := referenceUpdate_appends
  accepts_attributes := referenceAccepts_attributes
  restart_eq_some_iff := keepNonVolatile_eq_some_iff

theorem referenceDriver_reliable : referenceDriver.Reliable := by
  intro n vars u status vars' h hpossible
  obtain rfl : (referenceUpdate vars u).1 = status := congrArg Prod.fst (Option.some.inj h)
  unfold referenceUpdate
  cases hv : vars u.key with
  | none =>
    obtain ⟨hdata, haccess⟩ := hpossible.resolve_right (by simp [hv])
    dsimp only
    rw [if_neg fun h => hdata h.1, if_neg (by simp [hdata, haccess, VariableUpdate.Deletes])]
  | some old =>
    dsimp only
    split_ifs <;> rfl

end Andromeda
