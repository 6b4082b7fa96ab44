import AndromedaBoot.SecureBoot.Keys

/-!
# The mode of the platform

The platform is in user mode as long as PK is enrolled, and else in setup mode; "SetupMode" tells which. There is one request
that breaks this until the next boot: nothing appended to PK, taken without a signature. It counts as the deletion of PK, and
PK stays.
-/

namespace Andromeda

/-- Nothing is appended to PK. -/
def SetRequest.AppendsNothing (r : SetRequest) : Prop :=
  r.key = pkKey ∧ payload r.data = [] ∧ hasAny r.attributes appendWrite = true

/-- The mode is the one that PK gives. -/
def modeOf (vars : Variables) : BitVec 32 := if (vars pkKey).isSome then userMode else setupMode

/-- The mode is right, "SetupMode" says so, and PK can be accessed. -/
structure ModeHolds (s : AuthState) : Prop where
  mode : s.platformMode = modeOf s.vars
  setupMode : (s.vars setupModeKey).map (·.data) = some [s.platformMode.setWidth 8]
  access : ∀ v, s.vars pkKey = some v → hasAny v.attributes (bootserviceAccess ||| runtimeAccess) = true

section Update

variable {platform : AuthPlatform} {env : CallEnv} {r : SetRequest} {s : AuthState}

/-- A byte that was stored. -/
theorem setByte_data {key : VariableKey} {value : BitVec 8} {attributes : BitVec 32}
    (h : (setByte platform key (some value) attributes s).1 = .success)
    (hattributes : hasAny attributes (bootserviceAccess ||| runtimeAccess) = true ∧ hasAny attributes appendWrite = false) :
    ((setByte platform key (some value) attributes s).2.vars key).map (·.data) = some [value] := by
  let u : VariableUpdate := ⟨key, [value], attributes, none⟩
  have hstays : ¬u.Deletes := by simp [u, VariableUpdate.Deletes, hattributes.1]
  rcases updateVariable_cases platform.driver s u with ⟨hfails, -⟩ | ⟨-, hupdate⟩
  · exact absurd h hfails
  · obtain ⟨v, hv, hdata, -⟩ := platform.driver.update_stores hupdate (by simp [u]) hstays (.inl hattributes.2)
    exact Option.map_eq_some_iff.2 ⟨v, hv, hdata⟩

theorem vendorKeyIsModified_reliable (h : platform.driver.Reliable)
    (hrunning : (vendorKeyIsModified platform s).2.running = true) :
    (vendorKeyIsModified platform s).1 = .success := by
  unfold vendorKeyIsModified at hrunning ⊢
  dsimp only at hrunning ⊢
  split_ifs at hrunning ⊢ with hmodified hfails
  · rfl
  · exact updateVariable_reliable h (.inl ⟨by simp, by decide⟩) hrunning
  · have haccess : hasAny (runtimeAccess ||| bootserviceAccess) (bootserviceAccess ||| runtimeAccess) = true := by decide
    exact updateVariable_reliable h (.inl ⟨by simp, haccess⟩) hrunning

theorem hasAny_masked (attributes : BitVec 32) : hasAny (attributes &&& ~~~appendWrite) (bootserviceAccess ||| runtimeAccess) =
    hasAny attributes (bootserviceAccess ||| runtimeAccess) := by
  have hmask : ~~~appendWrite &&& (bootserviceAccess ||| runtimeAccess) = bootserviceAccess ||| runtimeAccess := by decide
  rw [hasAny, hasAny, BitVec.and_assoc, hmask]

/-- What becomes of a variable that can be accessed when data are stored in it, other than nothing that is appended. -/
theorem update_stored {driver : VariableDriver} {n : Nat} {vars vars' : Variables} {u : VariableUpdate}
    (h : driver.update n vars u = some (.success, vars'))
    (haccess : (vars u.key).isSome = true → hasAny u.attributes (bootserviceAccess ||| runtimeAccess) = true)
    (hold : ∀ v, vars u.key = some v → hasAny v.attributes (bootserviceAccess ||| runtimeAccess) = true)
    (hnothing : ¬(u.data = [] ∧ hasAny u.attributes appendWrite = true)) :
    (vars' u.key).isSome = !u.data.isEmpty ∧
      (∀ v, vars' u.key = some v → hasAny v.attributes (bootserviceAccess ||| runtimeAccess) = true) ∧
      ((vars u.key).isSome = false → u.data ≠ []) := by
  by_cases hdeletes : u.Deletes
  · obtain ⟨hthere, hgone⟩ := driver.update_deletes h hnothing hdeletes
    have hdata : u.data = [] := by
      rcases hdeletes with ⟨hdata, -⟩ | hdenied
      · exact hdata
      · exact absurd (hdenied.symm.trans (haccess hthere)) (by decide)
    rw [hgone, hdata]
    exact ⟨rfl, by simp, fun hnone => absurd (hnone.symm.trans hthere) (by decide)⟩
  · have hgiven : hasAny u.attributes (bootserviceAccess ||| runtimeAccess) = true := by
      simpa using (not_or.1 hdeletes).2
    have hdata : u.data ≠ [] := by
      intro hempty
      by_cases happend : hasAny u.attributes appendWrite = true
      · exact hnothing ⟨hempty, happend⟩
      · exact hdeletes (.inl ⟨hempty, by simpa using happend⟩)
    obtain ⟨v, hv, hlabels⟩ := driver.update_leaves h hdata hdeletes
    refine ⟨by rw [hv]; simp [hdata], fun v' hv' => ?_, fun _ => hdata⟩
    obtain rfl : v = v' := Option.some.inj (hv.symm.trans hv')
    refine hlabels.holds (hasAny · (bootserviceAccess ||| runtimeAccess) = true) ?_ hold
    rw [hasAny_masked, hgiven]

/-- A payload is stored in PK, or the call fails and PK stays; `del` says if PK is gone. -/
structure PkStored (s : AuthState) (status : AuthStatus) (del : Bool) (s' : AuthState) : Prop where
  platformMode : s'.platformMode = s.platformMode
  setupMode : s'.vars setupModeKey = s.vars setupModeKey
  fails : s'.running = true → status ≠ .success → s'.vars pkKey = s.vars pkKey
  stored : s'.running = true → status = .success → (s'.vars pkKey).isSome = !del
  access : ∀ v, s'.vars pkKey = some v → hasAny v.attributes (bootserviceAccess ||| runtimeAccess) = true

theorem updateWithTimeStamp_pk (env : CallEnv) (data : List (BitVec 8)) (attributes : BitVec 32) (timeStamp : EfiTime) :
    authServiceInternalUpdateVariableWithTimeStamp platform env pkKey data attributes timeStamp s =
      updateVariable platform.driver ⟨pkKey, data, attributes, some timeStamp⟩ s := by
  have hother : ¬(pkKey ∈ databaseKeys ∨ pkKey = kekKey) := by decide
  unfold authServiceInternalUpdateVariableWithTimeStamp
  dsimp only
  split
  · rfl
  · rw [if_neg fun h => hother h.2]

/-- The update of PK with the payload of a request. -/
theorem updatePk_stored (platform : AuthPlatform) (env : CallEnv) (hs : ModeHolds s) (hkey : r.key = pkKey)
    (hattributes : r.attributes ≠ 0)
    (haccepts : platform.driver.accepts s.vars r.key r.attributes = true) (hnothing : ¬r.AppendsNothing) {s₁ : AuthState}
    (hvars : s₁.vars = s.vars) (hmode : s₁.platformMode = s.platformMode) :
    let u := authServiceInternalUpdateVariableWithTimeStamp platform env r.key (payload r.data) r.attributes
      (descriptorTimeStamp r.data) s₁
    PkStored s u.1 (payload r.data).isEmpty u.2 ∧ (u.1 = .success → (s.vars pkKey).isSome = false → payload r.data ≠ []) := by
  intro u
  have hu : u = updateVariable platform.driver ⟨pkKey, payload r.data, r.attributes, some (descriptorTimeStamp r.data)⟩ s₁ := by
    rw [← updateWithTimeStamp_pk env, ← hkey]
  have haccess : (s₁.vars pkKey).isSome = true → hasAny r.attributes (bootserviceAccess ||| runtimeAccess) = true := by
    intro hsome
    obtain ⟨v, hv⟩ := Option.isSome_iff_exists.1 hsome
    rw [hvars] at hv
    rw [hkey] at haccepts
    rw [← hasAny_masked, platform.driver.accepts_attributes haccepts hv hattributes]
    exact hs.access v hv
  have htouches := updateVariable_touches platform.driver s₁
    ⟨pkKey, payload r.data, r.attributes, some (descriptorTimeStamp r.data)⟩
  have hsetup : setupModeKey ≠ pkKey := by decide
  rw [← hu] at htouches
  have hmode' : u.2.platformMode = s.platformMode := htouches.platformMode.trans hmode
  have hsetup' : u.2.vars setupModeKey = s.vars setupModeKey := (htouches.vars setupModeKey hsetup).trans (congrFun hvars _)
  rcases updateVariable_cases platform.driver s₁
    ⟨pkKey, payload r.data, r.attributes, some (descriptorTimeStamp r.data)⟩ with ⟨hfails, hsame⟩ | ⟨hsuccess, hupdate⟩
  · rw [← hu] at hfails hsame
    have hpk : u.2.vars pkKey = s.vars pkKey := congrFun (hsame.trans hvars) _
    exact ⟨⟨hmode', hsetup', fun _ _ => hpk, fun _ h => absurd h hfails, fun v hv => hs.access v (hpk ▸ hv)⟩,
      fun h => absurd h hfails⟩
  · rw [← hu] at hsuccess hupdate
    have hold : ∀ v, s₁.vars pkKey = some v → hasAny v.attributes (bootserviceAccess ||| runtimeAccess) = true :=
      fun v hv => hs.access v (hvars ▸ hv)
    obtain ⟨hstored, haccess', hdata⟩ := update_stored hupdate haccess hold fun h => hnothing ⟨hkey, h⟩
    exact ⟨⟨hmode', hsetup', fun _ h => absurd hsuccess h, fun _ _ => hstored, haccess'⟩,
      fun _ hnone => hdata (by rw [hvars]; exact hnone)⟩

/-- What touches neither PK nor "SetupMode" changes nothing about it. -/
theorem PkStored.touch {status : AuthStatus} {del : Bool} {s₁ s₂ : AuthState} {K : VariableKey → Prop}
    (h : PkStored s status del s₁)
    (htouches : Touches K s₁ s₂) (hpk : ¬K pkKey) (hsetup : ¬K setupModeKey) (hrunning : s₂.running = true → s₁.running = true) :
    PkStored s status del s₂ where
  platformMode := htouches.platformMode.trans h.platformMode
  setupMode := (htouches.vars _ hsetup).trans h.setupMode
  fails := fun hon hfails => (htouches.vars _ hpk).trans (h.fails (hrunning hon) hfails)
  stored := fun hon hsuccess => by rw [htouches.vars _ hpk, h.stored (hrunning hon) hsuccess]
  access := fun v hv => h.access v (by rwa [htouches.vars _ hpk] at hv)

/-- Nothing is stored. -/
theorem PkStored.refused {status : AuthStatus} {del : Bool} {s' : AuthState} (hs : ModeHolds s) (hvars : s'.vars = s.vars)
    (hmode : s'.platformMode = s.platformMode) (hfails : status ≠ .success) : PkStored s status del s' where
  platformMode := hmode
  setupMode := congrFun hvars _
  fails := fun _ _ => congrFun hvars _
  stored := fun _ h => absurd h hfails
  access := fun v hv => hs.access v (by rwa [hvars] at hv)

theorem updateVariable_running {driver : VariableDriver} {u : VariableUpdate}
    (h : (updateVariable driver u s).2.running = true) : s.running = true := by
  by_contra hoff
  rw [updateVariable, if_pos (by simpa using hoff)] at h
  exact hoff h

theorem setByte_running {key : VariableKey} {value : Option (BitVec 8)} {attributes : BitVec 32}
    (h : (setByte platform key value attributes s).2.running = true) : s.running = true := updateVariable_running h

theorem vendorKeyIsModified_running (h : (vendorKeyIsModified platform s).2.running = true) : s.running = true := by
  unfold vendorKeyIsModified at h
  dsimp only at h
  split_ifs at h
  · exact h
  · exact updateVariable_running (s := { s with vendorKeyState := vendorKeysModified }) h
  · exact updateVariable_running (s := { s with vendorKeyState := vendorKeysModified }) (updateVariable_running h)

/-- `storeUnverified` for PK. -/
theorem storeUnverified_stored (platform : AuthPlatform) (env : CallEnv) (hs : ModeHolds s) (hkey : r.key = pkKey)
    (hattributes : r.attributes ≠ 0)
    (haccepts : platform.driver.accepts s.vars r.key r.attributes = true) (hnothing : ¬r.AppendsNothing) :
    PkStored s (storeUnverified platform env r s).1 (payload r.data).isEmpty (storeUnverified platform env r s).2 := by
  have hcheck := checkPayload_touches platform env r s fun _ => False
  have hvars : (checkPayload platform env r s).2.vars = s.vars := funext fun key => hcheck.vars key id
  unfold storeUnverified
  dsimp only
  split_ifs with hfails
  · exact .refused hs hvars hcheck.platformMode hfails
  · exact (updatePk_stored _ _ hs hkey hattributes haccepts hnothing hvars hcheck.platformMode).1

/-- `verifyTimeBasedPayloadAndUpdate` for PK. -/
theorem verifyAndUpdate_stored {type : AuthVarType} (htype : type ≠ .priv) (hs : ModeHolds s) (hkey : r.key = pkKey)
    (hattributes : r.attributes ≠ 0) (haccepts : platform.driver.accepts s.vars r.key r.attributes = true)
    (hnothing : ¬r.AppendsNothing) :
    let t := verifyTimeBasedPayloadAndUpdate platform env r type s
    PkStored s t.1 t.2.1 t.2.2 := by
  have hverify := verifyTimeBasedPayload_touches platform env r s type
    ((s.vars r.key).map (·.timeStamp))
  have hvars := funext fun key => hverify.vars key fun h => htype h.1
  unfold verifyTimeBasedPayloadAndUpdate
  split_ifs
  · exact .refused hs rfl rfl (by simp)
  · dsimp only
    split_ifs with hfails hpriv
    · exact .refused hs hvars hverify.platformMode hfails
    · exact absurd hpriv.2.1 htype
    · obtain ⟨hstored, hnone⟩ := updatePk_stored platform env hs hkey hattributes haccepts hnothing hvars
        hverify.platformMode
      refine ⟨hstored.platformMode, hstored.setupMode, hstored.fails, fun hon hsuccess => ?_, hstored.access⟩
      dsimp only at hsuccess
      rw [hstored.stored hon hsuccess, Bool.not_inj_iff]
      -- something is appended, and where there was no PK something is stored
      have hsome := hnone hsuccess
      by_cases hdata : payload r.data = []
      · have happend : hasAny r.attributes appendWrite = false := Bool.eq_false_iff.2 fun h => hnothing ⟨hkey, hdata, h⟩
        have hthere : (s.vars r.key).isSome = true := by
          rw [hkey]
          exact Bool.not_eq_false _ ▸ fun h => hsome h hdata
        rw [hdata] at hsuccess
        simp [hdata, happend, hthere, hsuccess]
      · simp [hdata]

/-- **Setting PK**: `ProcessVarWithPk` up to the mode. -/
theorem storeWithPk_stored (env : CallEnv) (h : platform.driver.Reliable) (hs : ModeHolds s) (hkey : r.key = pkKey)
    (hattributes : r.attributes ≠ 0)
    (haccepts : platform.driver.accepts s.vars r.key r.attributes = true) (hnothing : ¬r.AppendsNothing) :
    let t := storeWithPk platform env r true s
    PkStored s t.1 t.2.1 t.2.2 := by
  have hempty : ∀ {status s'}, PkStored s status (payload r.data).isEmpty s' → PkStored s status (payload r.data = []) s' := by
    intro status s' hstored
    rwa [show decide (payload r.data = []) = (payload r.data).isEmpty from Bool.eq_iff_iff.2 (by simp)]
  have hunverified := storeUnverified_stored platform env hs hkey hattributes haccepts hnothing
  unfold storeWithPk
  dsimp only
  split_ifs with hfree hfails hmodified huser henrolls
  · exact hempty hunverified
  · have htouch := hunverified.touch (vendorKeyIsModified_touches platform _) (by decide) (by decide)
      vendorKeyIsModified_running
    refine hempty ⟨htouch.platformMode, htouch.setupMode, fun hon hfails' => ?_, fun hon _ => ?_, htouch.access⟩
    · exact absurd (vendorKeyIsModified_reliable h hon) hfails'
    · exact htouch.stored hon (not_not.1 hfails)
  · exact hempty hunverified
  · exact verifyAndUpdate_stored (by decide) hs hkey hattributes haccepts hnothing
  · -- there was no PK in setup mode
    obtain ⟨hstored, hnone⟩ := updatePk_stored platform env hs hkey hattributes haccepts hnothing
      (Eq.refl s.vars) (Eq.refl s.platformMode)
    refine ⟨hstored.platformMode, hstored.setupMode, hstored.fails, fun hon hsuccess => ?_, hstored.access⟩
    have hno : (s.vars pkKey).isSome = false := by
      by_contra hthere
      have hmode := hs.mode.symm.trans henrolls.2.1
      rw [modeOf, if_pos (Bool.not_eq_false _ ▸ hthere)] at hmode
      exact absurd hmode (by decide)
    rw [hstored.stored hon hsuccess]
    simpa using hnone hsuccess hno
  · exact verifyAndUpdate_stored (by decide) hs hkey hattributes haccepts hnothing

theorem modeOf_congr {vars vars' : Variables} (h : vars pkKey = vars' pkKey) : modeOf vars = modeOf vars' := by
  rw [modeOf, modeOf, h]

theorem modeOf_masked (vars : Variables) : modeOf vars &&& 0xFF = modeOf vars := by
  unfold modeOf
  split_ifs <;> decide

/-- What `ModeHolds` says of a state, for the mode that it is to have. -/
structure ModeFits (s : AuthState) : Prop where
  setupMode : ∃ value, (s.vars setupModeKey).map (·.data) = some [value]
  access : ∀ v, s.vars pkKey = some v → hasAny v.attributes (bootserviceAccess ||| runtimeAccess) = true

theorem ModeHolds.touch {s' : AuthState} {K : VariableKey → Prop} (h : ModeHolds s) (htouches : Touches K s s') (hpk : ¬K pkKey)
    (hsetup : ¬K setupModeKey) : ModeHolds s' where
  mode := by rw [htouches.platformMode, h.mode, modeOf_congr (htouches.vars _ hpk)]
  setupMode := by rw [htouches.platformMode, htouches.vars _ hsetup, h.setupMode]
  access := fun v hv => h.access v (by rwa [htouches.vars _ hpk] at hv)

/-- What `UpdatePlatformMode` changes before it turns to "SecureBoot". -/
def setMode (mode : BitVec 32) (s : AuthState) : AuthState :=
  pokeVariable setupModeKey (mode.setWidth 8) { s with platformMode := mode &&& 0xFF }

theorem setMode_vars (mode : BitVec 32) (s : AuthState) : (setMode mode s).vars = Function.update s.vars setupModeKey
    ((s.vars setupModeKey).map fun v => { v with data := v.data.set 0 (mode.setWidth 8) }) := rfl

theorem updatePlatformMode_running {mode : BitVec 32} (hrunning : (updatePlatformMode platform env mode s).2.running = true) :
    s.running = true := by
  by_contra hoff
  unfold updatePlatformMode at hrunning
  cases hdata : authServiceInternalFindVariable setupModeKey s with
  | none => exact hoff (by rwa [hdata] at hrunning)
  | some data =>
    rw [hdata] at hrunning
    dsimp only at hrunning
    rw [if_neg hoff] at hrunning
    split_ifs at hrunning
    · exact hoff hrunning
    · have hset := setByte_running hrunning
      exact hoff hset
    · have hset := setByte_running (setByte_running hrunning)
      exact hoff hset
    · have hset := setByte_running hrunning
      exact hoff hset
    · have hset := setByte_running hrunning
      exact hoff hset
    · have hset := setByte_running (setByte_running hrunning)
      exact hoff hset

theorem updatePlatformMode_touches (platform : AuthPlatform) (env : CallEnv) (mode : BitVec 32)
    (hthere : (authServiceInternalFindVariable setupModeKey s).isSome = true) :
    Touches (fun key => key = secureBootKey ∨ key = secureBootEnableKey)
      (if s.running then setMode mode s else { s with platformMode := mode &&& 0xFF })
      (updatePlatformMode platform env mode s).2 := by
  obtain ⟨data, hdata⟩ := Option.isSome_iff_exists.1 hthere
  have hboot : ∀ {value attributes s}, Touches (fun key => key = secureBootKey ∨ key = secureBootEnableKey) s
      (setByte platform secureBootKey value attributes s).2 := (setByte_touches ..).mono fun _ => .inl
  have henable : ∀ {value attributes s}, Touches (fun key => key = secureBootKey ∨ key = secureBootEnableKey) s
      (setByte platform secureBootEnableKey value attributes s).2 := (setByte_touches ..).mono fun _ => .inr
  have hset : (if s.running then setMode mode s else { s with platformMode := mode &&& 0xFF }) =
      if s.running then pokeVariable setupModeKey (mode.setWidth 8) { s with platformMode := mode &&& 0xFF }
      else { s with platformMode := mode &&& 0xFF } := rfl
  unfold updatePlatformMode
  rw [hdata, hset]
  dsimp only
  generalize (if s.running then pokeVariable setupModeKey (mode.setWidth 8) { s with platformMode := mode &&& 0xFF }
    else { s with platformMode := mode &&& 0xFF }) = s₁
  split_ifs
  · exact .refl _ _
  · exact hboot
  · exact hboot.trans henable
  · exact hboot
  · exact hboot
  · exact hboot.trans henable

/-- `UpdatePlatformMode` is not about PK. -/
theorem updatePlatformMode_pk {mode : BitVec 32} (hthere : (authServiceInternalFindVariable setupModeKey s).isSome = true) :
    (updatePlatformMode platform env mode s).2.vars pkKey = s.vars pkKey := by
  have hpk : pkKey ≠ setupModeKey := by decide
  rw [(updatePlatformMode_touches _ _ _ hthere).vars pkKey (by decide)]
  split_ifs
  · rw [setMode_vars, Function.update_of_ne hpk]
  · rfl

/-- `UpdatePlatformMode` makes the mode right. -/
theorem updatePlatformMode_holds {mode : BitVec 32} (hmode : mode = modeOf s.vars) (h : ModeFits s)
    (hrunning : (updatePlatformMode platform env mode s).2.running = true) :
    ModeHolds (updatePlatformMode platform env mode s).2 := by
  obtain ⟨value, hvalue⟩ := h.setupMode
  obtain ⟨v, hv, hdata⟩ := Option.map_eq_some_iff.1 hvalue
  have hpk : pkKey ≠ setupModeKey := by decide
  have hset : ModeHolds (setMode mode s) := by
    refine ⟨?_, ?_, fun v hv => h.access v ?_⟩
    · change mode &&& 0xFF = _
      rw [setMode_vars, hmode, modeOf_masked]
      exact modeOf_congr (Function.update_of_ne hpk ..).symm
    · change _ = some [(mode &&& 0xFF).setWidth 8]
      rw [setMode_vars, Function.update_self, hv, hmode, modeOf_masked]
      simp [hdata]
    · rwa [setMode_vars, Function.update_of_ne hpk] at hv
  have hfind : authServiceInternalFindVariable setupModeKey s = some [value] := hvalue
  have htouches := updatePlatformMode_touches (s := s) platform env mode (by rw [hfind]; rfl)
  rw [if_pos (updatePlatformMode_running hrunning)] at htouches
  exact hset.touch htouches (by decide) (by decide)

theorem keyAttributes_ne_zero {attributes : BitVec 32} (h : keyAttributes attributes = true) : attributes ≠ 0 := by
  rintro rfl
  exact absurd h (by decide)

/-- **One request about PK.** -/
theorem processVarWithPk_holds (h : platform.driver.Reliable) (hs : ModeHolds s) (hkey : r.key = pkKey)
    (haccepts : platform.driver.accepts s.vars r.key r.attributes = true) (hnothing : ¬r.AppendsNothing)
    (hrunning : (processVarWithPk platform env r true s).2.running = true) :
    ModeHolds (processVarWithPk platform env r true s).2 := by
  unfold processVarWithPk at hrunning ⊢
  split_ifs at hrunning ⊢ with hattributes
  · exact hs
  have hstored := storeWithPk_stored env h hs hkey (keyAttributes_ne_zero (by simpa using hattributes)) haccepts hnothing
  generalize storeWithPk platform env r true s = t at hstored hrunning ⊢
  obtain ⟨status, del, s'⟩ := t
  dsimp only at hstored hrunning ⊢
  have hfits : ModeFits s' := ⟨⟨_, by rw [hstored.setupMode, hs.setupMode]⟩, hstored.access⟩
  have hsetup : (s'.vars setupModeKey).map (·.data) = some [s'.platformMode.setWidth 8] := by
    rw [hstored.setupMode, hstored.platformMode, hs.setupMode]
  have hpk := hstored.stored
  split_ifs at hrunning ⊢ with hsuccess henrolled hdeleted
  · have hdel : del = false := by simpa using henrolled.2
    refine updatePlatformMode_holds ?_ hfits hrunning
    rw [modeOf, hpk (updatePlatformMode_running hrunning) hsuccess.1, hdel]
    rfl
  · have hdel : del = true := hdeleted.2
    refine updatePlatformMode_holds ?_ hfits hrunning
    rw [modeOf, hpk (updatePlatformMode_running hrunning) hsuccess.1, hdel]
    rfl
  · refine ⟨?_, hsetup, hstored.access⟩
    have hmode : s'.platformMode = userMode ∨ s'.platformMode = setupMode := by
      rw [hstored.platformMode, hs.mode, modeOf]
      split_ifs
      · exact .inl rfl
      · exact .inr rfl
    rw [modeOf, hpk hrunning hsuccess.1]
    rcases hmode with hmode | hmode
    · have hdel : del = false := by simpa [hmode] using hdeleted
      rw [hmode, hdel]
      rfl
    · have hdel : del = true := by simpa [hmode] using henrolled
      rw [hmode, hdel]
      rfl
  · have hfails : status ≠ .success := fun h => hsuccess ⟨h, rfl⟩
    refine ⟨?_, hsetup, hstored.access⟩
    rw [hstored.platformMode, hs.mode, modeOf_congr (hstored.fails hrunning hfails)]

theorem processVarWithPk_access (h : platform.driver.Reliable) (hs : ModeHolds s) (hkey : r.key = pkKey)
    (haccepts : platform.driver.accepts s.vars r.key r.attributes = true) (hnothing : ¬r.AppendsNothing) (v : AuthVariable)
    (hv : (processVarWithPk platform env r true s).2.vars pkKey = some v) :
    hasAny v.attributes (bootserviceAccess ||| runtimeAccess) = true := by
  unfold processVarWithPk at hv
  split_ifs at hv with hattributes
  · exact hs.access v hv
  have hstored := storeWithPk_stored env h hs hkey (keyAttributes_ne_zero (by simpa using hattributes)) haccepts hnothing
  generalize storeWithPk platform env r true s = t at hstored hv
  obtain ⟨status, del, s'⟩ := t
  dsimp only at hstored hv
  have hthere : (authServiceInternalFindVariable setupModeKey s').isSome = true := by
    rw [authServiceInternalFindVariable, hstored.setupMode, hs.setupMode]
    rfl
  split_ifs at hv
  · exact hstored.access v (by rwa [updatePlatformMode_pk hthere] at hv)
  · exact hstored.access v (by rwa [updatePlatformMode_pk hthere] at hv)
  · exact hstored.access v hv
  · exact hstored.access v hv

/-! ## Other requests -/

theorem storeWithPk_touches (platform : AuthPlatform) (env : CallEnv) (r : SetRequest) (s : AuthState) (isPk : Bool) :
    Touches (fun key => key = r.key ∨ key ∈ [vendorKeysNvKey, vendorKeysKey]) s
    (storeWithPk platform env r isPk s).2.2 := by
  have hstore :
      Touches (fun key => key = r.key ∨ key ∈ [vendorKeysNvKey, vendorKeysKey]) s (storeUnverified platform env r s).2 :=
    (storeUnverified_touches ..).mono fun _ => .inl
  have hverify : ∀ type, type ≠ .priv → Touches (fun key => key = r.key ∨ key ∈ [vendorKeysNvKey, vendorKeysKey]) s
      (verifyTimeBasedPayloadAndUpdate platform env r type s).2.2 := fun type htype =>
    (verifyAndUpdate_touches ..).mono fun key hkey => .inl (hkey.resolve_right fun h => htype h.1)
  unfold storeWithPk
  dsimp only
  split_ifs
  · exact hstore
  · exact hstore.trans ((vendorKeyIsModified_touches ..).mono fun key hkey => .inr (by simpa using hkey))
  · exact hstore
  · exact hverify .pk (by decide)
  · exact (updateWithTimeStamp_touches ..).mono fun _ => .inl
  · exact hverify .payload (by decide)

theorem processVarWithKek_touches : Touches (fun key => key = r.key ∨ key ∈ [vendorKeysNvKey, vendorKeysKey]) s
    (processVarWithKek platform env r s).2 := by
  have hstore :
      Touches (fun key => key = r.key ∨ key ∈ [vendorKeysNvKey, vendorKeysKey]) s (storeUnverified platform env r s).2 :=
    (storeUnverified_touches ..).mono fun _ => .inl
  unfold processVarWithKek
  dsimp only
  split_ifs
  · exact .refl _ _
  · exact (verifyAndUpdate_touches ..).mono fun key hkey => .inl (hkey.resolve_right fun h => absurd h.1 (by decide))
  · exact hstore
  · exact hstore.trans ((vendorKeyIsModified_touches ..).mono fun key hkey => .inr (by simpa using hkey))
  · exact hstore

/-- A variable other than PK. -/
theorem process_touches (platform : AuthPlatform) (env : CallEnv) (s : AuthState) (hpk : r.key ≠ pkKey) :
    Touches (fun key => key = r.key ∨ IsCertDb key ∨ key ∈ [vendorKeysNvKey, vendorKeysKey]) s
    (authVariableLibProcessVariable platform env r s).2 := by
  have hstore : Touches (fun key => key = r.key ∨ IsCertDb key ∨ key ∈ [vendorKeysNvKey, vendorKeysKey]) s
      (processVarWithPk platform env r false s).2 := by
    unfold processVarWithPk
    split_ifs
    · exact .refl _ _
    · have htouches := storeWithPk_touches platform env r s false
      generalize storeWithPk platform env r false s = t at htouches ⊢
      obtain ⟨status, del, s'⟩ := t
      dsimp only
      rw [if_neg fun h => h.2.elim]
      exact htouches.mono fun key hkey => hkey.imp_right .inr
  unfold authVariableLibProcessVariable
  rw [if_neg hpk]
  split_ifs
  · exact hstore
  · dsimp only
    split_ifs
    · exact hstore.trans ((processVarWithKek_touches ..).mono fun key hkey => hkey.imp_right .inr)
    · exact hstore
  · exact (processVariable_touches ..).mono fun key hkey => hkey.imp_right .inl

end Update

/-! ## Runs -/

section Runs

variable {platform : AuthPlatform}

/-- While the library is in use its mode is right; and PK can be accessed, if it is there. -/
structure ModeKept (s : AuthSystem) : Prop where
  holds : s.ready = true → s.running = true → ModeHolds s.toAuthState
  access : ∀ v, s.vars pkKey = some v → hasAny v.attributes (bootserviceAccess ||| runtimeAccess) = true

theorem not_isOtherKey : ¬IsOtherKey pkKey ∧ ¬IsOtherKey setupModeKey := by
  unfold IsOtherKey IsCertDb
  decide

theorem authVariableLibInitialize_eq (st : BootConfig) (rounds : Nat) (s : AuthState) :
    authVariableLibInitialize platform st rounds s =
    initializeVariables platform st rounds { s with platformMode := modeOf s.vars } := by
  have hmode : (if (authServiceInternalFindVariable pkKey s).isSome then userMode else setupMode) = modeOf s.vars := by
    rw [modeOf, authServiceInternalFindVariable, Option.isSome_map]
  rw [authVariableLibInitialize, hmode]

/-- The boot. -/
theorem initialize_holds (st : BootConfig) (rounds : Nat) {s : AuthState}
    (haccess : ∀ v, s.vars pkKey = some v → hasAny v.attributes (bootserviceAccess ||| runtimeAccess) = true)
    (hsuccess : (authVariableLibInitialize platform st rounds s).1 = .success) :
    ModeHolds (authVariableLibInitialize platform st rounds s).2 := by
  have hpk : pkKey ≠ setupModeKey := by decide
  rw [authVariableLibInitialize_eq] at hsuccess ⊢
  unfold initializeVariables at hsuccess ⊢
  obtain ⟨hset, hrest⟩ := andThen_success hsuccess
  rw [hrest]
  refine ModeHolds.touch ?_ (initializeOthers_touches ..) not_isOtherKey.1 not_isOtherKey.2
  have htouches := setByte_touches platform { s with platformMode := modeOf s.vars } setupModeKey
    (some ((modeOf s.vars).setWidth 8)) (bootserviceAccess ||| runtimeAccess)
  refine ⟨?_, ?_, fun v hv => haccess v ?_⟩
  · exact htouches.platformMode.trans (modeOf_congr (htouches.vars pkKey hpk).symm)
  · rw [htouches.platformMode]
    exact setByte_data hset (by decide)
  · rwa [htouches.vars pkKey hpk] at hv

theorem ModeKept.step {s : AuthSystem} {event : AuthEvent} (h : platform.driver.Reliable) (hs : ModeKept s)
    (hevent : ∀ env r, event = .request env r → ¬r.AppendsNothing) : ModeKept (authStep platform s event) := by
  cases event with
  | boot st rounds =>
    have haccess : ∀ v, (s.reset platform).vars pkKey = some v →
        hasAny v.attributes (bootserviceAccess ||| runtimeAccess) = true := by
      intro v hv
      exact hs.access v (platform.driver.restart_eq_some_iff.1 hv).1
    have hpk : (authVariableLibInitialize platform st rounds (s.reset platform)).2.vars pkKey = (s.reset platform).vars pkKey :=
      (initializeVariables_touches ..).vars pkKey (not_isLibraryKey keyVariable_pk)
    refine ⟨fun hready _ => initialize_holds st rounds haccess (by simpa [authStep] using hready), fun v hv => haccess v ?_⟩
    rwa [← hpk]
  | request env r =>
    have hnothing := hevent env r rfl
    unfold authStep
    dsimp only
    split_ifs with huse
    · obtain ⟨hready, hrunning, haccepts⟩ := huse
      have hholds := hs.holds hready hrunning
      by_cases hkey : r.key = pkKey
      · have hprocess : authVariableLibProcessVariable platform env r s.toAuthState =
            processVarWithPk platform env r true s.toAuthState :=
          if_pos hkey
        rw [hprocess]
        exact ⟨fun _ hon => processVarWithPk_holds h hholds hkey haccepts hnothing hon,
          processVarWithPk_access h hholds hkey haccepts hnothing⟩
      · have htouches := process_touches platform env s.toAuthState hkey
        have hsetup : setupModeKey ≠ r.key := fun heq => r.writable (by rw [← heq]; decide)
        have hpk' : ¬(pkKey = r.key ∨ IsCertDb pkKey ∨ pkKey ∈ [vendorKeysNvKey, vendorKeysKey]) := by
          rintro (heq | hcertDb | hmem)
          · exact hkey heq.symm
          · exact not_isOtherKey.1 (.inl hcertDb)
          · exact absurd hmem (by decide)
        have hsetup' : ¬(setupModeKey = r.key ∨ IsCertDb setupModeKey ∨ setupModeKey ∈ [vendorKeysNvKey, vendorKeysKey]) := by
          rintro (heq | hcertDb | hmem)
          · exact hsetup heq
          · exact not_isOtherKey.2 (.inl hcertDb)
          · exact absurd hmem (by decide)
        exact ⟨fun _ _ => hholds.touch htouches hpk' hsetup', fun v hv => hs.access v (htouches.vars pkKey hpk' ▸ hv)⟩
    · exact hs

theorem ModeKept.run (h : platform.driver.Reliable) {events : List AuthEvent}
    (hevents : ∀ env r, .request env r ∈ events → ¬r.AppendsNothing) {s : AuthSystem} (hs : ModeKept s) :
    ModeKept (runAuth platform s events) := by
  induction events generalizing s with
  | nil => exact hs
  | cons event events ih =>
    refine ih (fun env r hmem => hevents env r (List.mem_cons_of_mem _ hmem)) (hs.step h fun env r heq => ?_)
    exact hevents env r (heq ▸ List.mem_cons_self)

end Runs

/-- **The mode follows PK.** Take a driver that fails no update, and any run of boots, power losses and requests in which
nothing is never appended to PK. Whenever the library can be called, the platform is in user mode if PK is enrolled and in setup
mode if it is not, and "SetupMode" says which. -/
theorem runAuth_mode (platform : AuthPlatform) (h : platform.driver.Reliable) (s : AuthSystem) (hready : s.ready = false)
    (haccess : ∀ v, s.vars pkKey = some v → hasAny v.attributes (bootserviceAccess ||| runtimeAccess) = true)
    (events : List AuthEvent) (hevents : ∀ env r, .request env r ∈ events → ¬r.AppendsNothing) :
    let t := runAuth platform s events
    t.ready = true → t.running = true →
      t.platformMode = (if (t.vars pkKey).isSome then userMode else setupMode) ∧
        (t.vars setupModeKey).map (·.data) = some [if (t.vars pkKey).isSome then 0 else 1] := by
  intro t hready' hrunning
  have hstart : ModeKept s := ⟨fun hon => absurd (hready.symm.trans hon) (by decide), haccess⟩
  have hholds := (hstart.run h hevents).holds hready' hrunning
  refine ⟨hholds.mode, ?_⟩
  rw [hholds.setupMode, hholds.mode, modeOf]
  split_ifs <;> rfl

/-- Its boot configuration turns Secure Boot off. -/
def secureBootOffText : ConfigText := ⟨ascii "[AndromedaUefi]\nSecureBootEnabled=0\n", by decide, by decide, by decide⟩

/-- Before the first boot. -/
def enrolledFirmware : AuthSystem := ⟨⟨enrolledVars, 0, 0, 0, true⟩, false⟩

theorem runAuth_mode_unsigned :
    let t := runAuth unsignedPlatform enrolledFirmware [.boot secureBootOffText.installed 4, .request unattendedEnv unsignedRequest]
    t.platformMode = (if (t.vars pkKey).isSome then userMode else setupMode) ∧
      (t.vars setupModeKey).map (·.data) = some [if (t.vars pkKey).isSome then 0 else 1] := by
  refine runAuth_mode unsignedPlatform referenceDriver_reliable enrolledFirmware rfl (fun v hv => ?_) _ (fun env r hmem => ?_)
    (by decide +kernel) (by decide +kernel)
  · have hstored : enrolledVars pkKey = some v := hv
    rw [enrolledVars_attributes hstored]
    decide
  · rintro ⟨-, hpayload, -⟩
    simp only [List.mem_cons, List.not_mem_nil, or_false, reduceCtorEq, false_or, AuthEvent.request.injEq] at hmem
    rw [hmem.2] at hpayload
    exact absurd hpayload (by decide)

/-! ## What a boot decides -/

section Boot

variable {platform : AuthPlatform} {s : AuthState}

end Boot

end Andromeda
