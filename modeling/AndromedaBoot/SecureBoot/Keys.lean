import AndromedaBoot.SecureBoot.Frame

/-!
# The keys are protected

Once PK is enrolled, nothing that happens changes PK, KEK, db, dbx or dbt, other than a request signed with a key that is
trusted for it, a user who is present, or a policy engine that is turned off: through resets, power losses and failing
updates. At run time not even a signature helps.
-/

namespace Andromeda

open PackedFields

section Protected

variable (platform : AuthPlatform)

/-- No user is present, and the policy engine is on. -/
def CallEnv.Unattended (env : CallEnv) : Prop := env.userPhysicalPresent = false ∧ env.variablePolicyEnabled = true

/-- The request is signed with the certificate of PK; for db, dbx and dbt one of KEK is as good. -/
def SetRequest.SignedFor (vars : Variables) (r : SetRequest) : Prop :=
  trustsPk platform ((vars pkKey).map (·.data)) r = true ∨
    r.key ∈ databaseKeys ∧ ∃ kek, (vars kekKey).map (·.data) = some kek ∧ trustsKek platform kek r = some true

/-- The event cannot change a key variable rightfully. -/
def Unauthorized (vars : Variables) : AuthEvent → Prop
  | .boot _ _ => True
  | .request env r => env.Unattended ∧ (env.atRuntime = true ∨ isKeyVariable r.key = false ∨ ¬r.SignedFor platform vars)

/-- PK is there, and the key variables are what they were. -/
structure KeysKept (vars : Variables) (s : AuthSystem) : Prop where
  keys : ∀ key, isKeyVariable key = true → s.vars key = vars key
  user : s.ready = true → s.platformMode = userMode

end Protected

section Proofs

variable {platform : AuthPlatform} {env : CallEnv} {r : SetRequest} {vars : Variables} {s s' : AuthState} {key : VariableKey}

/-- PK, KEK, db, dbx and dbt. -/
def keyVariables : List VariableKey := pkKey :: kekKey :: databaseKeys

theorem isKeyVariable_iff : isKeyVariable key = true ↔ key ∈ keyVariables := by
  simp [isKeyVariable, keyVariables]

theorem not_isLibraryKey (hkey : isKeyVariable key = true) : ¬IsLibraryKey key := by
  have hapart : ∀ key ∈ keyVariables, key ∉ [setupModeKey, signatureSupportKey, secureBootKey, secureBootEnableKey,
      customModeKey, vendorKeysNvKey, vendorKeysKey] ∧ ∀ nv, key ≠ certDbKey nv := by decide
  obtain ⟨hmem, hcertDb⟩ := hapart key (isKeyVariable_iff.1 hkey)
  rintro (⟨nv, h⟩ | h)
  · exact hcertDb nv h
  · exact hmem h

/-- Signatures that are not trusted are refused, and nothing changes. -/
theorem verifyAndUpdate_refuses (platform : AuthPlatform) (r : SetRequest) (s : AuthState) (type : AuthVarType)
    (henv : env.Unattended)
    (hrefuses : env.atRuntime = true ∨
      (verifySignature platform env r (s.vars r.key).isSome s type).1 ≠ .success ∧
        (verifySignature platform env r (s.vars r.key).isSome s type).2.vars = s.vars) :
    (verifyTimeBasedPayloadAndUpdate platform env r type s).1 ≠ .success ∧
      (verifyTimeBasedPayloadAndUpdate platform env r type s).2.2.vars = s.vars := by
  unfold verifyTimeBasedPayloadAndUpdate
  split_ifs with hruntime
  · exact ⟨by simp, rfl⟩
  obtain ⟨hfails, hsame⟩ := hrefuses.resolve_left hruntime
  have hpayload : (verifyTimeBasedPayload platform env r type ((s.vars r.key).map (·.timeStamp)) s).1 ≠ .success ∧
      (verifyTimeBasedPayload platform env r type ((s.vars r.key).map (·.timeStamp)) s).2.vars = s.vars := by
    unfold verifyTimeBasedPayload
    dsimp only
    rw [Option.isSome_map, henv.2]
    split_ifs
    · exact ⟨by simp, rfl⟩
    · exact ⟨by simp, rfl⟩
    · exact ⟨by simp, rfl⟩
    · exact ⟨by simp, rfl⟩
    · simp_all
    · exact ⟨by simp, rfl⟩
    · exact ⟨hfails, hsame⟩
  dsimp only
  rw [if_pos hpayload.1]
  exact hpayload

theorem verifySignature_pk_refuses {there : Bool} (h : trustsPk platform ((s.vars pkKey).map (·.data)) r = false) :
    (verifySignature platform env r there s .pk).1 ≠ .success ∧ (verifySignature platform env r there s .pk).2.vars = s.vars := by
  have hpk : trustsPk platform (authServiceInternalFindVariable pkKey s) r = false := h
  rw [verifySignature, hpk]
  exact ⟨by simp, rfl⟩

theorem verifySignature_kek_refuses {there : Bool}
    (h : ∀ kek, (s.vars kekKey).map (·.data) = some kek → trustsKek platform kek r ≠ some true) :
    (verifySignature platform env r there s .kek).1 ≠ .success ∧
    (verifySignature platform env r there s .kek).2.vars = s.vars := by
  have hfind : authServiceInternalFindVariable kekKey s = (s.vars kekKey).map (·.data) := rfl
  rw [verifySignature, hfind]
  cases hkek : (s.vars kekKey).map (·.data) with
  | none => exact ⟨by simp, rfl⟩
  | some kek =>
    dsimp only
    cases htrust : trustsKek platform kek r with
    | none => exact ⟨by simp, rfl⟩
    | some trusted =>
      cases trusted with
      | false => exact ⟨by simp, rfl⟩
      | true => exact absurd htrust (h kek hkek)

/-- In user mode, and with nobody there, a variable below PK is only set with its signature. -/
theorem processVarWithPk_refuses (platform : AuthPlatform) (isPk : Bool) (henv : env.Unattended)
    (huser : s.platformMode = userMode)
    (hsigned : env.atRuntime = true ∨ trustsPk platform ((s.vars pkKey).map (·.data)) r = false) :
    (processVarWithPk platform env r isPk s).1 ≠ .success ∧ (processVarWithPk platform env r isPk s).2.vars = s.vars ∧
      (processVarWithPk platform env r isPk s).2.platformMode = s.platformMode := by
  have hverify := verifyAndUpdate_refuses platform r s .pk henv
    (hsigned.imp_right verifySignature_pk_refuses)
  have hmode := (verifyAndUpdate_touches platform env r s .pk).platformMode
  have hstore : storeWithPk platform env r isPk s = verifyTimeBasedPayloadAndUpdate platform env r .pk s := by
    unfold storeWithPk
    dsimp only
    rw [henv.1, henv.2, huser, if_neg (by simp [userMode, setupMode]), if_pos rfl]
  unfold processVarWithPk
  split_ifs with hattributes
  · exact ⟨by simp, rfl, rfl⟩
  · rw [hstore]
    dsimp only
    rw [if_neg fun h => hverify.1 h.1]
    exact ⟨hverify.1, hverify.2, hmode⟩

theorem processVarWithKek_refuses (platform : AuthPlatform) (henv : env.Unattended) (huser : s.platformMode = userMode)
    (hsigned : env.atRuntime = true ∨ ∀ kek, (s.vars kekKey).map (·.data) = some kek → trustsKek platform kek r ≠ some true) :
    (processVarWithKek platform env r s).2.vars = s.vars ∧
      (processVarWithKek platform env r s).2.platformMode = s.platformMode := by
  have hverify := verifyAndUpdate_refuses platform r s .kek henv
    (hsigned.imp_right verifySignature_kek_refuses)
  have hmode := (verifyAndUpdate_touches platform env r s .kek).platformMode
  unfold processVarWithKek
  split_ifs with hattributes huserMode
  · exact ⟨rfl, rfl⟩
  · exact ⟨hverify.2, hmode⟩
  · exact absurd ⟨huser, by simp [henv.1]⟩ huserMode

/-- **One request** without authority changes no key variable. -/
theorem process_keepsKeys (huser : s.platformMode = userMode) (h : Unauthorized platform s.vars (.request env r)) :
    (∀ key, isKeyVariable key = true → (authVariableLibProcessVariable platform env r s).2.vars key = s.vars key) ∧
      (authVariableLibProcessVariable platform env r s).2.platformMode = userMode := by
  obtain ⟨henv, hauthority⟩ := h
  unfold authVariableLibProcessVariable
  by_cases hkey : isKeyVariable r.key = true
  · have hpk : env.atRuntime = true ∨ trustsPk platform ((s.vars pkKey).map (·.data)) r = false := by
      rcases hauthority with hruntime | hother | hunsigned
      · exact .inl hruntime
      · exact absurd (hkey.symm.trans hother) (by decide)
      · exact .inr (Bool.not_eq_true _ ▸ fun htrust => hunsigned (.inl htrust))
    have hrefuses := fun isPk => processVarWithPk_refuses platform isPk henv huser hpk
    split_ifs with hisPk hisKek hdatabase
    · exact ⟨fun key _ => congrFun (hrefuses true).2.1 key, (hrefuses true).2.2.trans huser⟩
    · exact ⟨fun key _ => congrFun (hrefuses false).2.1 key, (hrefuses false).2.2.trans huser⟩
    · dsimp only
      rw [if_pos (hrefuses false).1]
      obtain ⟨-, hvars, hmode⟩ := hrefuses false
      have hkek : env.atRuntime = true ∨ ∀ kek, ((processVarWithPk platform env r false s).2.vars kekKey).map (·.data) = some kek →
          trustsKek platform kek r ≠ some true := by
        rw [hvars]
        rcases hauthority with hruntime | hother | hunsigned
        · exact .inl hruntime
        · exact absurd (hkey.symm.trans hother) (by decide)
        · exact .inr fun kek hkek htrust => hunsigned (.inr ⟨hdatabase, kek, hkek, htrust⟩)
      have hrest := processVarWithKek_refuses platform henv (hmode.trans huser) hkek
      exact ⟨fun key _ => (congrFun hrest.1 key).trans (congrFun hvars key), hrest.2.trans (hmode.trans huser)⟩
    · have hmem := isKeyVariable_iff.1 hkey
      simp [keyVariables, hisPk, hisKek, hdatabase] at hmem
  · have htouches := processVariable_touches platform env r s
    have hnot : r.key ≠ pkKey ∧ r.key ≠ kekKey ∧ r.key ∉ databaseKeys := by
      simpa [isKeyVariable, not_or] using hkey
    rw [if_neg hnot.1, if_neg hnot.2.1, if_neg hnot.2.2]
    refine ⟨fun key hkey' => htouches.vars key ?_, htouches.platformMode.trans huser⟩
    rintro (rfl | hcertDb)
    · exact hkey hkey'
    · exact not_isLibraryKey hkey' (.inl hcertDb)

theorem keyVariable_pk : isKeyVariable pkKey = true := by decide

theorem keyVariable_kek : isKeyVariable kekKey = true := by decide

/-- **One step** without authority keeps the keys. -/
theorem KeysKept.step {s : AuthSystem} {event : AuthEvent} (h : KeysKept vars s) (hpk : (vars pkKey).isSome = true)
    (hnonVolatile : ∀ key v, isKeyVariable key = true → vars key = some v → hasAny v.attributes nonVolatile = true)
    (hevent : Unauthorized platform vars event) : KeysKept vars (authStep platform s event) := by
  cases event with
  | boot st rounds =>
    have hkept : ∀ key, isKeyVariable key = true → platform.driver.restart s.vars key = vars key := fun key hkey => by
      cases hv : vars key with
      | none => exact platform.driver.restart_eq_none ((h.keys key hkey).trans hv)
      | some v => exact platform.driver.restart_eq_some_iff.2 ⟨(h.keys key hkey).trans hv, hnonVolatile key v hkey hv⟩
    have hfind : (authServiceInternalFindVariable pkKey (s.reset platform)).isSome = true := by
      have hsome : (platform.driver.restart s.vars pkKey).isSome = true := by rw [hkept pkKey keyVariable_pk, hpk]
      exact (Option.isSome_map ..).trans hsome
    have htouches := initializeVariables_touches platform { s.reset platform with platformMode := userMode } st rounds
    have hstep : authVariableLibInitialize platform st rounds (s.reset platform) =
        initializeVariables platform st rounds { s.reset platform with platformMode := userMode } := by
      rw [authVariableLibInitialize, hfind]
      rfl
    refine ⟨fun key hkey => ?_, fun _ => ?_⟩
    · change (authVariableLibInitialize platform st rounds (s.reset platform)).2.vars key = _
      rw [hstep]
      exact (htouches.vars key (not_isLibraryKey hkey)).trans (hkept key hkey)
    · change (authVariableLibInitialize platform st rounds (s.reset platform)).2.platformMode = _
      rw [hstep]
      exact htouches.platformMode
  | request env r =>
    unfold authStep
    dsimp only
    split_ifs with hready
    · have hsame : Unauthorized platform s.vars (.request env r) := by
        refine ⟨hevent.1, hevent.2.imp_right fun h' => h'.imp_right fun hunsigned hsigned => hunsigned ?_⟩
        unfold SetRequest.SignedFor at hsigned ⊢
        rwa [h.keys pkKey keyVariable_pk, h.keys kekKey keyVariable_kek] at hsigned
      obtain ⟨hkeys, hmode⟩ := process_keepsKeys (s := s.toAuthState) (h.user hready.1) hsame
      exact ⟨fun key hkey => (hkeys key hkey).trans (h.keys key hkey), fun _ => hmode⟩
    · exact h

end Proofs

/-- **The keys are protected.** From any state with PK enrolled, over every run of boots, power losses, failing updates and
requests in which no request is authorized for the key variable it is about, PK, KEK, db, dbx and dbt stay what they are, and
the platform stays in user mode. -/
theorem runAuth_keeps_keys (platform : AuthPlatform) (s : AuthSystem) (hpk : (s.vars pkKey).isSome = true)
    (hnonVolatile : ∀ key v, isKeyVariable key = true → s.vars key = some v → hasAny v.attributes nonVolatile = true)
    (huser : s.ready = true → s.platformMode = userMode) (events : List AuthEvent)
    (hevents : ∀ event ∈ events, Unauthorized platform s.vars event) :
    KeysKept s.vars (runAuth platform s events) := by
  suffices h : ∀ t, KeysKept s.vars t → KeysKept s.vars (runAuth platform t events) from h s ⟨fun _ _ => rfl, huser⟩
  induction events with
  | nil => exact fun t ht => ht
  | cons event events ih =>
    intro t ht
    exact ih (fun event' hevent' => hevents event' (List.mem_cons_of_mem _ hevent')) _
      (ht.step hpk hnonVolatile (hevents event List.mem_cons_self))

/-! ## An unsigned request -/

theorem none_digest {hashAlgId : Nat} {d : List (BitVec 8)} (h : none = some d) : d.length = hashSize hashAlgId :=
  absurd h (by simp)

theorem maxCertDbSize_small : 0x10000 < 2 ^ 31 := by decide

/-- No signature is good there. -/
def unsignedPlatform : AuthPlatform where
  driver := referenceDriver
  crypto := ⟨⟨fun _ => none, fun _ => none, fun _ _ => none, none_digest⟩, fun _ => none, fun _ _ _ => false, fun _ => true⟩
  maxCertDbSize := 0x10000
  maxCertDbSize_lt := maxCertDbSize_small
  requireSelfSignedPk := false
  enforceSelfsignedPk := false

/-- A descriptor without a signature, and a byte behind it. -/
def unsignedData : List (BitVec 8) := leBytes 16 0 ++ (leBytes 4 24 ++ (leBytes 20 0 ++ [1]))

theorem pkKey_settable : 0 ∉ pkKey.name ∧ pkKey ∉ readOnlyKeys ∧ pkKey.name.length < 2 ^ 29 := by decide

theorem unsignedData_described (_ : hasAny 0x27 timeBasedAuthenticatedWriteAccess = true) :
    24 ≤ dwLength unsignedData ∧ authInfo2Size unsignedData ≤ unsignedData.length := by decide

def unsignedRequest : SetRequest :=
  ⟨pkKey, unsignedData, 0x27, pkKey_settable.1, pkKey_settable.2.1, pkKey_settable.2.2, unsignedData_described⟩

/-- Nobody is there, and the policy engine is on. -/
def unattendedEnv : CallEnv := ⟨false, false, true, true, []⟩

/-- There is a PK and nothing else. -/
def enrolledVars : Variables := Function.update (fun _ => none) pkKey (some ⟨[1], 0x27, .zero⟩)

theorem enrolledVars_attributes {key : VariableKey} {v : AuthVariable} (hv : enrolledVars key = some v) :
    v.attributes = 0x27 := by
  by_cases hkey : key = pkKey
  · rw [enrolledVars, hkey, Function.update_self] at hv
    rw [← Option.some.inj hv]
  · rw [enrolledVars, Function.update_of_ne hkey] at hv
    simp at hv

def enrolledSystem : AuthSystem := ⟨⟨enrolledVars, userMode, 0, 0, true⟩, true⟩

theorem runAuth_keeps_keys_unsigned : KeysKept enrolledVars
    (runAuth unsignedPlatform enrolledSystem [.boot ⟨none, none⟩ 4, .request unattendedEnv unsignedRequest]) := by
  refine runAuth_keeps_keys unsignedPlatform enrolledSystem (by decide) (fun key v _ hv => ?_) (fun _ => rfl) _
    fun event hevent => ?_
  · rw [enrolledVars_attributes hv]
    decide
  · simp only [List.mem_cons, List.not_mem_nil, or_false] at hevent
    rcases hevent with rfl | rfl
    · trivial
    · refine ⟨⟨rfl, rfl⟩, .inr (.inr ?_)⟩
      rintro (htrust | ⟨hdatabase, -⟩)
      · simp [trustsPk, unsignedPlatform] at htrust
      · exact absurd hdatabase (by decide)

end Andromeda
