import AndromedaBoot.SecureBoot.AuthService

/-!
# What each function leaves alone

`Touches K s s'` says that only variables in `K` changed on the way, and not the mode of the platform. Each function of the
library gets one such lemma, so that what is said about other variables does not open its definition.
-/

namespace Andromeda

open PackedFields

/-- Only variables in `K` changed, and no mode. -/
structure Touches (K : VariableKey → Prop) (s s' : AuthState) : Prop where
  vars : ∀ key, ¬K key → s'.vars key = s.vars key
  platformMode : s'.platformMode = s.platformMode

namespace Touches

variable {K L : VariableKey → Prop} {s s' s'' : AuthState}

theorem refl (K : VariableKey → Prop) (s : AuthState) : Touches K s s := ⟨fun _ _ => rfl, rfl⟩

theorem trans (h : Touches K s s') (h' : Touches K s' s'') : Touches K s s'' :=
  ⟨fun key hkey => (h'.vars key hkey).trans (h.vars key hkey), h'.platformMode.trans h.platformMode⟩

theorem mono (h : Touches K s s') (hKL : ∀ key, K key → L key) : Touches L s s' :=
  ⟨fun key hkey => h.vars key fun hK => hkey (hKL key hK), h.platformMode⟩

theorem stop (K : VariableKey → Prop) (s : AuthState) : Touches K s s.stop := ⟨fun _ _ => rfl, rfl⟩

end Touches

/-- One of the two databases. -/
def IsCertDb (key : VariableKey) : Prop := ∃ nv, key = certDbKey nv

/-- The variables that the library keeps for itself; some can be written by a user as well. -/
def IsLibraryKey (key : VariableKey) : Prop :=
  IsCertDb key ∨ key ∈ [setupModeKey, signatureSupportKey, secureBootKey, secureBootEnableKey, customModeKey, vendorKeysNvKey,
    vendorKeysKey]

section Frames

variable (driver : VariableDriver) (platform : AuthPlatform) (env : CallEnv) (r : SetRequest) (s : AuthState)
  {key : VariableKey} {nv : Bool}

theorem updateVariable_touches (u : VariableUpdate) : Touches (· = u.key) s (updateVariable driver u s).2 :=
  ⟨fun _ hkey => updateVariable_other hkey, updateVariable_platformMode⟩

theorem setByte_touches (key : VariableKey) (value : Option (BitVec 8)) (attributes : BitVec 32) :
    Touches (· = key) s (setByte platform key value attributes s).2 :=
  updateVariable_touches platform.driver s ⟨key, value.toList, attributes, none⟩

theorem getCertsFromDb_touches : Touches IsCertDb s (getCertsFromDb key nv s).2 := by
  unfold getCertsFromDb
  split
  · exact .refl _ _
  · split_ifs
    · exact .refl _ _
    · split
      · exact .stop _ _
      · exact .refl _ _
      · exact .refl _ _

theorem updateCertDb_touches (data : List (BitVec 8)) :
    Touches IsCertDb s (authServiceInternalUpdateVariable driver (certDbKey nv) data (certDbAttributes nv) s).2 :=
  (updateVariable_touches driver s ⟨certDbKey nv, data, certDbAttributes nv, none⟩).mono fun _ hkey => ⟨nv, hkey⟩

theorem deleteCertsFromDb_touches : Touches IsCertDb s (deleteCertsFromDb driver key nv s).2 := by
  unfold deleteCertsFromDb
  split
  · exact .refl _ _
  · split_ifs
    · exact .refl _ _
    · exact .refl _ _
    · split
      · exact .stop _ _
      · exact .refl _ _
      · split_ifs
        · exact .refl _ _
        · exact updateCertDb_touches ..

theorem insertCertsToDb_touches {crypto : CertCrypto} {maxCertDbSize hashAlgId : Nat}
    {signerCert topLevelCert : List (BitVec 8)} :
    Touches IsCertDb s (insertCertsToDb driver crypto maxCertDbSize hashAlgId key nv signerCert topLevelCert s).2 := by
  unfold insertCertsToDb
  split_ifs
  · exact .refl _ _
  · split
    · exact .refl _ _
    · split_ifs
      · exact .refl _ _
      · split
        · exact .stop _ _
        · exact .refl _ _
        · dsimp only
          split_ifs
          · exact .refl _ _
          · split
            · exact .refl _ _
            · exact updateCertDb_touches ..

theorem cleanCertsFromDb_touches (rounds : Nat) : Touches IsCertDb s (cleanCertsFromDb driver rounds s).2 := by
  induction rounds generalizing s with
  | zero => exact .stop _ _
  | succ rounds ih =>
    rw [cleanCertsFromDb]
    split
    · exact .refl _ _
    · split_ifs
      · exact .refl _ _
      · split
        · exact .stop _ _
        · exact .refl _ _
        · exact (deleteCertsFromDb_touches ..).trans (ih _)

theorem updateWithTimeStamp_touches (data : List (BitVec 8)) (attributes : BitVec 32) (timeStamp : EfiTime) :
    Touches (· = key) s (authServiceInternalUpdateVariableWithTimeStamp platform env key data attributes timeStamp s).2 := by
  have hupdate : ∀ data, Touches (· = key) s (updateVariable platform.driver ⟨key, data, attributes, some timeStamp⟩ s).2 :=
    fun data => updateVariable_touches platform.driver s ⟨key, data, attributes, some timeStamp⟩
  unfold authServiceInternalUpdateVariableWithTimeStamp
  split
  · exact hupdate _
  · split_ifs
    · split
      · exact .stop _ _
      · exact hupdate _
    · exact hupdate _

theorem checkPayload_touches (K : VariableKey → Prop) : Touches K s (checkPayload platform env r s).2 := by
  unfold checkPayload
  split
  · exact .stop _ _
  · exact .refl _ _

theorem verifyPriv_touches (there : Bool) : Touches IsCertDb s (verifyPriv platform r there s).2 := by
  unfold verifyPriv
  dsimp only
  split
  · exact .refl _ _
  · split_ifs
    · exact getCertsFromDb_touches ..
    · exact .refl _ _
    · exact insertCertsToDb_touches ..
    · exact .refl _ _

theorem verifySignature_touches (there : Bool) (type : AuthVarType) :
    Touches (fun key => type = .priv ∧ IsCertDb key) s (verifySignature platform env r there s type).2 := by
  unfold verifySignature
  cases type with
  | pk =>
    dsimp only
    split_ifs
    · exact checkPayload_touches ..
    · exact .refl _ _
  | kek =>
    dsimp only
    split
    · exact .refl _ _
    · split
      · exact .stop _ _
      · exact checkPayload_touches ..
      · exact .refl _ _
  | priv =>
    have hverify := (verifyPriv_touches platform r s there).mono
      (L := fun key => AuthVarType.priv = .priv ∧ IsCertDb key) fun _ hkey => ⟨rfl, hkey⟩
    dsimp only
    split_ifs
    · exact hverify.trans (checkPayload_touches ..)
    · exact hverify
  | payload =>
    dsimp only
    split_ifs
    · exact checkPayload_touches ..
    · exact .refl _ _

theorem verifyTimeBasedPayload_touches (type : AuthVarType) (org : Option EfiTime) :
    Touches (fun key => type = .priv ∧ IsCertDb key) s (verifyTimeBasedPayload platform env r type org s).2 := by
  unfold verifyTimeBasedPayload
  dsimp only
  split_ifs
  · exact .refl _ _
  · exact .refl _ _
  · exact .refl _ _
  · exact .refl _ _
  · exact checkPayload_touches ..
  · exact .refl _ _
  · exact verifySignature_touches ..

/-- The variable that is to be set, and for one that anyone may own also the databases. -/
theorem verifyAndUpdate_touches (type : AuthVarType) :
    Touches (fun key => key = r.key ∨ type = .priv ∧ IsCertDb key) s (verifyTimeBasedPayloadAndUpdate platform env r type s).2.2 := by
  have hverify := (verifyTimeBasedPayload_touches platform env r s type
    ((s.vars r.key).map (·.timeStamp))).mono (L := fun key => key = r.key ∨ type = .priv ∧ IsCertDb key) fun _ hkey => .inr hkey
  unfold verifyTimeBasedPayloadAndUpdate
  split_ifs
  · exact .refl _ _
  · dsimp only
    split_ifs with hfails hdel
    · exact hverify
    · refine (hverify.trans ((updateWithTimeStamp_touches ..).mono fun _ hkey => .inl hkey)).trans
        ((deleteCertsFromDb_touches ..).mono fun _ hkey => .inr ⟨hdel.2.1, hkey⟩)
    · exact hverify.trans ((updateWithTimeStamp_touches ..).mono fun _ hkey => .inl hkey)

theorem storeUnverified_touches : Touches (· = r.key) s (storeUnverified platform env r s).2 := by
  unfold storeUnverified
  dsimp only
  split_ifs
  · exact checkPayload_touches ..
  · exact (checkPayload_touches ..).trans (updateWithTimeStamp_touches ..)

theorem vendorKeyIsModified_touches :
    Touches (fun key => key = vendorKeysNvKey ∨ key = vendorKeysKey) s (vendorKeyIsModified platform s).2 := by
  unfold vendorKeyIsModified
  dsimp only
  split_ifs
  · exact .refl _ _
  · exact ⟨fun key hkey => (setByte_touches ..).vars key fun heq => hkey (.inl heq), (setByte_touches ..).platformMode⟩
  · refine ⟨fun key hkey => ?_, ?_⟩
    · exact ((setByte_touches ..).vars key fun heq => hkey (.inr heq)).trans
        ((setByte_touches ..).vars key fun heq => hkey (.inl heq))
    · exact (setByte_touches ..).platformMode.trans (setByte_touches ..).platformMode

theorem processVariable_touches : Touches (fun key => key = r.key ∨ IsCertDb key) s (processVariable platform env r s).2 := by
  unfold processVariable
  dsimp only
  have hupdate : ∀ data attributes, Touches (fun key => key = r.key ∨ IsCertDb key) s
      (authServiceInternalUpdateVariable platform.driver r.key data attributes s).2 :=
    fun data attributes => (updateVariable_touches platform.driver s ⟨r.key, data, attributes, none⟩).mono fun _ hkey => .inl hkey
  split_ifs
  · exact (hupdate _ _).trans ((deleteCertsFromDb_touches ..).mono fun _ hkey => .inr hkey)
  · exact hupdate _ _
  · exact .refl _ _
  · exact .refl _ _
  · refine (verifyAndUpdate_touches platform env r s .priv).mono fun key hkey => ?_
    rcases hkey with hkey | ⟨-, hkey⟩
    · exact .inl hkey
    · exact .inr hkey
  · exact .refl _ _
  · exact hupdate _ _

/-! ## Initialization -/

theorem andThen_touches {s : AuthState} {K : VariableKey → Prop} {x : AuthStatus × AuthState}
    {f : AuthState → AuthStatus × AuthState}
    (hx : Touches K s x.2) (hf : ∀ s', Touches K s' (f s').2) : Touches K s (andThen x f).2 := by
  unfold andThen
  split_ifs
  · exact hx
  · exact hx.trans (hf _)

theorem andThen_success {x : AuthStatus × AuthState} {f : AuthState → AuthStatus × AuthState} (h : (andThen x f).1 = .success) :
    x.1 = .success ∧ andThen x f = f x.2 := by
  unfold andThen at h ⊢
  split_ifs at h ⊢ with hfails
  · exact absurd h hfails
  · exact ⟨not_not.1 hfails, rfl⟩

/-- What is the library's but "SetupMode". -/
def IsOtherKey (key : VariableKey) : Prop :=
  IsCertDb key ∨ key ∈ [signatureSupportKey, secureBootKey, secureBootEnableKey, customModeKey, vendorKeysNvKey, vendorKeysKey]

theorem initializeSecureBoot_touches (st : BootConfig) :
    Touches (fun key => key = secureBootEnableKey ∨ key = secureBootKey) s (initializeSecureBoot platform st s).2 := by
  unfold initializeSecureBoot
  dsimp only
  refine andThen_touches ?_ fun s => (setByte_touches ..).mono fun _ heq => .inr heq
  by_cases hset : s.platformMode = userMode ∧ authServiceInternalFindVariable secureBootEnableKey s ≠
      some [if s.platformMode = userMode then getBootConfigSecureBootPolicy st else 0]
  · rw [if_pos hset]
    exact (setByte_touches ..).mono fun _ heq => .inl heq
  · rw [if_neg hset]
    exact .refl _ _

theorem initializeCertDb_touches (rounds : Nat) : Touches IsCertDb s (initializeCertDb platform rounds s).2 := by
  unfold initializeCertDb
  split
  · exact updateCertDb_touches ..
  · exact cleanCertsFromDb_touches ..

theorem initializeVendorKeys_touches :
    Touches (fun key => key = vendorKeysNvKey ∨ key = vendorKeysKey) s (initializeVendorKeys platform s).2 := by
  unfold initializeVendorKeys
  refine andThen_touches ?_ fun s => (setByte_touches ..).mono fun _ heq => .inr heq
  split
  · exact ⟨fun _ _ => rfl, rfl⟩
  · have hset := setByte_touches platform { s with vendorKeyState := vendorKeysValid } vendorKeysNvKey
      (some vendorKeysValid) (nonVolatile ||| bootserviceAccess ||| timeBasedAuthenticatedWriteAccess)
    exact ⟨fun key hkey => hset.vars key fun heq => hkey (.inl heq), hset.platformMode⟩

/-- What the initialization does behind "CustomMode". -/
theorem initializeStores_touches (rounds : Nat) :
    Touches (fun key => IsCertDb key ∨ key ∈ [vendorKeysNvKey, vendorKeysKey]) s
      (andThen (initializeCertDb platform rounds s) fun s =>
        andThen (authServiceInternalUpdateVariable platform.driver (certDbKey false) (leBytes 4 4) (certDbAttributes false) s)
          fun s => initializeVendorKeys platform s).2 := by
  refine andThen_touches ((initializeCertDb_touches ..).mono fun _ hkey => .inl hkey) fun s =>
    andThen_touches ((updateCertDb_touches ..).mono fun _ hkey => .inl hkey) fun s =>
    (initializeVendorKeys_touches ..).mono fun key hkey => .inr ?_
  simpa using hkey

/-- What the initialization does behind "SecureBoot". -/
theorem initializeRest_touches (rounds : Nat) :
    Touches (fun key => IsCertDb key ∨ key ∈ [customModeKey, vendorKeysNvKey, vendorKeysKey]) s
      (andThen (setByte platform customModeKey (some 0) (nonVolatile ||| bootserviceAccess) s) fun s =>
        andThen (initializeCertDb platform rounds s) fun s =>
        andThen (authServiceInternalUpdateVariable platform.driver (certDbKey false) (leBytes 4 4) (certDbAttributes false) s)
          fun s => initializeVendorKeys platform s).2 := by
  refine andThen_touches ((setByte_touches ..).mono fun key heq => .inr (by rw [heq]; decide)) fun s =>
    (initializeStores_touches ..).mono fun key hkey => hkey.imp_right fun hmem => ?_
  exact List.mem_cons_of_mem _ hmem

theorem initializeOthers_touches (st : BootConfig) (rounds : Nat) :
    Touches IsOtherKey s (initializeOthers platform st rounds s).2 := by
  unfold initializeOthers
  refine andThen_touches ?_ fun s => andThen_touches ((initializeSecureBoot_touches ..).mono fun key hkey => ?_) fun s =>
    (initializeRest_touches ..).mono fun key hkey => ?_
  · exact (updateVariable_touches ..).mono fun key heq => .inr (by rw [heq]; decide)
  · rcases hkey with rfl | rfl
    · exact .inr (by decide)
    · exact .inr (by decide)
  · rcases hkey with hcertDb | hmem
    · exact .inl hcertDb
    · exact .inr (List.mem_append_right [signatureSupportKey, secureBootKey, secureBootEnableKey] hmem)

theorem initializeVariables_touches (st : BootConfig) (rounds : Nat) :
    Touches IsLibraryKey s (initializeVariables platform st rounds s).2 := by
  unfold initializeVariables
  refine andThen_touches ((setByte_touches ..).mono fun key heq => .inr (by rw [heq]; decide)) fun s =>
    (initializeOthers_touches ..).mono fun key hkey => ?_
  rcases hkey with hcertDb | hmem
  · exact .inl hcertDb
  · exact .inr (List.mem_cons_of_mem _ hmem)

end Frames

end Andromeda
