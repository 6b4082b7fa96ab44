import AndromedaBoot.BootConfig.Reader
import AndromedaBoot.SecureBoot.CertDb
import AndromedaBoot.SecureBoot.Provisioning
import AndromedaBoot.SecureBoot.SignatureLists

/-!
# Authenticated variables (AuthVariableLib.c, AuthService.c)

| here | there |
| --- | --- |
| `authServiceInternalUpdateVariableWithTimeStamp` | AuthService.c:268-321 |
| `needPhysicallyPresent`, `inCustomMode` | :334-373 |
| `updatePlatformMode` | :385-498 |
| `vendorKeyIsModified` | :632-662 |
| `processVarWithPk`, `processVarWithKek` | :689-911 |
| `isDeleteAuthVariable`, `processVariable` | :926-1071 |
| `findHashAlgorithmIndex` | :1959-1979 |
| `trustsPk`, `trustsKek`, `verifyPriv`, `verifyTimeBasedPayload`, `verifyTimeBasedPayloadAndUpdate` | :2011-2462, :2491-2574 |
| `getBootConfigSecureBootPolicy`, `authVariableLibInitialize` | AuthVariableLib.c:105-138, :156-419 |
| `authVariableLibProcessVariable` | :443-472 |

What the library is given by others: the driver and its checks of a request, the policy engine, whether a user is present, and
the cryptography. A pool that has no memory left is not modelled, nor that the filter compacts the payload in the buffer of
its caller: only a second attempt behind an update that failed would see it.
-/

namespace Andromeda

open PackedFields Blocks

/-! ## Requests -/

section Descriptor

variable (data : List (BitVec 8))

/-- `EFI_VARIABLE_AUTHENTICATION_2`: `TimeStamp` -/
def descriptorTimeStamp : EfiTime where
  year := BitVec.ofNat 16 (leValue (field data 0 2))
  month := BitVec.ofNat 8 (leValue (field data 2 1))
  day := BitVec.ofNat 8 (leValue (field data 3 1))
  hour := BitVec.ofNat 8 (leValue (field data 4 1))
  minute := BitVec.ofNat 8 (leValue (field data 5 1))
  second := BitVec.ofNat 8 (leValue (field data 6 1))
  pad1 := BitVec.ofNat 8 (leValue (field data 7 1))
  nanosecond := BitVec.ofNat 32 (leValue (field data 8 4))
  timeZone := BitVec.ofNat 16 (leValue (field data 12 2))
  daylight := BitVec.ofNat 8 (leValue (field data 14 1))
  pad2 := BitVec.ofNat 8 (leValue (field data 15 1))

/-- `AuthInfo.Hdr.dwLength` -/
def dwLength : Nat := leValue (field data 16 4)

/-- `AuthInfo.Hdr.wCertificateType` -/
def wCertificateType : Nat := leValue (field data 22 2)

/-- `AuthInfo.CertType` -/
def certType : List (BitVec 8) := field data 24 16

/-- `AUTHINFO2_SIZE` -/
def authInfo2Size : Nat := 16 + dwLength data

/-- `SigData`, of `SigDataSize` bytes -/
def sigData : List (BitVec 8) := field data 40 (dwLength data - 24)

/-- What is behind the descriptor. -/
def payload : List (BitVec 8) := data.drop (authInfo2Size data)

end Descriptor

/-- The driver lets nobody write these: the first three are `VAR_CHECK_VARIABLE_PROPERTY_READ_ONLY` in `mAuthVarEntry`, the
others in its own list of global variables. -/
def readOnlyKeys : List VariableKey :=
  [certDbKey true, certDbKey false, vendorKeysNvKey, setupModeKey, signatureSupportKey, secureBootKey, vendorKeysKey]

/-- The arguments of `SetVariable`, as the driver has checked them: a name that fits, and a descriptor that the data hold. -/
structure SetRequest where
  key : VariableKey
  data : List (BitVec 8)
  attributes : BitVec 32
  named : 0 ∉ key.name
  writable : key ∉ readOnlyKeys
  name_lt : key.name.length < 2 ^ 29
  described : hasAny attributes timeBasedAuthenticatedWriteAccess = true → 24 ≤ dwLength data ∧ authInfo2Size data ≤ data.length

/-- What a call finds around it. -/
structure CallEnv where
  atRuntime : Bool
  userPhysicalPresent : Bool
  variablePolicyEnabled : Bool
  /-- `GetScratchBuffer` has one. -/
  scratch : Bool
  /-- What is behind `Data` in memory. -/
  behind : List (BitVec 8)

structure AuthCrypto extends CertCrypto where
  /-- `Pkcs7GetSigners`: the stack of certificates and the top-level one. -/
  pkcs7GetSigners : List (BitVec 8) → Option (List (BitVec 8) × List (BitVec 8))
  /-- `Pkcs7Verify`: the signature, the trusted certificate, and what is signed. -/
  pkcs7Verify : List (BitVec 8) → List (BitVec 8) → List (BitVec 8) → Bool
  /-- `RsaGetPublicKeyFromX509` -/
  rsaPublicKey : List (BitVec 8) → Bool

structure AuthPlatform where
  driver : VariableDriver
  crypto : AuthCrypto
  /-- `mMaxCertDbSize` -/
  maxCertDbSize : Nat
  maxCertDbSize_lt : maxCertDbSize < 2 ^ 31
  /-- `PcdRequireSelfSignedPk` and `PcdEnforceSelfsignedPk` -/
  requireSelfSignedPk : Bool
  enforceSelfsignedPk : Bool

def setupMode : BitVec 32 := 1

def userMode : BitVec 32 := 0

/-- `VENDOR_KEYS_VALID` and `VENDOR_KEYS_MODIFIED` -/
def vendorKeysValid : BitVec 8 := 1

def vendorKeysModified : BitVec 8 := 0

/-- `AUTHVAR_TYPE` -/
inductive AuthVarType
  | pk
  | kek
  | priv
  | payload
deriving DecidableEq, Repr

section Code

variable (platform : AuthPlatform) (env : CallEnv)

/-! ## Updates -/

/-- `AuthServiceInternalUpdateVariableWithTimeStamp`. What `FilterSignatureList` returns is not looked at. -/
def authServiceInternalUpdateVariableWithTimeStamp (key : VariableKey) (data : List (BitVec 8)) (attributes : BitVec 32)
    (timeStamp : EfiTime) (s : AuthState) : AuthStatus × AuthState :=
  let update := fun data => updateVariable platform.driver ⟨key, data, attributes, some timeStamp⟩ s
  match authServiceInternalFindVariable key s with
  | none => update data
  | some orgData =>
    if hasAny attributes appendWrite ∧ (key ∈ databaseKeys ∨ key = kekKey) then
      match filterSignatureList env.scratch orgData data with
      | none => (.aborted, s.stop)
      | some data => update data
    else update data

/-- `NeedPhysicallyPresent` -/
def needPhysicallyPresent (key : VariableKey) : Bool :=
  env.variablePolicyEnabled && (key = secureBootEnableKey ∨ key = customModeKey)

/-- `InCustomMode` -/
def inCustomMode (s : AuthState) : Bool :=
  (authServiceInternalFindVariable customModeKey s).any fun data => data.getD 0 0 = 1

/-- `CopyMem (Data, ..)` over the data of a variable that was found. -/
def pokeVariable (key : VariableKey) (value : BitVec 8) (s : AuthState) : AuthState :=
  { s with vars := Function.update s.vars key ((s.vars key).map fun v => { v with data := v.data.set 0 value }) }

/-- The variable that the driver is to be given for one byte, or none to delete it. -/
def setByte (key : VariableKey) (value : Option (BitVec 8)) (attributes : BitVec 32) (s : AuthState) : AuthStatus × AuthState :=
  authServiceInternalUpdateVariable platform.driver key value.toList attributes s

/-- `UpdatePlatformMode`; the modes are 0 and 1. -/
def updatePlatformMode (mode : BitVec 32) (s : AuthState) : AuthStatus × AuthState :=
  match authServiceInternalFindVariable setupModeKey s with
  | none => (.notFound, s)
  | some _ =>
    let s := { s with platformMode := mode &&& 0xFF }
    let s := if s.running then pokeVariable setupModeKey (mode.setWidth 8) s else s
    if env.atRuntime then (.success, s)
    else
      let enables := (authServiceInternalFindVariable secureBootKey s).isSome ∧ s.platformMode = userMode
      let r := setByte platform secureBootKey (some (if enables then 1 else 0)) (runtimeAccess ||| bootserviceAccess) s
      if r.1 ≠ .success then r
      else if enables then setByte platform secureBootEnableKey (some 1) (nonVolatile ||| bootserviceAccess) r.2
      else if (authServiceInternalFindVariable secureBootEnableKey r.2).isNone then (.success, r.2)
      else setByte platform secureBootEnableKey none (nonVolatile ||| bootserviceAccess) r.2

/-- `VendorKeyIsModified` -/
def vendorKeyIsModified (s : AuthState) : AuthStatus × AuthState :=
  if s.vendorKeyState = vendorKeysModified then (.success, s)
  else
    let s := { s with vendorKeyState := vendorKeysModified }
    let r := setByte platform vendorKeysNvKey (some s.vendorKeyState)
      (nonVolatile ||| bootserviceAccess ||| timeBasedAuthenticatedWriteAccess) s
    if r.1 ≠ .success then r
    else setByte platform vendorKeysKey (some r.2.vendorKeyState) (runtimeAccess ||| bootserviceAccess) r.2

/-! ## Signatures -/

/-- `FindHashAlgorithmIndex`; the index behind the last one if there is none. -/
def findHashAlgorithmIndex (sig : List (BitVec 8)) : Nat :=
  hashInfo.findIdx fun info =>
    (sig.length ≥ 13 + 9 ∧ sig.getD 1 0 &&& 0x82 = 0x82 ∧ field sig 13 9 = info.2) ∨
      (sig.length ≥ 32 + 9 ∧ sig.getD 20 0 &&& 0x82 = 0x82 ∧ field sig 32 9 = info.2)

/-- `WIN_CERT_TYPE_EFI_GUID` -/
def winCertTypeEfiGuid : Nat := 0x0EF1

def gEfiCertPkcs7Guid : BitVec 128 := 0xA76556377D34A98A49EE68DF4AAFD29D

/-- The buffer that is signed. -/
def signedData (r : SetRequest) : List (BitVec 8) :=
  nameBytes r.key.name ++ (guidBytes r.key.vendorGuid ++ (leBytes 4 r.attributes.toNat ++
    (field r.data 0 16 ++ payload r.data)))

/-- The first certificate of a signature list. -/
def firstCert (rest : List (BitVec 8)) : List (BitVec 8) :=
  field rest (signatureListHeader + signatureHeaderSize rest + guidSize) (signatureDataSize rest)

/-- The certificate of PK is the top-level one, and the signature is made with it. -/
def trustsPk (pk : Option (List (BitVec 8))) (r : SetRequest) : Bool :=
  match platform.crypto.pkcs7GetSigners (sigData r.data), pk with
  | some (_, topLevelCert), some pk =>
    topLevelCert.length = signatureDataSize pk ∧
      field pk (signatureListHeader + signatureHeaderSize pk + guidSize) topLevelCert.length = topLevelCert ∧
      platform.crypto.pkcs7Verify (sigData r.data) topLevelCert (signedData r)
  | _, _ => false

/-- The search of KEK for a certificate that the signature is made with, if it ends. -/
def trustsKek (kek : List (BitVec 8)) (r : SetRequest) : Option Bool :=
  match walk signatureListSize (fun (_ : Unit) rest =>
      if signatureType rest = guidBytes gEfiCertX509Guid ∧ (List.range (signatureCount rest)).any fun i =>
          platform.crypto.pkcs7Verify (sigData r.data)
            (field rest (signatureListHeader + signatureHeaderSize rest + i * signatureSize rest + guidSize)
              (signatureDataSize rest))
            (signedData r) then
        (.error () : Except Unit Unit)
      else .ok ()) (kek.length % 2 ^ 32 + 1) () kek (kek.length % 2 ^ 32) with
  | none => none
  | some (.error _) => some true
  | some (.ok _) => some false

/-- The signer certificate in a stack of them: the first one, behind the count and its length. -/
def signerCert (stack : List (BitVec 8)) : List (BitVec 8) := field stack 5 (leValue (field stack 1 4))

/-- The owner that the signature is made by is the one that is noted. -/
def isOwner (hashAlgId : Nat) (signerCerts topLevelCert certsInCertDb : List (BitVec 8)) : Bool :=
  if hashAlgId < hashInfo.length ∧ certsInCertDb.length = hashSize hashAlgId then
    (calculatePrivAuthVarSignChainSHADigest platform.crypto.toCertCrypto hashAlgId (signerCert signerCerts) topLevelCert).any
      fun shaDigest => shaDigest = certsInCertDb
  else signerCerts = certsInCertDb

/-- The part of `VerifyTimeBasedPayload` for a variable that anyone may own (:2327-2416): it is verified, and the owner of a
new variable is noted. -/
def verifyPriv (r : SetRequest) (there : Bool) (s : AuthState) : Bool × AuthState :=
  let nv := hasAny r.attributes nonVolatile
  let hashAlgId := findHashAlgorithmIndex (sigData r.data)
  match platform.crypto.pkcs7GetSigners (sigData r.data) with
  | none => (false, s)
  | some (signerCerts, topLevelCert) =>
    let certs := getCertsFromDb r.key nv s
    let owner := match certs.1 with
      | .ok certsInCertDb => isOwner platform hashAlgId signerCerts topLevelCert certsInCertDb
      | .error _ => false
    if there ∧ !owner then (false, certs.2)
    else if !platform.crypto.pkcs7Verify (sigData r.data) topLevelCert (signedData r) then (false, s)
    else if !there ∧ payload r.data ≠ [] then
      let i := insertCertsToDb platform.driver platform.crypto.toCertCrypto platform.maxCertDbSize hashAlgId r.key nv
        (signerCert signerCerts) topLevelCert s
      (i.1 = .success, i.2)
    else (true, s)

/-- `CheckSignatureListFormat`, for a payload. -/
def checkPayload (r : SetRequest) (s : AuthState) : AuthStatus × AuthState :=
  match checkSignatureListFormat platform.crypto.rsaPublicKey r.key (payload r.data) env.behind with
  | none => (.aborted, s.stop)
  | some status => (status, s)

/-- The part of `VerifyTimeBasedPayload` that looks at the signature, for each kind of variable (:2223-2460). -/
def verifySignature (r : SetRequest) (there : Bool) (s : AuthState) : AuthVarType → AuthStatus × AuthState
  | .pk =>
    if trustsPk platform (authServiceInternalFindVariable pkKey s) r then checkPayload platform env r s
    else (.securityViolation, s)
  | .kek =>
    match authServiceInternalFindVariable kekKey s with
    | none => (.notFound, s)
    | some kek =>
      match trustsKek platform kek r with
      | none => (.aborted, s.stop)
      | some true => checkPayload platform env r s
      | some false => (.securityViolation, s)
  | .priv =>
    let v := verifyPriv platform r there s
    if v.1 then checkPayload platform env r v.2 else (.securityViolation, v.2)
  | .payload =>
    if platform.crypto.pkcs7Verify (sigData r.data) (firstCert (payload r.data ++ env.behind)) (signedData r) then
      checkPayload platform env r s
    else (.securityViolation, s)

/-- `VerifyTimeBasedPayload` -/
def verifyTimeBasedPayload (r : SetRequest) (type : AuthVarType) (orgTimeStamp : Option EfiTime) (s : AuthState) :
    AuthStatus × AuthState :=
  let stamp := descriptorTimeStamp r.data
  let append := hasAny r.attributes appendWrite
  if stamp.pad1 ≠ 0 ∨ stamp.nanosecond ≠ 0 ∨ stamp.timeZone ≠ 0 ∨ stamp.daylight ≠ 0 ∨ stamp.pad2 ≠ 0 then
    (.securityViolation, s)
  else if orgTimeStamp.any (authServiceInternalCompareTimeStamp stamp) ∧ !append then (.securityViolation, s)
  else if wCertificateType r.data ≠ winCertTypeEfiGuid ∨ certType r.data ≠ guidBytes gEfiCertPkcs7Guid then
    (.securityViolation, s)
  else if hasAny r.attributes timeBasedAuthenticatedWriteAccess ∧
      findHashAlgorithmIndex (sigData r.data) ≥ hashInfo.length then
    (.securityViolation, s)
  else if payload r.data = [] ∧ !append ∧ !env.variablePolicyEnabled then checkPayload platform env r s
  else if !env.scratch then (.outOfResources, s)
  else verifySignature platform env r orgTimeStamp.isSome s type

/-- `VerifyTimeBasedPayloadAndUpdate`: the status and `VarDel`. -/
def verifyTimeBasedPayloadAndUpdate (r : SetRequest) (type : AuthVarType) (s : AuthState) : AuthStatus × Bool × AuthState :=
  if env.atRuntime then (.writeProtected, false, s)
  else
    let org := s.vars r.key
    let v := verifyTimeBasedPayload platform env r type (org.map (·.timeStamp)) s
    if v.1 ≠ .success then (v.1, false, v.2)
    else
      let isDel := org.isSome ∧ payload r.data = [] ∧ !hasAny r.attributes appendWrite
      let u := authServiceInternalUpdateVariableWithTimeStamp platform env r.key (payload r.data) r.attributes
        (descriptorTimeStamp r.data) v.2
      if isDel ∧ type = .priv ∧ u.1 = .success then
        let d := deleteCertsFromDb platform.driver r.key (hasAny r.attributes nonVolatile) u.2
        (d.1, d.1 = .success, d.2)
      else (u.1, isDel ∧ u.1 = .success, u.2)

/-! ## Processing -/

/-- PK, KEK and db/dbx/dbt are not volatile, and time-based. -/
def keyAttributes (attributes : BitVec 32) : Bool :=
  hasAny attributes nonVolatile && hasAny attributes timeBasedAuthenticatedWriteAccess

/-- The payload is stored without looking at the signature, if its format is good. -/
def storeUnverified (r : SetRequest) (s : AuthState) : AuthStatus × AuthState :=
  let c := checkPayload platform env r s
  if c.1 ≠ .success then c
  else
    authServiceInternalUpdateVariableWithTimeStamp platform env r.key (payload r.data) r.attributes
      (descriptorTimeStamp r.data) c.2

/-- The body of `ProcessVarWithPk` up to the mode: the status and `Del`. -/
def storeWithPk (r : SetRequest) (isPk : Bool) (s : AuthState) : AuthStatus × Bool × AuthState :=
  let selfSigned := platform.requireSelfSignedPk && isPk
  if (inCustomMode s && env.userPhysicalPresent) || !env.variablePolicyEnabled ||
      (s.platformMode = setupMode && !selfSigned) then
    let u := storeUnverified platform env r s
    if u.1 ≠ .success then (u.1, payload r.data = [], u.2)
    else if u.2.platformMode ≠ setupMode ∨ selfSigned then
      let k := vendorKeyIsModified platform u.2
      (k.1, payload r.data = [], k.2)
    else (u.1, payload r.data = [], u.2)
  else if s.platformMode = userMode then verifyTimeBasedPayloadAndUpdate platform env r .pk s
  else if !platform.enforceSelfsignedPk ∧ s.platformMode = setupMode ∧ isPk then
    let u := authServiceInternalUpdateVariableWithTimeStamp platform env r.key (payload r.data) r.attributes
      (descriptorTimeStamp r.data) s
    (u.1, false, u.2)
  else verifyTimeBasedPayloadAndUpdate platform env r .payload s

/-- `ProcessVarWithPk` -/
def processVarWithPk (r : SetRequest) (isPk : Bool) (s : AuthState) : AuthStatus × AuthState :=
  if !keyAttributes r.attributes then (.invalidParameter, s)
  else
    let (status, del, s) := storeWithPk platform env r isPk s
    if status = .success ∧ isPk then
      if s.platformMode = setupMode ∧ !del then updatePlatformMode platform env userMode s
      else if s.platformMode = userMode ∧ del then updatePlatformMode platform env setupMode s
      else (status, s)
    else (status, s)

/-- `ProcessVarWithKek` -/
def processVarWithKek (r : SetRequest) (s : AuthState) : AuthStatus × AuthState :=
  if !keyAttributes r.attributes then (.invalidParameter, s)
  else if s.platformMode = userMode ∧ !(inCustomMode s && env.userPhysicalPresent) then
    let v := verifyTimeBasedPayloadAndUpdate platform env r .kek s
    (v.1, v.2.2)
  else
    let u := storeUnverified platform env r s
    if u.1 ≠ .success then u
    else if u.2.platformMode ≠ setupMode then vendorKeyIsModified platform u.2
    else u

/-- `IsDeleteAuthVariable`; `AUTHINFO_SIZE` is 560. -/
def isDeleteAuthVariable (orgAttributes : BitVec 32) (r : SetRequest) : Bool :=
  r.attributes = orgAttributes && hasAny r.attributes (authenticatedWriteAccess ||| timeBasedAuthenticatedWriteAccess) &&
    (if hasAny r.attributes timeBasedAuthenticatedWriteAccess then r.data.length = authInfo2Size r.data
     else r.data.length = 560)

/-- `ProcessVariable` -/
def processVariable (r : SetRequest) (s : AuthState) : AuthStatus × AuthState :=
  let org := s.vars r.key
  if (org.any fun v => isDeleteAuthVariable v.attributes r) ∧ (env.userPhysicalPresent ∨ !env.variablePolicyEnabled) then
    let u := authServiceInternalUpdateVariable platform.driver r.key [] 0 s
    if u.1 = .success ∧ hasAny r.attributes timeBasedAuthenticatedWriteAccess then
      deleteCertsFromDb platform.driver r.key (hasAny r.attributes nonVolatile) u.2
    else u
  else if needPhysicallyPresent env r.key ∧ !env.userPhysicalPresent then (.securityViolation, s)
  else if hasAny r.attributes authenticatedWriteAccess then (.unsupported, s)
  else if hasAny r.attributes timeBasedAuthenticatedWriteAccess then
    let v := verifyTimeBasedPayloadAndUpdate platform env r .priv s
    (v.1, v.2.2)
  else if org.any fun v => hasAny v.attributes (authenticatedWriteAccess ||| timeBasedAuthenticatedWriteAccess) then
    (.writeProtected, s)
  else authServiceInternalUpdateVariable platform.driver r.key r.data r.attributes s

/-- `AuthVariableLibProcessVariable` -/
def authVariableLibProcessVariable (r : SetRequest) (s : AuthState) : AuthStatus × AuthState :=
  if r.key = pkKey then processVarWithPk platform env r true s
  else if r.key = kekKey then processVarWithPk platform env r false s
  else if r.key ∈ databaseKeys then
    let p := processVarWithPk platform env r false s
    if p.1 ≠ .success then processVarWithKek platform env r p.2 else p
  else processVariable platform env r s

/-! ## Initialization -/

/-- `GetBootConfigSecureBootPolicy` -/
def getBootConfigSecureBootPolicy (st : BootConfig) : BitVec 8 :=
  match getAndromedaUefiConfigUint32ByName st (some secureBootEnabledKey) (some 0) with
  | (.success, some value) => if value = 1 then 1 else if value = 0 then 0 else 1
  | _ => 1

/-- `mSignatureSupport`: SHA-1, SHA-256, SHA-384, SHA-512, RSA-2048 and X.509. -/
def signatureSupport : List (BitVec 8) :=
  [0xBD31664901BE87B14AC9CF10826CA512, 0x28439336F941A9AC4092504CC1C41626, 0x011E706CD58AF18548C99FD0FF3E5307,
    0x9AC1892B1ED41B9F4F50A6C4093E0FAE, 0xB6B3856E77ED14AA4E34269C3C5766E8, gEfiCertX509Guid].flatMap guidBytes

/-- `if (EFI_ERROR (Status)) { return Status; }` and what follows. -/
def andThen (r : AuthStatus × AuthState) (f : AuthState → AuthStatus × AuthState) : AuthStatus × AuthState :=
  if r.1 ≠ .success then r else f r.2

/-- The part about "certdb" (:310-343). -/
def initializeCertDb (rounds : Nat) (s : AuthState) : AuthStatus × AuthState :=
  match authServiceInternalFindVariable (certDbKey true) s with
  | none => authServiceInternalUpdateVariable platform.driver (certDbKey true) (leBytes 4 4) (certDbAttributes true) s
  | some _ => cleanCertsFromDb platform.driver rounds s

/-- The part about "VendorKeysNv" and "VendorKeys" (:361-396). -/
def initializeVendorKeys (s : AuthState) : AuthStatus × AuthState :=
  let nv :=
    match authServiceInternalFindVariable vendorKeysNvKey s with
    | some data => (.success, { s with vendorKeyState := data.getD 0 0 })
    | none =>
      setByte platform vendorKeysNvKey (some vendorKeysValid)
        (nonVolatile ||| bootserviceAccess ||| timeBasedAuthenticatedWriteAccess)
        { s with vendorKeyState := vendorKeysValid }
  andThen nv fun s => setByte platform vendorKeysKey (some s.vendorKeyState) (runtimeAccess ||| bootserviceAccess) s

/-- The part about "SecureBootEnable" and "SecureBoot" (:245-287). -/
def initializeSecureBoot (st : BootConfig) (s : AuthState) : AuthStatus × AuthState :=
  let user := s.platformMode = userMode
  let secureBootEnable := if user then getBootConfigSecureBootPolicy st else 0
  let enabled :=
    if user ∧ authServiceInternalFindVariable secureBootEnableKey s ≠ some [secureBootEnable] then
      setByte platform secureBootEnableKey (some secureBootEnable) (nonVolatile ||| bootserviceAccess) s
    else (.success, s)
  andThen enabled fun s =>
    setByte platform secureBootKey (some (if secureBootEnable = 1 ∧ user then 1 else 0)) (runtimeAccess ||| bootserviceAccess) s

/-- What comes behind "SetupMode" (:231-396). -/
def initializeOthers (st : BootConfig) (rounds : Nat) (s : AuthState) : AuthStatus × AuthState :=
  andThen (authServiceInternalUpdateVariable platform.driver signatureSupportKey signatureSupport
    (bootserviceAccess ||| runtimeAccess) s) fun s =>
  andThen (initializeSecureBoot platform st s) fun s =>
  andThen (setByte platform customModeKey (some 0) (nonVolatile ||| bootserviceAccess) s) fun s =>
  andThen (initializeCertDb platform rounds s) fun s =>
  andThen (authServiceInternalUpdateVariable platform.driver (certDbKey false) (leBytes 4 4) (certDbAttributes false) s) fun s =>
  initializeVendorKeys platform s

/-- The variables of the library, when the mode is known. -/
def initializeVariables (st : BootConfig) (rounds : Nat) (s : AuthState) : AuthStatus × AuthState :=
  andThen (setByte platform setupModeKey (some (s.platformMode.setWidth 8)) (bootserviceAccess ||| runtimeAccess) s) fun s =>
  initializeOthers platform st rounds s

/-- `AuthVariableLibInitialize` -/
def authVariableLibInitialize (st : BootConfig) (rounds : Nat) (s : AuthState) : AuthStatus × AuthState :=
  initializeVariables platform st rounds
    { s with platformMode := if (authServiceInternalFindVariable pkKey s).isSome then userMode else setupMode }

/-! ## Runs -/

/-- What happens: the firmware starts, with a boot configuration, and in `CleanCertsFromDb` waits for some rounds at most; or
somebody sets a variable. -/
inductive AuthEvent
  | boot (st : BootConfig) (rounds : Nat)
  | request (env : CallEnv) (r : SetRequest)

/-- The library is `ready` if its initialization succeeded; else it is not to be called. -/
structure AuthSystem extends AuthState where
  ready : Bool

/-- What a reset leaves. -/
def AuthSystem.reset (s : AuthSystem) : AuthState := ⟨platform.driver.restart s.vars, 0, 0, s.calls, true⟩

def authStep (s : AuthSystem) : AuthEvent → AuthSystem
  | .boot st rounds =>
    let r := authVariableLibInitialize platform st rounds (s.reset platform)
    { r.2 with ready := r.1 = .success }
  | .request env r =>
    if s.ready ∧ s.running ∧ platform.driver.accepts s.vars r.key r.attributes then
      { (authVariableLibProcessVariable platform env r s.toAuthState).2 with ready := s.ready } else s

def runAuth (s : AuthSystem) (events : List AuthEvent) : AuthSystem := events.foldl (authStep platform) s

end Code

end Andromeda
