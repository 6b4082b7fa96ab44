import AndromedaBoot.Lib.Blocks
import AndromedaBoot.SecureBoot.Variables
import Mathlib.Data.List.Nodup

/-!
# Signature lists (AuthService.c)

The key variables hold `EFI_SIGNATURE_LIST`s, one behind the other. New data are checked before they are stored, and
signatures that are there already are filtered out of data that are appended.

| here | there |
| --- | --- |
| `supportSigItem` | `mSupportSigItem`, :157-171 |
| `checkVisit`, `checkSignatureListFormat` | `CheckSignatureListFormat`, :513-622 |
| `isOldSignature`, `filterVisit`, `filterSignatureList` | `FilterSignatureList`, :1083-1200 |

The `while` loops of all of them are `walk`s over the lists. `behind` is what is behind the data in memory, which the check
reads if the last list is short. On AArch64 the quotient of a division by zero is 0.
-/

namespace Andromeda

open PackedFields Blocks

/-! ## The code -/

/-- `EFI_SIGNATURE_ITEM` -/
structure SignatureItem where
  sigType : BitVec 128
  sigHeaderSize : Nat
  sigDataSize : Nat
deriving DecidableEq, Repr

/-- `((UINT32) ~0)` -/
def anySize : Nat := 0xFFFFFFFF

def gEfiCertX509Guid : BitVec 128 := 0x72F02B5C15ABB5874AA794E4A5C059A1

/-- For `EFI_CERT_SHA256_GUID`, `EFI_CERT_RSA2048_GUID` and so on, as they are listed there. -/
def supportSigItem : List SignatureItem :=
  [⟨0x28439336F941A9AC4092504CC1C41626, 0, 32⟩,
   ⟨0xB6B3856E77ED14AA4E34269C3C5766E8, 0, 256⟩,
   ⟨0x8427A3BBE7F28DAD4A3D879BE2B36190, 0, 256⟩,
   ⟨0xBD31664901BE87B14AC9CF10826CA512, 0, 20⟩,
   ⟨0x806073B8AA1E28A348F1874367F8444F, 0, 256⟩,
   ⟨gEfiCertX509Guid, 0, anySize⟩,
   ⟨0xBDC8BF83ABD9079444C9A65C0B6E5233, 0, 28⟩,
   ⟨0x011E706CD58AF18548C99FD0FF3E5307, 0, 48⟩,
   ⟨0x9AC1892B1ED41B9F4F50A6C4093E0FAE, 0, 64⟩,
   ⟨0xED03F18EF9FC20B4407996C03BD2A492, 0, 48⟩,
   ⟨0x5B86A649B328D2AA4EE680C27076876E, 0, 64⟩,
   ⟨0x9DFEB0D26524FABC4CDA2502446DBF63, 0, 80⟩]

/-- `sizeof (EFI_SIGNATURE_LIST)` and `sizeof (EFI_GUID)` -/
def signatureListHeader : Nat := 28

def guidSize : Nat := 16

section Fields

variable (rest : List (BitVec 8))

def signatureType : List (BitVec 8) := field rest 0 16

def signatureListSize : Nat := leValue (field rest 16 4)

def signatureHeaderSize : Nat := leValue (field rest 20 4)

def signatureSize : Nat := leValue (field rest 24 4)

/-- `SignatureSize - sizeof (EFI_GUID)`, a `UINTN` -/
def signatureDataSize : Nat := (signatureSize rest + 2 ^ 64 - guidSize) % 2 ^ 64

/-- `SignatureListSize - sizeof (EFI_SIGNATURE_LIST) - SignatureHeaderSize`, a `UINTN` -/
def signaturesSize : Nat := (signatureListSize rest + 2 ^ 64 - signatureListHeader + 2 ^ 64 - signatureHeaderSize rest) % 2 ^ 64

/-- `CertCount` -/
def signatureCount : Nat := signaturesSize rest / signatureSize rest

/-- The `EFI_SIGNATURE_DATA` with an index. -/
def signatureAt (i : Nat) : List (BitVec 8) :=
  field rest (signatureListHeader + signatureHeaderSize rest + i * signatureSize rest) (signatureSize rest)

end Fields

/-- PK, KEK, db, dbx or dbt. -/
def isKeyVariable (key : VariableKey) : Bool := key = pkKey ∨ key = kekKey ∨ key ∈ databaseKeys

/-- A round of the loop of `CheckSignatureListFormat`; `SigCount` is a `UINT32`. -/
def checkVisit (rsaPublicKey : List (BitVec 8) → Bool) (sigCount : Nat) (rest : List (BitVec 8)) : Except AuthStatus Nat :=
  match supportSigItem.find? fun item => guidBytes item.sigType = signatureType rest with
  | none => .error .invalidParameter
  | some item =>
    if item.sigDataSize ≠ anySize ∧ signatureDataSize rest ≠ item.sigDataSize then .error .invalidParameter
    else if item.sigHeaderSize ≠ anySize ∧ signatureHeaderSize rest ≠ item.sigHeaderSize then .error .invalidParameter
    else if signatureType rest = guidBytes gEfiCertX509Guid ∧ signatureDataSize rest > 0 ∧
        !rsaPublicKey (field rest (signatureListHeader + signatureHeaderSize rest + guidSize) (signatureDataSize rest)) then
      .error .invalidParameter
    else if signaturesSize rest % signatureSize rest ≠ 0 then .error .invalidParameter
    else .ok ((sigCount + signatureCount rest) % 2 ^ 32)

/-- `CheckSignatureListFormat`, if its loop ends. -/
def checkSignatureListFormat (rsaPublicKey : List (BitVec 8) → Bool) (key : VariableKey) (data behind : List (BitVec 8)) :
    Option AuthStatus :=
  if data = [] then some .success
  else if !isKeyVariable key then some .success
  else
    match walk signatureListSize (checkVisit rsaPublicKey) (data.length + 1) 0 (data ++ behind) data.length with
    | none => none
    | some (.error status) => some status
    | some (.ok (sigCount, sigDataSize)) =>
      if sigDataSize ≠ 0 then some .invalidParameter
      else if key = pkKey ∧ sigCount > 1 then some .invalidParameter
      else some .success

/-- The search of `FilterSignatureList` for a signature in the old data, if it ends. -/
def isOldSignature (data type : List (BitVec 8)) (size : Nat) (signature : List (BitVec 8)) : Option Bool :=
  match walk signatureListSize (fun (_ : Unit) rest =>
      if signatureType rest = type ∧ signatureSize rest = size ∧
          (List.range (signatureCount rest)).any fun i => signatureAt rest i = signature then
        (.error () : Except Unit Unit)
      else .ok ()) (data.length + 1) () data data.length with
  | none => none
  | some (.error _) => some true
  | some (.ok _) => some false

/-- A round of the loop of `FilterSignatureList`: what is copied is put behind `tail`. -/
def filterVisit (data tail rest : List (BitVec 8)) : Except Unit (List (BitVec 8)) :=
  let old := fun i => isOldSignature data (signatureType rest) (signatureSize rest) (signatureAt rest i)
  if (List.range (signatureCount rest)).any fun i => old i = none then .error ()
  else
    let copied := (List.range (signatureCount rest)).filter fun i => old i = some false
    if copied = [] then .ok tail
    else
      let header := signatureListHeader + signatureHeaderSize rest
      .ok (tail ++ (setField (field rest 0 header) 16 (leBytes 4 (header + copied.length * signatureSize rest)) ++
        copied.flatMap (signatureAt rest)))

/-- `FilterSignatureList`: the new data behind it, if its loops end. Without a scratch buffer they stay as they are. -/
def filterSignatureList (scratch : Bool) (data newData : List (BitVec 8)) : Option (List (BitVec 8)) :=
  if newData = [] then some newData
  else if !scratch then some newData
  else
    match walk signatureListSize (filterVisit data) (newData.length + 1) [] newData newData.length with
    | some (.ok (tail, _)) => some tail
    | _ => none

/-! ## Lists -/

/-- A well-formed `EFI_SIGNATURE_LIST`; each signature is an owner and data. -/
structure SignatureList where
  type : BitVec 128
  header : List (BitVec 8)
  size : Nat
  signatures : List (List (BitVec 8))
  length_signatures : ∀ signature ∈ signatures, signature.length = size
  sized : size = 0 → signatures = []
  size_lt : size < 2 ^ 32
  fits : signatureListHeader + header.length + signatures.length * size < 2 ^ 32

namespace SignatureList

variable (l : SignatureList)

def listSize : Nat := signatureListHeader + l.header.length + l.signatures.length * l.size

def bytes : List (BitVec 8) :=
  guidBytes l.type ++
    (leBytes 4 l.listSize ++ (leBytes 4 l.header.length ++ (leBytes 4 l.size ++ (l.header ++ l.signatures.flatten))))

/-- The signatures of a list, each with its type. -/
def entries : List (BitVec 128 × List (BitVec 8)) := l.signatures.map fun signature => (l.type, signature)

end SignatureList

section Lists

variable {l : SignatureList} {rest : List (BitVec 8)}

theorem length_flatten_of {α : Type} {n : Nat} {xs : List (List α)} (h : ∀ x ∈ xs, x.length = n) :
    xs.flatten.length = xs.length * n := by
  induction xs with
  | nil => simp
  | cons x xs ih =>
    rw [List.flatten_cons, List.length_append, h x List.mem_cons_self, ih fun y hy => h y (List.mem_cons_of_mem _ hy),
      List.length_cons, Nat.succ_mul, Nat.add_comm]

theorem SignatureList.length_bytes (l : SignatureList) : l.bytes.length = l.listSize := by
  simp only [bytes, guidBytes, List.length_append, length_leBytes, length_flatten_of l.length_signatures, listSize,
    signatureListHeader]
  omega

/-- A signature in a row of them. -/
theorem field_flatten {n : Nat} {xs : List (List (BitVec 8))} (h : ∀ x ∈ xs, x.length = n) {i : Nat} (hi : i < xs.length)
    (rest : List (BitVec 8)) : field (xs.flatten ++ rest) (i * n) n = xs[i] := by
  induction i generalizing xs with
  | zero =>
    cases xs with
    | nil => simp at hi
    | cons x xs =>
      rw [List.flatten_cons, List.append_assoc, Nat.zero_mul, field_append_left (h x List.mem_cons_self)]
      rfl
  | succ i ih =>
    cases xs with
    | nil => simp at hi
    | cons x xs =>
      rw [List.flatten_cons, List.append_assoc, Nat.succ_mul, Nat.add_comm, field_append_right (h x List.mem_cons_self),
        ih (fun y hy => h y (List.mem_cons_of_mem _ hy)) (by simpa using hi)]
      rfl

/-- The fields of a list. -/
structure ListAt (rest : List (BitVec 8)) (l : SignatureList) : Prop where
  type : signatureType rest = guidBytes l.type
  listSize : signatureListSize rest = l.listSize
  headerSize : signatureHeaderSize rest = l.header.length
  size : signatureSize rest = l.size
  count : signatureCount rest = l.signatures.length
  divides : signaturesSize rest % signatureSize rest = 0
  signature : ∀ i (hi : i < l.signatures.length), signatureAt rest i = l.signatures[i]
  front : field rest 0 (signatureListHeader + l.header.length) =
    guidBytes l.type ++ (leBytes 4 l.listSize ++ (leBytes 4 l.header.length ++ (leBytes 4 l.size ++ l.header)))

theorem listAt (l : SignatureList) (rest : List (BitVec 8)) : ListAt (l.bytes ++ rest) l := by
  have hfits := l.fits
  have hlt := l.size_lt
  have hguid : (guidBytes l.type).length = 16 := length_leBytes 16 _
  have hword : ∀ v, v < 2 ^ 32 → leValue (leBytes 4 v) = v := fun v hv => by
    rw [leValue_leBytes]
    exact Nat.mod_eq_of_lt hv
  let behindHeader := l.signatures.flatten ++ rest
  let behindSize := l.header ++ behindHeader
  let behindHeaderSize := leBytes 4 l.size ++ behindSize
  let behindListSize := leBytes 4 l.header.length ++ behindHeaderSize
  let behindType := leBytes 4 l.listSize ++ behindListSize
  have hbytes : l.bytes ++ rest = guidBytes l.type ++ behindType := by
    simp only [SignatureList.bytes, List.append_assoc]
    rfl
  have hat16 : ∀ i n, field (l.bytes ++ rest) (16 + i) n = field behindType i n := fun i n => by
    rw [hbytes, field_append_right hguid]
  have hat20 : ∀ i n, field (l.bytes ++ rest) (20 + i) n = field behindListSize i n := fun i n => by
    rw [show 20 + i = 16 + (4 + i) by omega, hat16, field_append_right (length_leBytes 4 _)]
  have hat24 : ∀ i n, field (l.bytes ++ rest) (24 + i) n = field behindHeaderSize i n := fun i n => by
    rw [show 24 + i = 20 + (4 + i) by omega, hat20, field_append_right (length_leBytes 4 _)]
  have hat28 : ∀ i n, field (l.bytes ++ rest) (28 + i) n = field behindSize i n := fun i n => by
    rw [show 28 + i = 24 + (4 + i) by omega, hat24, field_append_right (length_leBytes 4 _)]
  have hlistSize : signatureListSize (l.bytes ++ rest) = l.listSize :=
    (congrArg leValue ((hat16 0 4).trans (field_append_left (length_leBytes 4 _) _))).trans (hword _ hfits)
  have hheaderSize : signatureHeaderSize (l.bytes ++ rest) = l.header.length :=
    (congrArg leValue ((hat20 0 4).trans (field_append_left (length_leBytes 4 _) _))).trans
      (hword _ (by unfold signatureListHeader at hfits; omega))
  have hsize : signatureSize (l.bytes ++ rest) = l.size :=
    (congrArg leValue ((hat24 0 4).trans (field_append_left (length_leBytes 4 _) _))).trans (hword _ hlt)
  have hall : signaturesSize (l.bytes ++ rest) = l.signatures.length * l.size := by
    rw [signaturesSize, hlistSize, hheaderSize, SignatureList.listSize]
    unfold signatureListHeader at *
    omega
  refine ⟨(congrArg (field · 0 16) hbytes).trans (field_append_left hguid _), hlistSize, hheaderSize, hsize, ?_, ?_, ?_, ?_⟩
  · rw [signatureCount, hall, hsize]
    rcases Nat.eq_zero_or_pos l.size with hzero | hpos
    · rw [hzero, Nat.div_zero, l.sized hzero]
      rfl
    · exact Nat.mul_div_cancel _ hpos
  · rw [hall, hsize, Nat.mul_mod_left]
  · intro i hi
    rw [signatureAt, hheaderSize, hsize, signatureListHeader, Nat.add_assoc, hat28, field_append_right rfl,
      field_flatten l.length_signatures hi]
  · have hfront : l.bytes ++ rest = (guidBytes l.type ++ (leBytes 4 l.listSize ++ (leBytes 4 l.header.length ++
        (leBytes 4 l.size ++ l.header)))) ++ behindHeader := by
      simp only [SignatureList.bytes, List.append_assoc]
      rfl
    rw [hfront]
    refine field_append_left ?_ _
    simp only [guidBytes, List.length_append, length_leBytes, signatureListHeader]
    omega

end Lists

/-- The lists as blocks of a row. -/
def signatureLists : Format SignatureList (BitVec 8) where
  bytes := SignatureList.bytes
  size := signatureListSize
  size_bytes l rest := (listAt l rest).listSize.trans l.length_bytes.symm
  ne_nil l h := by
    have hlen := l.length_bytes
    rw [h, List.length_nil, SignatureList.listSize] at hlen
    unfold signatureListHeader at hlen
    omega

/-! ## The check -/

/-- A list that the check lets pass; a certificate is looked for behind the header, even if the list has none. -/
structure SignatureList.Accepted (rsaPublicKey : List (BitVec 8) → Bool) (l : SignatureList) (rest : List (BitVec 8)) : Prop where
  supported : ∃ item ∈ supportSigItem, item.sigType = l.type ∧ (item.sigDataSize = anySize ∨ l.size = guidSize + item.sigDataSize)
  header : l.header = []
  x509 : l.type = gEfiCertX509Guid → l.size ≠ guidSize →
    rsaPublicKey (field (l.signatures.flatten ++ rest) guidSize ((l.size + 2 ^ 64 - guidSize) % 2 ^ 64)) = true

/-- Each list of a row is accepted. -/
def AcceptedRow (rsaPublicKey : List (BitVec 8) → Bool) (behind : List (BitVec 8)) : List SignatureList → Prop
  | [] => True
  | l :: lists => l.Accepted rsaPublicKey (signatureLists.row lists ++ behind) ∧ AcceptedRow rsaPublicKey behind lists

/-- `SigCount` of a row -/
def countSignatures (lists : List SignatureList) : Nat := (lists.flatMap (·.signatures)).length

/-- No list is shorter than its header. -/
def LongLists (data behind : List (BitVec 8)) : Prop :=
  ∀ rest n, Comes signatureListSize (data ++ behind) data.length rest n → 0 < n → signatureListSize rest ≤ n →
    signatureListHeader ≤ signatureListSize rest

section Check

variable {rsaPublicKey : List (BitVec 8) → Bool} {l : SignatureList} {rest : List (BitVec 8)}

theorem find_supported {type : BitVec 128} {item : SignatureItem} :
    (supportSigItem.find? fun item => guidBytes item.sigType = guidBytes type) = some item ↔
      item ∈ supportSigItem ∧ item.sigType = type := by
  have hnodup : (supportSigItem.map (·.sigType)).Nodup := by decide
  have htype : ∀ other : SignatureItem, decide (guidBytes other.sigType = guidBytes type) = true ↔ other.sigType = type :=
    fun other => by rw [decide_eq_true_iff, guidBytes_inj]
  constructor
  · intro h
    have hitem := List.find?_some h
    exact ⟨List.mem_of_find?_eq_some h, (htype item).1 hitem⟩
  · rintro ⟨hmem, rfl⟩
    cases hfind : supportSigItem.find? fun other => guidBytes other.sigType = guidBytes item.sigType with
    | none => exact absurd ((htype item).2 rfl) (List.find?_eq_none.1 hfind item hmem)
    | some other =>
      have hother := List.find?_some hfind
      rw [List.inj_on_of_nodup_map hnodup (List.mem_of_find?_eq_some hfind) hmem ((htype other).1 hother)]

theorem supportSigItem_header : ∀ item ∈ supportSigItem, item.sigHeaderSize = 0 ∧ item.sigDataSize < 2 ^ 32 := by decide

/-- A round of the check. -/
theorem checkVisit_eq (rsaPublicKey : List (BitVec 8) → Bool) (sigCount : Nat) (l : SignatureList) (rest : List (BitVec 8)) :
    (l.Accepted rsaPublicKey rest →
      checkVisit rsaPublicKey sigCount (l.bytes ++ rest) = .ok ((sigCount + l.signatures.length) % 2 ^ 32)) ∧
    (¬l.Accepted rsaPublicKey rest → checkVisit rsaPublicKey sigCount (l.bytes ++ rest) = .error .invalidParameter) := by
  have hat := listAt l rest
  have hlt := l.size_lt
  have hcert : field (l.bytes ++ rest) (signatureListHeader + l.header.length + guidSize) (signatureDataSize (l.bytes ++ rest)) =
      field (l.signatures.flatten ++ rest) guidSize ((l.size + 2 ^ 64 - guidSize) % 2 ^ 64) := by
    have hbytes : l.bytes ++ rest = (guidBytes l.type ++ (leBytes 4 l.listSize ++ (leBytes 4 l.header.length ++
        (leBytes 4 l.size ++ l.header)))) ++ (l.signatures.flatten ++ rest) := by
      simp only [SignatureList.bytes, List.append_assoc]
    have hlen : (guidBytes l.type ++ (leBytes 4 l.listSize ++ (leBytes 4 l.header.length ++
        (leBytes 4 l.size ++ l.header)))).length = signatureListHeader + l.header.length := by
      simp only [guidBytes, List.length_append, length_leBytes, signatureListHeader]
      omega
    rw [signatureDataSize, hat.size, hbytes, field_append_right hlen]
  unfold checkVisit
  rw [hat.type, hat.headerSize, hat.count, hcert]
  cases hfind : supportSigItem.find? fun item => guidBytes item.sigType = guidBytes l.type with
  | none =>
    refine ⟨fun haccepted => ?_, fun _ => rfl⟩
    obtain ⟨item, hitem, htype, -⟩ := haccepted.supported
    exact absurd (hfind.symm.trans (find_supported.2 ⟨hitem, htype⟩)) (by simp)
  | some item =>
    obtain ⟨hitem, htype⟩ := find_supported.1 hfind
    obtain ⟨hheader, hdata⟩ := supportSigItem_header item hitem
    have hdataSize : signatureDataSize (l.bytes ++ rest) = (l.size + 2 ^ 64 - guidSize) % 2 ^ 64 := by
      rw [signatureDataSize, hat.size]
    have hsize : signatureDataSize (l.bytes ++ rest) ≠ item.sigDataSize ↔ l.size ≠ guidSize + item.sigDataSize := by
      rw [hdataSize]
      unfold guidSize
      omega
    have hpos : signatureDataSize (l.bytes ++ rest) > 0 ↔ l.size ≠ guidSize := by
      rw [hdataSize]
      unfold guidSize
      omega
    have hnone : l.header = [] ↔ l.header.length = 0 := List.length_eq_zero_iff.symm
    dsimp only
    split_ifs with hwrong hheaders hx509 hdivides
    · refine ⟨fun haccepted => ?_, fun _ => rfl⟩
      obtain ⟨other, hother, htype', hfits⟩ := haccepted.supported
      have hsame := (find_supported.2 ⟨hother, htype'⟩).symm.trans hfind
      rw [Option.some.inj hsame] at hfits
      exact absurd (hfits.resolve_left hwrong.1) (hsize.1 hwrong.2)
    · refine ⟨fun haccepted => ?_, fun _ => rfl⟩
      exact absurd ((hnone.1 haccepted.header).trans hheader.symm) hheaders.2
    · refine ⟨fun haccepted => ?_, fun _ => rfl⟩
      have hrsa := haccepted.x509 (guidBytes_inj.1 hx509.1) (hpos.1 hx509.2.1)
      rw [hrsa] at hx509
      exact absurd hx509.2.2 (by decide)
    · exact absurd hat.divides hdivides
    · refine ⟨fun _ => rfl, fun hrefused => absurd ⟨⟨item, hitem, htype, ?_⟩, ?_, fun hx hsize' => ?_⟩ hrefused⟩
      · by_cases hany : item.sigDataSize = anySize
        · exact .inl hany
        · exact .inr (not_not.1 fun h => hwrong ⟨hany, hsize.2 h⟩)
      · refine hnone.2 (hheader ▸ not_not.1 fun h => hheaders ⟨?_, h⟩)
        rw [hheader]
        decide
      · simpa using not_and.1 (not_and.1 hx509 (guidBytes_inj.2 hx)) (hpos.2 hsize')

end Check

/-! ## What the check lets pass -/

/-- The step of the check on a list, with what is behind it. -/
noncomputable def checkStep (rsaPublicKey : List (BitVec 8) → Bool) (sigCount : Nat) (l : SignatureList) (rest : List (BitVec 8)) :
    Except AuthStatus Nat :=
  open Classical in
  if l.Accepted rsaPublicKey rest then .ok ((sigCount + l.signatures.length) % 2 ^ 32) else .error .invalidParameter

section Passes

variable {rsaPublicKey : List (BitVec 8) → Bool} {rest behind data : List (BitVec 8)} {lists : List SignatureList}

theorem checkVisit_error {sigCount : Nat} {status : AuthStatus} (h : checkVisit rsaPublicKey sigCount rest = .error status) :
    status = .invalidParameter := by
  unfold checkVisit at h
  split at h
  · exact (Except.error.inj h).symm
  · split_ifs at h
    all_goals exact (Except.error.inj h).symm

theorem checkVisit_step (rsaPublicKey : List (BitVec 8) → Bool) (sigCount : Nat) (l : SignatureList) (rest : List (BitVec 8)) :
    checkVisit rsaPublicKey sigCount (l.bytes ++ rest) = checkStep rsaPublicKey sigCount l rest := by
  obtain ⟨haccepted, hrefused⟩ := checkVisit_eq rsaPublicKey sigCount l rest
  unfold checkStep
  split_ifs with h
  · exact haccepted h
  · exact hrefused h

/-- The check of a row. -/
theorem foldRow_checkStep (rsaPublicKey : List (BitVec 8) → Bool) (behind : List (BitVec 8))
    (lists : List SignatureList) (sigCount : Nat) (hcount : sigCount < 2 ^ 32) :
    (AcceptedRow rsaPublicKey behind lists →
      signatureLists.foldRow (checkStep rsaPublicKey) behind sigCount lists = .ok ((sigCount + countSignatures lists) % 2 ^ 32)) ∧
    (¬AcceptedRow rsaPublicKey behind lists →
      signatureLists.foldRow (checkStep rsaPublicKey) behind sigCount lists = .error .invalidParameter) := by
  induction lists generalizing sigCount with
  | nil =>
    refine ⟨fun _ => ?_, fun h => absurd trivial h⟩
    rw [countSignatures, List.flatMap_nil, List.length_nil, Nat.add_zero, Nat.mod_eq_of_lt hcount]
    rfl
  | cons l lists ih =>
    obtain ⟨hpasses, hfails⟩ := ih ((sigCount + l.signatures.length) % 2 ^ 32) (Nat.mod_lt _ (by decide))
    rw [Format.foldRow, checkStep]
    by_cases hl : l.Accepted rsaPublicKey (signatureLists.row lists ++ behind)
    · rw [if_pos hl]
      dsimp only
      refine ⟨fun h => ?_, fun h => hfails fun hrow => h ⟨hl, hrow⟩⟩
      rw [hpasses h.2, Nat.mod_add_mod, countSignatures, countSignatures, List.flatMap_cons, List.length_append, Nat.add_assoc]
    · rw [if_neg hl]
      exact ⟨fun h => absurd h.1 hl, fun _ => rfl⟩

/-- Blocks of one length, cut from the front. -/
theorem flatten_range_field (bytes : List (BitVec 8)) (n k : Nat) :
    ((List.range k).map fun i => field bytes (i * n) n).flatten = bytes.take (k * n) := by
  induction k with
  | zero => simp
  | succ k ih =>
    rw [List.range_succ, List.map_append, List.flatten_append, ih, Nat.succ_mul, List.take_add]
    simp [field]

theorem signature_fields_lt (rest : List (BitVec 8)) (start : Nat) : leValue (field rest start 4) < 2 ^ 32 := by
  have hlen : (field rest start 4).length ≤ 4 := List.length_take_le _ _
  have hpow : 256 ^ (field rest start 4).length ≤ 2 ^ 32 := Nat.pow_le_pow_right (n := 256) (by decide) hlen
  exact Nat.lt_of_lt_of_le (leValue_lt _) hpow

/-- A round that goes on has seen a list, if the list is not shorter than its header. -/
theorem exists_list {sigCount sigCount' : Nat} (hlong : signatureListHeader ≤ signatureListSize rest)
    (hin : signatureListSize rest ≤ rest.length) (h : checkVisit rsaPublicKey sigCount rest = .ok sigCount') :
    ∃ l rest', rest = SignatureList.bytes l ++ rest' := by
  have hlistSize : signatureListSize rest < 2 ^ 32 := signature_fields_lt rest 16
  have hsize : signatureSize rest < 2 ^ 32 := signature_fields_lt rest 24
  have hchecked : signatureHeaderSize rest = 0 ∧ signaturesSize rest % signatureSize rest = 0 := by
    unfold checkVisit at h
    cases hfind : supportSigItem.find? fun item => guidBytes item.sigType = signatureType rest with
    | none => simp [hfind] at h
    | some item =>
      obtain ⟨hheader, -⟩ := supportSigItem_header item (List.mem_of_find?_eq_some hfind)
      rw [hfind] at h
      dsimp only at h
      split_ifs at h with hwrong hheaders hx509 hdivides
      · refine ⟨hheader ▸ not_not.1 fun hne => hheaders ⟨?_, hne⟩, not_not.1 hdivides⟩
        rw [hheader]
        decide
  obtain ⟨hheader, hdivides⟩ := hchecked
  have hsignatures : signaturesSize rest = signatureListSize rest - signatureListHeader := by
    rw [signaturesSize, hheader]
    unfold signatureListHeader at *
    omega
  rw [hsignatures] at hdivides
  have hcount := Nat.div_mul_cancel (Nat.dvd_of_mod_eq_zero hdivides)
  generalize hquotient : (signatureListSize rest - signatureListHeader) / signatureSize rest = count at hcount
  have hlength : ∀ i < count, (field (rest.drop signatureListHeader) (i * signatureSize rest) (signatureSize rest)).length =
      signatureSize rest := fun i hi => by
    have hle := Nat.mul_le_mul_right (signatureSize rest) (Nat.succ_le_of_lt hi)
    rw [Nat.succ_mul] at hle
    refine length_field ?_
    rw [List.length_drop]
    omega
  let l : SignatureList := {
    type := BitVec.ofNat 128 (leValue (signatureType rest))
    header := []
    size := signatureSize rest
    signatures := (List.range count).map fun i => field (rest.drop signatureListHeader) (i * signatureSize rest) (signatureSize rest)
    length_signatures := fun signature hsignature => by
      obtain ⟨i, hi, rfl⟩ := List.mem_map.1 hsignature
      exact hlength i (List.mem_range.1 hi)
    sized := fun hzero => by
      rw [← hquotient, hzero, Nat.div_zero]
      rfl
    size_lt := hsize
    fits := by
      rw [List.length_map, List.length_range, hcount, List.length_nil]
      omega }
  have hall : l.listSize = signatureListSize rest := by
    unfold SignatureList.listSize
    rw [show l.signatures.length = count by rw [List.length_map, List.length_range]]
    change signatureListHeader + 0 + count * signatureSize rest = signatureListSize rest
    omega
  have hflatten : l.signatures.flatten = (rest.drop signatureListHeader).take (count * signatureSize rest) :=
    flatten_range_field _ _ _
  unfold signatureListHeader at *
  have htype : guidBytes l.type = signatureType rest := by
    have hlen : (signatureType rest).length = 16 := length_field (by omega)
    have hlt := leValue_lt (signatureType rest)
    have hnat : l.type.toNat = leValue (signatureType rest) := by
      rw [hlen] at hlt
      exact (BitVec.toNat_ofNat ..).trans (Nat.mod_eq_of_lt hlt)
    rw [guidBytes, hnat]
    conv_lhs => rw [← hlen]
    exact leBytes_leValue _
  have hword : ∀ start, start + 4 ≤ rest.length → leBytes 4 (leValue (field rest start 4)) = field rest start 4 :=
    fun start hs => by
    have hbytes := leBytes_leValue (field rest start 4)
    rwa [length_field hs] at hbytes
  have hzero : leBytes 4 0 = field rest 20 4 := by rw [← hheader, signatureHeaderSize, hword 20 (by omega)]
  refine ⟨l, (rest.drop 28).drop (count * signatureSize rest), ?_⟩
  rw [SignatureList.bytes, htype, hall, hflatten]
  change rest = (field rest 0 16 ++
    (leBytes 4 (signatureListSize rest) ++ (leBytes 4 0 ++ (leBytes 4 (signatureSize rest) ++ ([] ++ _))))) ++ _
  rw [hzero, signatureListSize, hword 16 (by omega)]
  have hsizes : leBytes 4 (signatureSize rest) = field rest 24 4 := hword 24 (by omega)
  rw [hsizes]
  simp only [List.append_assoc, List.nil_append, List.take_append_drop]
  rw [field_append_drop rest 24, field_append_drop rest 20, field_append_drop rest 16, field_append_drop rest 0, List.drop_zero]

theorem row_of_walk (hlong : LongLists data behind) {rounds sigCount : Nat}
    (h : walk signatureListSize (checkVisit rsaPublicKey) rounds 0 (data ++ behind) data.length = some (.ok (sigCount, 0))) :
    ∃ lists, data = signatureLists.row lists ∧ AcceptedRow rsaPublicKey behind lists ∧
      sigCount = countSignatures lists % 2 ^ 32 := by
  have hparse : ∀ acc rest' n' acc', Comes signatureListSize (data ++ behind) data.length rest' n' → 0 < n' →
      signatureListSize rest' ≤ n' → checkVisit rsaPublicKey acc rest' = .ok acc' →
      ∃ l after, rest' = signatureLists.bytes l ++ after ∧ checkStep rsaPublicKey acc l after = .ok acc' := by
    intro acc rest' n' acc' hcomes hpos hle hvisit
    have hin := hcomes.le_length (by rw [List.length_append]; omega)
    obtain ⟨l, after, rfl⟩ := exists_list (hlong rest' n' hcomes hpos hle) (by omega) hvisit
    exact ⟨l, after, rfl, (checkVisit_step _ acc l after).symm.trans hvisit⟩
  obtain ⟨lists, behind', hbytes, hlen, hfold⟩ := signatureLists.exists_row hparse h
  obtain ⟨rfl, rfl⟩ := List.append_inj hbytes hlen
  obtain ⟨hpasses, hfails⟩ := foldRow_checkStep rsaPublicKey behind lists 0 (by decide)
  by_cases hrow : AcceptedRow rsaPublicKey behind lists
  · have hcount := (hpasses hrow).symm.trans hfold
    rw [Nat.zero_add] at hcount
    exact ⟨lists, rfl, hrow, (Except.ok.inj hcount).symm⟩
  · exact absurd ((hfails hrow).symm.trans hfold) (by simp)

theorem walk_of_row (hrow : AcceptedRow rsaPublicKey behind lists) :
    walk signatureListSize (checkVisit rsaPublicKey) ((signatureLists.row lists).length + 1) 0 (signatureLists.row lists ++ behind)
      (signatureLists.row lists).length = some (.ok (countSignatures lists % 2 ^ 32, 0)) := by
  have hle := signatureLists.length_le_row lists
  have hwalk := signatureLists.walk_row behind (fun acc l (_ : l ∈ lists) rest => checkVisit_step rsaPublicKey acc l rest)
    (Nat.lt_succ_of_le hle) 0
  rw [(foldRow_checkStep _ _ _ 0 (by decide)).1 hrow, Nat.zero_add] at hwalk
  exact hwalk

/-- Data that pass the check of a key variable. -/
theorem row_of_checked {key : VariableKey} (hlong : LongLists data behind) (hkey : isKeyVariable key = true)
    (h : checkSignatureListFormat rsaPublicKey key data behind = some .success) :
    ∃ lists, data = signatureLists.row lists ∧ AcceptedRow rsaPublicKey behind lists ∧
      (key = pkKey → countSignatures lists % 2 ^ 32 ≤ 1) := by
  unfold checkSignatureListFormat at h
  by_cases hdata : data = []
  · exact ⟨[], hdata, trivial, fun _ => by decide⟩
  rw [if_neg hdata, hkey, Bool.not_true, if_neg (by decide)] at h
  split at h
  · simp at h
  · rename_i status hwalk
    obtain ⟨sigCount, rest, hvisit⟩ := exists_visit_of_walk hwalk
    rw [checkVisit_error hvisit] at h
    simp at h
  · rename_i sigCount sigDataSize hwalk
    by_cases hleft : sigDataSize = 0
    swap
    · simp [hleft] at h
    by_cases hpk : key = pkKey ∧ sigCount > 1
    · simp [hleft, hpk] at h
    subst hleft
    obtain ⟨lists, hrow, haccepted, rfl⟩ := row_of_walk hlong hwalk
    exact ⟨lists, hrow, haccepted, fun hk => Nat.le_of_not_lt fun hmany => hpk ⟨hk, hmany⟩⟩

end Passes

/-- **The check lets exactly the rows of accepted lists pass.** For a key variable, and data of which no list is shorter than
its header, the loop ends; the data are good if and only if they are such lists, one behind the other and nothing else, and
no more than one signature for PK. -/
theorem checkSignatureListFormat_iff (rsaPublicKey : List (BitVec 8) → Bool) (key : VariableKey) {data behind : List (BitVec 8)}
    (hlong : LongLists data behind) :
    checkSignatureListFormat rsaPublicKey key data behind ≠ none ∧
    (checkSignatureListFormat rsaPublicKey key data behind = some .success ↔
      (isKeyVariable key = true → ∃ lists, data = signatureLists.row lists ∧ AcceptedRow rsaPublicKey behind lists ∧
        (key = pkKey → countSignatures lists % 2 ^ 32 ≤ 1))) := by
  unfold checkSignatureListFormat
  by_cases hdata : data = []
  · subst hdata
    rw [if_pos rfl]
    exact ⟨by simp, ⟨fun _ _ => ⟨[], rfl, trivial, fun _ => by decide⟩, fun _ => rfl⟩⟩
  rw [if_neg hdata]
  by_cases hkey : isKeyVariable key = true
  · have hends := walk_ne_none (checkVisit rsaPublicKey)
      (fun rest n hcomes hpos hle => Nat.lt_of_lt_of_le (by decide) (hlong rest n hcomes hpos hle)) (Nat.lt_succ_self _) 0
    rw [hkey, Bool.not_true, if_neg (by decide)]
    constructor
    · split
      · contradiction
      · simp
      · split_ifs <;> simp
    constructor
    · intro h _
      refine row_of_checked hlong hkey ?_
      rw [checkSignatureListFormat, if_neg hdata, hkey, Bool.not_true, if_neg (by decide)]
      exact h
    · intro h
      obtain ⟨lists, rfl, haccepted, hpk⟩ := h rfl
      rw [walk_of_row haccepted]
      dsimp only
      rw [if_neg (by decide), if_neg fun h => Nat.not_lt.2 (hpk h.1) h.2]
  · rw [Bool.not_eq_true] at hkey
    rw [hkey, Bool.not_false, if_pos rfl]
    exact ⟨by simp, ⟨fun _ h => by simp at h, fun _ => rfl⟩⟩

/-- The lists of a row are not shorter than their headers. -/
theorem longLists_row (lists : List SignatureList) (behind : List (BitVec 8)) : LongLists (signatureLists.row lists) behind := by
  intro rest n hcomes hpos _
  obtain ⟨left, -, rfl, rfl⟩ := signatureLists.comes_row hcomes
  cases left with
  | nil => simp [Format.row] at hpos
  | cons l left =>
    have hsize := (listAt l (signatureLists.row left ++ behind)).listSize
    rw [Format.row_cons, List.append_assoc]
    change signatureListHeader ≤ signatureListSize (l.bytes ++ _)
    rw [hsize, SignatureList.listSize, Nat.add_assoc]
    exact Nat.le_add_right _ _

theorem sha256_signature : (∀ signature ∈ [List.replicate 48 (0 : BitVec 8)], signature.length = 48) ∧
    (48 = 0 → [List.replicate 48 (0 : BitVec 8)] = []) ∧ 48 < 2 ^ 32 ∧
    signatureListHeader + ([] : List (BitVec 8)).length + [List.replicate 48 (0 : BitVec 8)].length * 48 < 2 ^ 32 := by decide

/-- The hash of one image. -/
def sha256List : SignatureList :=
  ⟨0x28439336F941A9AC4092504CC1C41626, [], 48, [List.replicate 48 0], sha256_signature.1, sha256_signature.2.1,
    sha256_signature.2.2.1, sha256_signature.2.2.2⟩

theorem checkSignatureListFormat_iff_sha256 :
    checkSignatureListFormat (fun _ => true) pkKey (signatureLists.row [sha256List]) [] ≠ none ∧
    (checkSignatureListFormat (fun _ => true) pkKey (signatureLists.row [sha256List]) [] = some .success ↔
      (isKeyVariable pkKey = true → ∃ lists, signatureLists.row [sha256List] = signatureLists.row lists ∧
        AcceptedRow (fun _ => true) [] lists ∧ (pkKey = pkKey → countSignatures lists % 2 ^ 32 ≤ 1))) :=
  checkSignatureListFormat_iff (fun _ => true) pkKey (longLists_row [sha256List] [])

end Andromeda
