import AndromedaBoot.SecureBoot.Variables
import Mathlib.Data.List.Flatten
import Mathlib.Data.List.Nodup
import Mathlib.Data.List.TakeWhile

/-!
# The certificate database (AuthService.c)

`certdb` and `certdbv` note, for each variable that anyone may own, the certificates of its owner. Their data are a length
and then the nodes, each an `AUTH_CERT_DB_DATA` with the name and the certificates behind it.

| here | there |
| --- | --- |
| `findCertsLoop`, `findCertsFromDb` | `FindCertsFromDb`, :1353-1445 |
| `getCertsFromDb` | :1464-1529 |
| `deleteCertsFromDb` | :1547-1663 |
| `insertCertsToDb` | :1688-1839, and `calculatePrivAuthVarSignChainSHADigest`, :1250-1322 |
| `staleLoop`, `cleanCertsFromDb` | `CleanCertsFromDb`, :1854-1948 |

Sizes and offsets are `UINT32`s. A read behind the data gives zeros here; nothing below depends on it.
-/

namespace Andromeda

open PackedFields

/-- The bytes of a name. -/
def nameBytes (name : List (BitVec 16)) : List (BitVec 8) := name.flatMap fun c => leBytes 2 c.toNat

/-- The `CHAR16`s of some bytes. -/
def wordsOf : List (BitVec 8) → List (BitVec 16)
  | b0 :: b1 :: bytes => (b1 ++ b0) :: wordsOf bytes
  | _ => []

/-- `sizeof (AUTH_CERT_DB_DATA)` -/
def certNodeHeader : Nat := 28

/-- `VarAttr` -/
def certDbAttributes (nv : Bool) : BitVec 32 :=
  (if nv then nonVolatile else 0) ||| runtimeAccess ||| bootserviceAccess ||| timeBasedAuthenticatedWriteAccess

/-! ## A node -/

/-- An `AUTH_CERT_DB_DATA` and what is behind it. -/
structure CertNode where
  key : VariableKey
  certData : List (BitVec 8)
deriving DecidableEq, Repr

def CertNode.size (node : CertNode) : Nat := certNodeHeader + 2 * node.key.name.length + node.certData.length

def CertNode.bytes (node : CertNode) : List (BitVec 8) :=
  guidBytes node.key.vendorGuid ++
    (leBytes 4 node.size ++
      (leBytes 4 node.key.name.length ++ (leBytes 4 node.certData.length ++ (nameBytes node.key.name ++ node.certData))))

/-- The data of a database. -/
def certDbData (nodes : List CertNode) : List (BitVec 8) :=
  leBytes 4 (4 + (nodes.flatMap CertNode.bytes).length) ++ nodes.flatMap CertNode.bytes

/-! ## The code -/

/-- `CertOffset`, `CertDataSize`, `CertNodeOffset` and `CertNodeSize`. -/
structure CertPlace where
  certOffset : Nat
  certDataSize : Nat
  certNodeOffset : Nat
  certNodeSize : Nat
deriving DecidableEq, Repr

/-- The fields of the `AUTH_CERT_DB_DATA` at an offset. -/
def nodeGuid (data : List (BitVec 8)) (offset : Nat) : List (BitVec 8) := field data offset 16

def nodeSizeAt (data : List (BitVec 8)) (offset : Nat) : Nat := leValue (field data (offset + 16) 4)

def nameSizeAt (data : List (BitVec 8)) (offset : Nat) : Nat := leValue (field data (offset + 20) 4)

def certSizeAt (data : List (BitVec 8)) (offset : Nat) : Nat := leValue (field data (offset + 24) 4)

/-- The `while` loop of `FindCertsFromDb`; it does not end if the offset comes back to where it was. -/
def findCertsLoop (key : VariableKey) (data : List (BitVec 8)) : Nat → Nat → Option (Except AuthStatus CertPlace)
  | 0, _ => none
  | rounds + 1, offset =>
    if offset < data.length % 2 ^ 32 then
      let nodeSize := nodeSizeAt data offset
      let nameSize := nameSizeAt data offset
      let certSize := certSizeAt data offset
      if nodeGuid data offset = guidBytes key.vendorGuid then
        if nodeSize ≠ certNodeHeader + certSize + 2 * nameSize then some (.error .invalidParameter)
        else
          let nameOffset := (offset + certNodeHeader) % 2 ^ 32
          if nameSize = key.name.length ∧ field data nameOffset (2 * nameSize) = nameBytes key.name then
            some (.ok ⟨(nameOffset + 2 * nameSize) % 2 ^ 32, certSize, offset, nodeSize⟩)
          else findCertsLoop key data rounds ((nameOffset + 2 * nameSize + certSize) % 2 ^ 32)
      else findCertsLoop key data rounds ((offset + nodeSize) % 2 ^ 32)
    else some (.error .notFound)

/-- `FindCertsFromDb`. A loop that visits more offsets than there are does not end. -/
def findCertsFromDb (key : VariableKey) (data : List (BitVec 8)) : Option (Except AuthStatus CertPlace) :=
  if data.length < 4 then some (.error .invalidParameter)
  else if leValue (field data 0 4) ≠ data.length % 2 ^ 32 then some (.error .invalidParameter)
  else findCertsLoop key data (data.length + 1) 4

/-- `mHashInfo`: the sizes of the digests, and the object identifiers. -/
def hashInfo : List (Nat × List (BitVec 8)) :=
  [(32, [0x60, 0x86, 0x48, 0x01, 0x65, 0x03, 0x04, 0x02, 0x01]),
   (48, [0x60, 0x86, 0x48, 0x01, 0x65, 0x03, 0x04, 0x02, 0x02]),
   (64, [0x60, 0x86, 0x48, 0x01, 0x65, 0x03, 0x04, 0x02, 0x03])]

/-- `mHashInfo[HashAlgId].HashSize` -/
def hashSize (hashAlgId : Nat) : Nat := (hashInfo.getD hashAlgId (0, [])).1

/-- What is used of the certificates. -/
structure CertCrypto where
  /-- `X509GetCommonName`, with the terminator not counted. -/
  commonName : List (BitVec 8) → Option (List (BitVec 8))
  /-- `X509GetTBSCert` -/
  tbsCert : List (BitVec 8) → Option (List (BitVec 8))
  /-- `Init`, `Update` and `Final` of an entry of `mHashInfo`. -/
  digest : Nat → List (BitVec 8) → Option (List (BitVec 8))
  length_digest : ∀ {hashAlgId message d}, digest hashAlgId message = some d → d.length = hashSize hashAlgId

/-- `CalculatePrivAuthVarSignChainSHADigest` -/
def calculatePrivAuthVarSignChainSHADigest (crypto : CertCrypto) (hashAlgId : Nat) (signerCert topLevelCert : List (BitVec 8)) :
    Option (List (BitVec 8)) :=
  if hashAlgId ≥ hashInfo.length then none
  else
    match crypto.commonName signerCert, crypto.tbsCert topLevelCert with
    | some name, some tbs => crypto.digest hashAlgId (name ++ tbs)
    | _, _ => none

section

variable (driver : VariableDriver)

/-- `GetCertsFromDb` -/
def getCertsFromDb (key : VariableKey) (nv : Bool) (s : AuthState) : Except AuthStatus (List (BitVec 8)) × AuthState :=
  match authServiceInternalFindVariable (certDbKey nv) s with
  | none => (.error .notFound, s)
  | some data =>
    if data = [] then (.error .notFound, s)
    else
      match findCertsFromDb key data with
      | none => (.error .aborted, s.stop)
      | some (.error status) => (.error status, s)
      | some (.ok place) => (.ok (field data place.certOffset place.certDataSize), s)

/-- `DeleteCertsFromDb` -/
def deleteCertsFromDb (key : VariableKey) (nv : Bool) (s : AuthState) : AuthStatus × AuthState :=
  match authServiceInternalFindVariable (certDbKey nv) s with
  | none => (.notFound, s)
  | some data =>
    if data = [] then (.notFound, s)
    else if data.length = 4 then (.success, s)
    else
      match findCertsFromDb key data with
      | none => (.aborted, s.stop)
      | some (.error status) => (status, s)
      | some (.ok place) =>
        if data.length < (place.certNodeOffset + place.certNodeSize) % 2 ^ 32 then (.notFound, s)
        else
          let newSize := (data.length + 2 ^ 32 - place.certNodeSize) % 2 ^ 32
          let newCertDb := setField (data.take place.certNodeOffset) 0 (leBytes 4 newSize) ++
            data.drop (place.certNodeOffset + place.certNodeSize)
          authServiceInternalUpdateVariable driver (certDbKey nv) (newCertDb.take newSize) (certDbAttributes nv) s

/-- `InsertCertsToDb` -/
def insertCertsToDb (crypto : CertCrypto) (maxCertDbSize hashAlgId : Nat) (key : VariableKey) (nv : Bool)
    (signerCert topLevelCert : List (BitVec 8)) (s : AuthState) : AuthStatus × AuthState :=
  if hashAlgId ≥ hashInfo.length then (.invalidParameter, s)
  else
    match authServiceInternalFindVariable (certDbKey nv) s with
    | none => (.notFound, s)
    | some data =>
      if data = [] then (.notFound, s)
      else
        match findCertsFromDb key data with
        | none => (.aborted, s.stop)
        | some (.ok _) => (.accessDenied, s)
        | some (.error _) =>
          let certDataSize := hashSize hashAlgId
          let certNodeSize := (certNodeHeader + certDataSize + 2 * (key.name.length % 2 ^ 32)) % 2 ^ 32
          let newSize := (data.length + certNodeSize) % 2 ^ 32
          if newSize > maxCertDbSize then (.outOfResources, s)
          else
            match calculatePrivAuthVarSignChainSHADigest crypto hashAlgId signerCert topLevelCert with
            | none => (.aborted, s)
            | some shaDigest =>
              let node := guidBytes key.vendorGuid ++
                (leBytes 4 certNodeSize ++ (leBytes 4 key.name.length ++ (leBytes 4 certDataSize ++
                  (nameBytes key.name ++ shaDigest.take certDataSize))))
              authServiceInternalUpdateVariable driver (certDbKey nv)
                ((setField data 0 (leBytes 4 newSize) ++ node).take newSize) (certDbAttributes nv) s

/-- The name of the node at an offset, up to the first terminator. -/
def nodeKey (data : List (BitVec 8)) (offset : Nat) : VariableKey :=
  ⟨(wordsOf (field data (offset + certNodeHeader) (2 * nameSizeAt data offset))).takeWhile (· ≠ 0),
    BitVec.ofNat 128 (leValue (nodeGuid data offset))⟩

/-- The variable of a node is there, and time-based. -/
def isTimeBased (vars : Variables) (key : VariableKey) : Bool :=
  (vars key).any fun v => hasAny v.attributes timeBasedAuthenticatedWriteAccess

/-- The inner loop of `CleanCertsFromDb`: the first node that has no such variable, if the loop ends. -/
def staleLoop (vars : Variables) (data : List (BitVec 8)) : Nat → Nat → Option (Option VariableKey)
  | 0, _ => none
  | rounds + 1, offset =>
    if offset < data.length % 2 ^ 32 then
      if isTimeBased vars (nodeKey data offset) then
        staleLoop vars data rounds ((offset + nodeSizeAt data offset) % 2 ^ 32)
      else some (some (nodeKey data offset))
    else some none

/-- `CleanCertsFromDb`, cut off after some rounds: while a node cannot be deleted it goes on. -/
def cleanCertsFromDb : Nat → AuthState → AuthStatus × AuthState
  | 0, s => (.aborted, s.stop)
  | rounds + 1, s =>
    match authServiceInternalFindVariable (certDbKey true) s with
    | none => (.notFound, s)
    | some data =>
      if data = [] then (.notFound, s)
      else
        match staleLoop s.vars data (data.length + 1) 4 with
        | none => (.aborted, s.stop)
        | some none => (.success, s)
        | some (some key) => cleanCertsFromDb rounds (deleteCertsFromDb driver key true s).2

end

/-! ## Nodes and their bytes -/

section Nodes

variable {node : CertNode} {data pre rest : List (BitVec 8)} {key : VariableKey}

theorem length_nameBytes (name : List (BitVec 16)) : (nameBytes name).length = 2 * name.length := by
  induction name with
  | nil => rfl
  | cons c name ih =>
    rw [nameBytes, List.flatMap_cons, List.length_append, length_leBytes, ← nameBytes, ih, List.length_cons]
    omega

theorem CertNode.length_bytes (node : CertNode) : node.bytes.length = node.size := by
  simp only [CertNode.bytes, guidBytes, List.length_append, length_leBytes, length_nameBytes, CertNode.size, certNodeHeader]
  omega

theorem CertNode.size_pos (node : CertNode) : 0 < node.size := by
  unfold CertNode.size certNodeHeader
  omega

theorem wordsOf_nameBytes (name : List (BitVec 16)) : wordsOf (nameBytes name) = name := by
  induction name with
  | nil => rfl
  | cons c name ih =>
    have hc : BitVec.ofNat 8 (c.toNat / 256) ++ BitVec.ofNat 8 c.toNat = c := by
      have hlt := c.isLt
      apply BitVec.eq_of_toNat_eq
      rw [BitVec.toNat_append, BitVec.toNat_ofNat, BitVec.toNat_ofNat, ← Nat.shiftLeft_add_eq_or_of_lt (by omega),
        Nat.shiftLeft_eq]
      omega
    rw [nameBytes, List.flatMap_cons, ← nameBytes]
    exact congrArg₂ List.cons hc ih

theorem nameBytes_inj {name name' : List (BitVec 16)} : nameBytes name = nameBytes name' ↔ name = name' :=
  ⟨fun h => by rw [← wordsOf_nameBytes name, h, wordsOf_nameBytes], congrArg _⟩

/-- The data have a node at an offset. -/
structure NodeAt (data : List (BitVec 8)) (offset : Nat) (node : CertNode) : Prop where
  guid : nodeGuid data offset = guidBytes node.key.vendorGuid
  size : nodeSizeAt data offset = node.size
  nameSize : nameSizeAt data offset = node.key.name.length
  certSize : certSizeAt data offset = node.certData.length
  name : field data (offset + certNodeHeader) (2 * node.key.name.length) = nameBytes node.key.name
  cert : field data (offset + certNodeHeader + 2 * node.key.name.length) node.certData.length = node.certData
  within : offset + node.size ≤ data.length

theorem nodeAt (hdata : data = pre ++ (node.bytes ++ rest)) (hsmall : data.length < 2 ^ 32) : NodeAt data pre.length node := by
  have hlen : data.length = pre.length + (node.size + rest.length) := by
    rw [hdata, List.length_append, List.length_append, node.length_bytes]
  have hsize : node.size = certNodeHeader + 2 * node.key.name.length + node.certData.length := rfl
  have hguid : (guidBytes node.key.vendorGuid).length = 16 := length_leBytes 16 _
  have hword : ∀ v, v ≤ data.length → leValue (leBytes 4 v) = v := fun v hv => by
    rw [leValue_leBytes, Nat.mod_eq_of_lt (by omega)]
  -- what is behind each of the fields
  let behindHeader := nameBytes node.key.name ++ (node.certData ++ rest)
  let behindNameSize := leBytes 4 node.certData.length ++ behindHeader
  let behindNodeSize := leBytes 4 node.key.name.length ++ behindNameSize
  let behindGuid := leBytes 4 node.size ++ behindNodeSize
  have hat : ∀ i n, field data (pre.length + i) n = field (guidBytes node.key.vendorGuid ++ behindGuid) i n := fun i n => by
    rw [hdata, field_append_right rfl]
    simp only [CertNode.bytes, List.append_assoc]
    rfl
  have hat16 : ∀ i n, field data (pre.length + (16 + i)) n = field behindGuid i n := fun i n =>
    (hat _ n).trans (field_append_right hguid behindGuid)
  have hat20 : ∀ i n, field data (pre.length + (20 + i)) n = field behindNodeSize i n := fun i n => by
    rw [show 20 + i = 16 + (4 + i) by omega, hat16, field_append_right (length_leBytes 4 _)]
  have hat24 : ∀ i n, field data (pre.length + (24 + i)) n = field behindNameSize i n := fun i n => by
    rw [show 24 + i = 20 + (4 + i) by omega, hat20, field_append_right (length_leBytes 4 _)]
  have hat28 : ∀ i n, field data (pre.length + (28 + i)) n = field behindHeader i n := fun i n => by
    rw [show 28 + i = 24 + (4 + i) by omega, hat24, field_append_right (length_leBytes 4 _)]
  refine ⟨?_, ?_, ?_, ?_, ?_, ?_, by omega⟩
  · exact (hat 0 16).trans (field_append_left hguid behindGuid)
  · exact (congrArg leValue ((hat16 0 4).trans (field_append_left (length_leBytes 4 _) _))).trans (hword _ (by omega))
  · exact (congrArg leValue ((hat20 0 4).trans (field_append_left (length_leBytes 4 _) _))).trans (hword _ (by omega))
  · exact (congrArg leValue ((hat24 0 4).trans (field_append_left (length_leBytes 4 _) _))).trans (hword _ (by omega))
  · exact (hat28 0 _).trans (field_append_left (length_nameBytes _) _)
  · rw [Nat.add_assoc]
    exact (hat28 _ _).trans ((field_append_right (length_nameBytes _) _ (i := 0)).trans (field_append_left rfl rest))

end Nodes

/-! ## What the database says -/

/-- The data are those of some nodes, no two of one variable. -/
structure CertDbHolds (data : List (BitVec 8)) (nodes : List CertNode) : Prop where
  data_eq : data = certDbData nodes
  named : ∀ node ∈ nodes, 0 ∉ node.key.name
  nodup : (nodes.map (·.key)).Nodup
  small : data.length < 2 ^ 31

/-- The place of a node behind others. -/
def placeBehind (pre : List CertNode) (node : CertNode) : CertPlace :=
  let offset := 4 + (pre.flatMap CertNode.bytes).length
  ⟨offset + certNodeHeader + 2 * node.key.name.length, node.certData.length, offset, node.size⟩

section Holds

variable {data pre : List (BitVec 8)} {nodes before after : List CertNode} {node : CertNode} {key : VariableKey}
  {offset rounds : Nat}

theorem findCertsLoop_node (h : NodeAt data offset node) (hsmall : data.length < 2 ^ 31) :
    findCertsLoop key data (rounds + 1) offset =
      if node.key = key then
        some (.ok ⟨offset + certNodeHeader + 2 * node.key.name.length, node.certData.length, offset, node.size⟩)
      else findCertsLoop key data rounds (offset + node.size) := by
  have hin := h.within
  have hpos := node.size_pos
  have hsize : node.size = certNodeHeader + node.certData.length + 2 * node.key.name.length := by
    unfold CertNode.size
    omega
  have hheader : (offset + certNodeHeader) % 2 ^ 32 = offset + certNodeHeader := Nat.mod_eq_of_lt (by omega)
  rw [findCertsLoop, h.guid, h.size, h.nameSize, h.certSize, Nat.mod_eq_of_lt (show data.length < 2 ^ 32 by omega),
    if_pos (by omega)]
  dsimp only
  rw [hheader, Nat.mod_eq_of_lt (show offset + certNodeHeader + 2 * node.key.name.length < 2 ^ 32 by omega),
    Nat.mod_eq_of_lt (show offset + certNodeHeader + 2 * node.key.name.length + node.certData.length < 2 ^ 32 by omega),
    Nat.mod_eq_of_lt (show offset + node.size < 2 ^ 32 by omega), if_neg (not_not.2 hsize), h.name]
  by_cases hkey : node.key = key
  · subst hkey
    rw [if_pos rfl, if_pos ⟨rfl, rfl⟩, if_pos rfl]
  · rw [if_neg hkey]
    split_ifs with hguid hname
    · -- then it is the same name of the same vendor
      exact absurd (VariableKey.mk.injEq .. ▸ ⟨nameBytes_inj.1 hname.2, guidBytes_inj.1 hguid⟩) hkey
    · congr 1
      omega
    · rfl

/-- The nodes of other variables are passed. -/
theorem findCertsLoop_skip (rounds : Nat) {rest : List (BitVec 8)} (hdata : data = pre ++ (before.flatMap CertNode.bytes ++ rest))
    (hsmall : data.length < 2 ^ 31) (hbefore : ∀ node ∈ before, node.key ≠ key) :
    findCertsLoop key data (before.length + rounds) pre.length =
      findCertsLoop key data rounds (pre.length + (before.flatMap CertNode.bytes).length) := by
  induction before generalizing pre with
  | nil => simp
  | cons node before ih =>
    rw [List.flatMap_cons, List.append_assoc] at hdata
    have hat := nodeAt hdata (by omega)
    have hmoved : data = (pre ++ node.bytes) ++ (before.flatMap CertNode.bytes ++ rest) := by rw [hdata, List.append_assoc]
    have hnext := ih hmoved fun node hnode => hbefore node (List.mem_cons_of_mem _ hnode)
    rw [List.length_cons, Nat.succ_add, findCertsLoop_node hat hsmall, if_neg (hbefore node List.mem_cons_self),
      List.flatMap_cons, List.length_append, ← Nat.add_assoc, ← node.length_bytes, ← List.length_append, hnext]

theorem length_certDbData (nodes : List CertNode) :
    (certDbData nodes).length = 4 + (nodes.flatMap CertNode.bytes).length := by
  rw [certDbData, List.length_append, length_leBytes]

theorem length_le_flatMap (nodes : List CertNode) : nodes.length ≤ (nodes.flatMap CertNode.bytes).length := by
  induction nodes with
  | nil => exact Nat.zero_le _
  | cons node nodes ih =>
    have hpos := node.size_pos
    rw [List.flatMap_cons, List.length_append, List.length_cons, node.length_bytes]
    omega

theorem CertDbHolds.length_eq (h : CertDbHolds data nodes) : data.length = 4 + (nodes.flatMap CertNode.bytes).length := by
  rw [h.data_eq, length_certDbData]

/-- The length is the one that the data say. -/
theorem CertDbHolds.findCertsFromDb_eq (h : CertDbHolds data nodes) :
    findCertsFromDb key data = findCertsLoop key data (data.length + 1) 4 := by
  have hlen := h.length_eq
  have hsmall := h.small
  have hlist : leValue (field data 0 4) = data.length % 2 ^ 32 := by
    rw [hlen, h.data_eq, certDbData, field_append_left (length_leBytes 4 _), leValue_leBytes]
    rfl
  rw [findCertsFromDb, if_neg (by omega), if_neg (not_not.2 hlist)]

theorem CertDbHolds.find_absent (h : CertDbHolds data nodes) (hkey : ∀ node ∈ nodes, node.key ≠ key) :
    findCertsFromDb key data = some (.error .notFound) := by
  have hlen := h.length_eq
  have hsmall := h.small
  have hle := length_le_flatMap nodes
  have hdata : data = leBytes 4 (4 + (nodes.flatMap CertNode.bytes).length) ++ (nodes.flatMap CertNode.bytes ++ []) := by
    rw [List.append_nil, h.data_eq, certDbData]
  obtain ⟨rounds, hrounds⟩ := Nat.exists_eq_add_of_le (show nodes.length + 1 ≤ data.length + 1 by omega)
  have hskip := findCertsLoop_skip (rounds + 1) hdata hsmall hkey
  rw [length_leBytes, ← hlen, findCertsLoop, if_neg (by omega)] at hskip
  rw [h.findCertsFromDb_eq, hrounds, Nat.add_right_comm, Nat.add_assoc, hskip]

/-- A node is behind those before it. -/
theorem CertDbHolds.nodeAt_behind (h : CertDbHolds data (before ++ node :: after)) :
    NodeAt data (4 + (before.flatMap CertNode.bytes).length) node := by
  have hsmall := h.small
  have hat : NodeAt data (leBytes 4 data.length ++ before.flatMap CertNode.bytes).length node := by
    have hdata : data =
        (leBytes 4 data.length ++ before.flatMap CertNode.bytes) ++ (node.bytes ++ after.flatMap CertNode.bytes) := by
      rw [List.append_assoc, ← List.flatMap_cons, ← List.flatMap_append, h.length_eq]
      exact h.data_eq
    exact nodeAt hdata (by omega)
  rwa [List.length_append, length_leBytes] at hat

theorem CertDbHolds.find_present (h : CertDbHolds data (before ++ node :: after)) :
    findCertsFromDb node.key data = some (.ok (placeBehind before node)) := by
  have hlen := h.length_eq
  have hsmall := h.small
  have hle := length_le_flatMap before
  rw [List.flatMap_append, List.length_append] at hlen
  have hdata : data = leBytes 4 data.length ++ (before.flatMap CertNode.bytes ++ (node :: after).flatMap CertNode.bytes) := by
    rw [← List.flatMap_append, h.length_eq]
    exact h.data_eq
  have hnew : ∀ other ∈ before, other.key ≠ node.key := by
    have hnodup := h.nodup
    rw [List.map_append, List.map_cons, List.nodup_append] at hnodup
    exact fun other hother => hnodup.2.2 _ (List.mem_map_of_mem hother) _ List.mem_cons_self
  obtain ⟨rounds, hrounds⟩ := Nat.exists_eq_add_of_le (show before.length + 1 ≤ data.length + 1 by omega)
  have hskip := findCertsLoop_skip (rounds + 1) hdata hsmall hnew
  rw [length_leBytes, findCertsLoop_node h.nodeAt_behind hsmall, if_pos rfl] at hskip
  rw [h.findCertsFromDb_eq, hrounds, Nat.add_right_comm, Nat.add_assoc, hskip]
  rfl

end Holds

/-! ## The database in the variables -/

/-- The database is there and notes some nodes. -/
def HasCerts (vars : Variables) (nv : Bool) (nodes : List CertNode) : Prop :=
  ∃ v, vars (certDbKey nv) = some v ∧ v.attributes = certDbAttributes nv ∧ CertDbHolds v.data nodes

/-- What a function that only updates the database leaves behind: it succeeds with the nodes `new`, or fails and keeps the
old ones. -/
structure UpdatesCerts (nv : Bool) (old new : List CertNode) (s : AuthState) (r : AuthStatus × AuthState) : Prop where
  others : ∀ key, key ≠ certDbKey nv → r.2.vars key = s.vars key
  platformMode : r.2.platformMode = s.platformMode
  vendorKeyState : r.2.vendorKeyState = s.vendorKeyState
  certs : r.1 = .success ∧ HasCerts r.2.vars nv new ∨ r.1 ≠ .success ∧ r.2.vars = s.vars

section Updates

variable {driver : VariableDriver} {nv : Bool} {nodes new : List CertNode} {key : VariableKey} {s : AuthState}

theorem CertDbHolds.ne_nil {data : List (BitVec 8)} (h : CertDbHolds data nodes) : data ≠ [] := by
  have hlen := h.length_eq
  rintro rfl
  rw [List.length_nil] at hlen
  omega

theorem certDbAttributes_masked (nv : Bool) : certDbAttributes nv &&& ~~~appendWrite = certDbAttributes nv := by
  cases nv <;> decide

theorem certDbAttributes_append (nv : Bool) : hasAny (certDbAttributes nv) appendWrite = false := by
  cases nv <;> decide

theorem certDbAttributes_access (nv : Bool) : hasAny (certDbAttributes nv) (bootserviceAccess ||| runtimeAccess) = true := by
  cases nv <;> decide

/-- Writing the data of some nodes over a database. -/
theorem updateCerts (h : HasCerts s.vars nv nodes) {data : List (BitVec 8)} (hnew : CertDbHolds data new) :
    UpdatesCerts nv nodes new s (authServiceInternalUpdateVariable driver (certDbKey nv) data (certDbAttributes nv) s) := by
  obtain ⟨old, hold, holdAttributes, -⟩ := h
  let u : VariableUpdate := ⟨certDbKey nv, data, certDbAttributes nv, none⟩
  refine ⟨fun key hkey => updateVariable_other hkey, updateVariable_platformMode, updateVariable_vendorKeyState, ?_⟩
  rcases updateVariable_cases driver s u with hfails | ⟨hsuccess, hupdate⟩
  · exact .inr hfails
  · have hstays : ¬u.Deletes := by
      rintro (⟨hnone, -⟩ | hdenied)
      · exact hnew.ne_nil hnone
      · exact absurd (hdenied.symm.trans (certDbAttributes_access nv)) (by decide)
    obtain ⟨v, hv, hdata, hlabels⟩ := driver.update_stores hupdate hnew.ne_nil hstays (.inl (certDbAttributes_append nv))
    have hattributes : v.attributes = certDbAttributes nv := by
      refine hlabels.holds (· = certDbAttributes nv) (certDbAttributes_masked nv) ?_
      intro o ho
      obtain rfl : old = o := Option.some.inj (hold.symm.trans ho)
      exact holdAttributes
    exact .inl ⟨hsuccess, v, hv, hattributes, by rw [hdata]; exact hnew⟩

theorem CertDbHolds.split {data : List (BitVec 8)} (h : CertDbHolds data nodes) {node : CertNode} (hnode : node ∈ nodes) :
    ∃ before after, nodes = before ++ node :: after ∧ nodes.filter (·.key ≠ node.key) = before ++ after := by
  obtain ⟨before, after, rfl⟩ := List.append_of_mem hnode
  have hnodup := h.nodup
  rw [List.map_append, List.map_cons, List.nodup_append, List.nodup_cons] at hnodup
  obtain ⟨-, ⟨hafter, -⟩, hbefore⟩ := hnodup
  refine ⟨before, after, rfl, ?_⟩
  rw [List.filter_append, List.filter_cons, if_neg (by simp)]
  congr 1
  · refine List.filter_eq_self.2 fun other hother => ?_
    simpa using hbefore _ (List.mem_map_of_mem hother) _ List.mem_cons_self
  · refine List.filter_eq_self.2 fun other hother => ?_
    simpa using fun heq : other.key = node.key => hafter (heq ▸ List.mem_map_of_mem hother)

theorem CertDbHolds.of_sublist {data : List (BitVec 8)} (h : CertDbHolds data nodes) (hsub : new.Sublist nodes) :
    CertDbHolds (certDbData new) new := by
  have hle : (new.flatMap CertNode.bytes).length ≤ (nodes.flatMap CertNode.bytes).length := (hsub.flatMap _).length_le
  have hlen := h.length_eq
  have hsmall := h.small
  refine ⟨rfl, fun node hnode => h.named node (hsub.subset hnode), h.nodup.sublist (hsub.map _), ?_⟩
  rw [length_certDbData]
  omega

/-- The data in front of a node and behind it, with a new length. -/
theorem CertDbHolds.exchange {data : List (BitVec 8)} {before after : List CertNode} {node : CertNode}
    (h : CertDbHolds data (before ++ node :: after)) :
    (setField (data.take (4 + (before.flatMap CertNode.bytes).length)) 0 (leBytes 4 (certDbData (before ++ after)).length) ++
      data.drop (4 + (before.flatMap CertNode.bytes).length + node.size)).take (certDbData (before ++ after)).length =
      certDbData (before ++ after) := by
  have hfront : (leBytes 4 data.length ++ before.flatMap CertNode.bytes).length = 4 + (before.flatMap CertNode.bytes).length := by
    rw [List.length_append, length_leBytes]
  have hdata : data = leBytes 4 data.length ++ before.flatMap CertNode.bytes ++ (node.bytes ++ after.flatMap CertNode.bytes) := by
    rw [List.append_assoc, ← List.flatMap_cons, ← List.flatMap_append, h.length_eq]
    exact h.data_eq
  have htake : data.take (4 + (before.flatMap CertNode.bytes).length) = leBytes 4 data.length ++ before.flatMap CertNode.bytes := by
    conv_lhs => rw [hdata]
    exact List.take_left' hfront
  have hdrop : data.drop (4 + (before.flatMap CertNode.bytes).length + node.size) = after.flatMap CertNode.bytes := by
    conv_lhs => rw [hdata]
    rw [← List.drop_drop, List.drop_left' hfront, List.drop_left' node.length_bytes]
  rw [htake, hdrop, setField_append_left (by rw [length_leBytes, length_leBytes]), List.append_assoc, ← List.flatMap_append]
  refine List.take_of_length_le ?_ |>.trans ?_
  · exact Nat.le_of_eq (by rw [List.length_append, length_leBytes, length_certDbData])
  · rw [length_certDbData, certDbData]

/-- The owner that is noted for a variable. -/
def ownerOf (nodes : List CertNode) (key : VariableKey) : Option (List (BitVec 8)) :=
  (nodes.find? (·.key = key)).map (·.certData)

theorem CertDbHolds.ownerOf_eq {data : List (BitVec 8)} (h : CertDbHolds data nodes) {node : CertNode} (hnode : node ∈ nodes) :
    ownerOf nodes node.key = some node.certData := by
  obtain ⟨before, after, rfl, -⟩ := h.split hnode
  have hnodup := h.nodup
  rw [List.map_append, List.map_cons, List.nodup_append] at hnodup
  have hbefore : before.find? (·.key = node.key) = none := List.find?_eq_none.2 fun other hother => by
    simpa using hnodup.2.2 _ (List.mem_map_of_mem hother) _ List.mem_cons_self
  rw [ownerOf, List.find?_append, hbefore, Option.none_or, List.find?_cons_of_pos (by simp)]
  rfl

theorem ownerOf_eq_none_iff : ownerOf nodes key = none ↔ ∀ node ∈ nodes, node.key ≠ key := by
  simp [ownerOf]

/-- **Reading** gives what is noted. -/
theorem getCertsFromDb_eq (h : HasCerts s.vars nv nodes) :
    getCertsFromDb key nv s = (match ownerOf nodes key with
      | some certData => .ok certData
      | none => .error .notFound, s) := by
  obtain ⟨v, hv, -, hholds⟩ := h
  have hfind : authServiceInternalFindVariable (certDbKey nv) s = some v.data := by
    rw [authServiceInternalFindVariable, hv, Option.map_some]
  rw [getCertsFromDb, hfind]
  dsimp only
  rw [if_neg hholds.ne_nil]
  by_cases hkey : ∃ node ∈ nodes, node.key = key
  · obtain ⟨node, hnode, rfl⟩ := hkey
    rw [hholds.ownerOf_eq hnode]
    obtain ⟨before, after, rfl, -⟩ := hholds.split hnode
    rw [hholds.find_present]
    have hat := hholds.nodeAt_behind
    exact congrArg (fun certs => (Except.ok certs, s)) hat.cert
  · have habsent : ∀ node ∈ nodes, node.key ≠ key := by simpa using hkey
    rw [ownerOf_eq_none_iff.2 habsent, hholds.find_absent habsent]

/-- **Deleting** takes the node of the variable out. -/
theorem deleteCertsFromDb_updates (driver : VariableDriver) (key : VariableKey) (h : HasCerts s.vars nv nodes) :
    UpdatesCerts nv nodes (nodes.filter (·.key ≠ key)) s (deleteCertsFromDb driver key nv s) := by
  obtain ⟨v, hv, hattributes, hholds⟩ := id h
  have hfind : authServiceInternalFindVariable (certDbKey nv) s = some v.data := by
    rw [authServiceInternalFindVariable, hv, Option.map_some]
  have hlen := hholds.length_eq
  rw [deleteCertsFromDb, hfind]
  dsimp only
  rw [if_neg hholds.ne_nil]
  split_ifs with hempty
  · have hnil : nodes = [] := List.eq_nil_of_length_eq_zero (by have := length_le_flatMap nodes; omega)
    subst hnil
    exact ⟨fun _ _ => rfl, rfl, rfl, .inl ⟨rfl, h⟩⟩
  · by_cases hkey : ∃ node ∈ nodes, node.key = key
    · obtain ⟨node, hnode, rfl⟩ := hkey
      obtain ⟨before, after, rfl, hfilter⟩ := hholds.split hnode
      have hat := hholds.nodeAt_behind
      have hin := hat.within
      have hsmall := hholds.small
      have hnew := hholds.of_sublist ((List.sublist_cons_self node after).append_left before)
      have hdata := hholds.data_eq
      have hnewSize : (v.data.length + 2 ^ 32 - node.size) % 2 ^ 32 = (certDbData (before ++ after)).length := by
        rw [length_certDbData, List.flatMap_append, List.length_append]
        rw [List.flatMap_append, List.flatMap_cons, List.length_append, List.length_append, node.length_bytes] at hlen
        omega
      rw [hholds.find_present, hfilter]
      dsimp only [placeBehind]
      rw [if_neg (by omega), hnewSize, hholds.exchange]
      exact updateCerts h hnew
    · have habsent : ∀ node ∈ nodes, node.key ≠ key := by simpa using hkey
      rw [hholds.find_absent habsent]
      exact ⟨fun _ _ => rfl, rfl, rfl, .inr ⟨by simp, rfl⟩⟩

theorem hashSize_le (hashAlgId : Nat) : hashSize hashAlgId ≤ 64 := by
  by_cases hlt : hashAlgId < hashInfo.length
  · have hall : ∀ info ∈ hashInfo, info.1 ≤ 64 := by decide
    rw [hashSize, List.getD_eq_getElem _ _ hlt]
    exact hall _ (List.getElem_mem hlt)
  · rw [hashSize, List.getD_eq_default _ _ (Nat.le_of_not_lt hlt)]
    exact Nat.zero_le _

/-- The data with a node behind them, and with a new length. -/
theorem CertDbHolds.append {data : List (BitVec 8)} (h : CertDbHolds data nodes) (node : CertNode) :
    (setField data 0 (leBytes 4 (data.length + node.size)) ++ node.bytes).take (data.length + node.size) =
      certDbData (nodes ++ [node]) := by
  have hlen := h.length_eq
  have hdata : data = leBytes 4 data.length ++ nodes.flatMap CertNode.bytes := by
    rw [hlen]
    exact h.data_eq
  have hset : setField data 0 (leBytes 4 (data.length + node.size)) =
      leBytes 4 (data.length + node.size) ++ nodes.flatMap CertNode.bytes := by
    conv_lhs => rw [hdata]
    rw [setField_append_left (by rw [length_leBytes, length_leBytes]), ← hdata]
  have hall : 4 + ((nodes ++ [node]).flatMap CertNode.bytes).length = data.length + node.size := by
    rw [List.flatMap_append, List.length_append, List.flatMap_singleton, node.length_bytes, hlen]
    omega
  rw [hset, List.append_assoc, certDbData, hall, List.flatMap_append, List.flatMap_singleton]
  refine List.take_of_length_le ?_
  rw [List.length_append, List.length_append, length_leBytes, node.length_bytes]
  omega

/-- **Inserting** puts a node behind the others, for a variable without an owner. -/
theorem insertCertsToDb_updates {crypto : CertCrypto} {maxCertDbSize hashAlgId : Nat} {signerCert topLevelCert : List (BitVec 8)}
    (h : HasCerts s.vars nv nodes) (hnamed : 0 ∉ key.name) (hname : key.name.length < 2 ^ 29)
    (hmax : maxCertDbSize < 2 ^ 31) :
    ∃ certData, UpdatesCerts nv nodes (nodes ++ [⟨key, certData⟩]) s
        (insertCertsToDb driver crypto maxCertDbSize hashAlgId key nv signerCert topLevelCert s) ∧
      ((insertCertsToDb driver crypto maxCertDbSize hashAlgId key nv signerCert topLevelCert s).1 = .success →
        ownerOf nodes key = none ∧
        calculatePrivAuthVarSignChainSHADigest crypto hashAlgId signerCert topLevelCert = some certData) := by
  obtain ⟨v, hv, hattributes, hholds⟩ := id h
  have hfails : ∀ status, status ≠ AuthStatus.success → ∀ new, UpdatesCerts nv nodes new s (status, s) :=
    fun status hstatus new =>
    ⟨fun _ _ => rfl, rfl, rfl, .inr ⟨hstatus, rfl⟩⟩
  have hfind : authServiceInternalFindVariable (certDbKey nv) s = some v.data := by
    rw [authServiceInternalFindVariable, hv, Option.map_some]
  unfold insertCertsToDb
  rw [hfind]
  dsimp only
  by_cases halg : hashAlgId ≥ hashInfo.length
  · rw [if_pos halg]
    exact ⟨[], hfails _ (by decide) _, by simp⟩
  rw [if_neg halg, if_neg hholds.ne_nil]
  by_cases hkey : ∃ node ∈ nodes, node.key = key
  · obtain ⟨node, hnode, rfl⟩ := hkey
    obtain ⟨before, after, rfl, -⟩ := hholds.split hnode
    rw [hholds.find_present]
    exact ⟨[], hfails _ (by decide) _, by simp⟩
  have habsent : ∀ node ∈ nodes, node.key ≠ key := by simpa using hkey
  rw [hholds.find_absent habsent]
  dsimp only
  by_cases hroom : (v.data.length + (certNodeHeader + hashSize hashAlgId + 2 * (key.name.length % 2 ^ 32)) % 2 ^ 32) % 2 ^ 32 >
      maxCertDbSize
  · rw [if_pos hroom]
    exact ⟨[], hfails _ (by decide) _, by simp⟩
  rw [if_neg hroom]
  cases hdigest : calculatePrivAuthVarSignChainSHADigest crypto hashAlgId signerCert topLevelCert with
  | none => exact ⟨[], hfails _ (by decide) _, by simp⟩
  | some shaDigest =>
    have hshaDigest : shaDigest.length = hashSize hashAlgId := by
      unfold calculatePrivAuthVarSignChainSHADigest at hdigest
      rw [if_neg halg] at hdigest
      split at hdigest
      · exact crypto.length_digest hdigest
      · simp at hdigest
    have hle := hashSize_le hashAlgId
    have hsmall := hholds.small
    have hlen := hholds.length_eq
    have hnodeSize : (CertNode.mk key shaDigest).size = 28 + 2 * key.name.length + shaDigest.length := rfl
    have hsize : (certNodeHeader + hashSize hashAlgId + 2 * (key.name.length % 2 ^ 32)) % 2 ^ 32 =
        (CertNode.mk key shaDigest).size := by
      rw [hnodeSize, hshaDigest]
      unfold certNodeHeader
      omega
    rw [hsize] at hroom ⊢
    have hnewSize :
        (v.data.length + (CertNode.mk key shaDigest).size) % 2 ^ 32 = v.data.length + (CertNode.mk key shaDigest).size :=
      Nat.mod_eq_of_lt (by omega)
    have hbytes : guidBytes key.vendorGuid ++ (leBytes 4 (CertNode.mk key shaDigest).size ++ (leBytes 4 key.name.length ++
        (leBytes 4 (hashSize hashAlgId) ++ (nameBytes key.name ++ shaDigest.take (hashSize hashAlgId))))) =
        (CertNode.mk key shaDigest).bytes := by
      rw [← hshaDigest, List.take_length]
      rfl
    have hnew : CertDbHolds (certDbData (nodes ++ [⟨key, shaDigest⟩])) (nodes ++ [⟨key, shaDigest⟩]) := by
      refine ⟨rfl, ?_, ?_, ?_⟩
      · intro node hnode
        rcases List.mem_append.1 hnode with hold | hlast
        · exact hholds.named node hold
        · rw [List.mem_singleton.1 hlast]
          exact hnamed
      · rw [List.map_append, List.nodup_append]
        refine ⟨hholds.nodup, List.nodup_singleton _, ?_⟩
        simpa using habsent
      · rw [length_certDbData, List.flatMap_append, List.length_append, List.flatMap_singleton, CertNode.length_bytes]
        omega
    refine ⟨shaDigest, ?_, fun _ => ⟨ownerOf_eq_none_iff.2 habsent, rfl⟩⟩
    dsimp only
    rw [hnewSize, hbytes, hholds.append]
    exact updateCerts h hnew

/-- A change of the database makes no variable time-based. -/
theorem isTimeBased_congr {vars vars' : Variables} (h : HasCerts vars nv nodes) (h' : HasCerts vars' nv new)
    (hothers : ∀ key, key ≠ certDbKey nv → vars' key = vars key) (key : VariableKey) :
    isTimeBased vars' key = isTimeBased vars key := by
  by_cases hkey : key = certDbKey nv
  · obtain ⟨v, hv, hattributes, -⟩ := h
    obtain ⟨v', hv', hattributes', -⟩ := h'
    rw [isTimeBased, isTimeBased, hkey, hv, hv', Option.any_some, Option.any_some, hattributes, hattributes']
  · rw [isTimeBased, isTimeBased, hothers key hkey]

theorem nodeKey_eq {data : List (BitVec 8)} {offset : Nat} {node : CertNode} (h : NodeAt data offset node)
    (hnamed : 0 ∉ node.key.name) :
    nodeKey data offset = node.key := by
  have hname : node.key.name.takeWhile (· ≠ 0) = node.key.name :=
    List.takeWhile_eq_self_iff.2 fun c hc => by simpa using fun hzero : c = 0 => hnamed (hzero ▸ hc)
  have hguid : leValue (guidBytes node.key.vendorGuid) = node.key.vendorGuid.toNat := by
    rw [guidBytes, leValue_leBytes]
    exact Nat.mod_eq_of_lt node.key.vendorGuid.isLt
  rw [nodeKey, h.nameSize, h.name, wordsOf_nameBytes, hname, h.guid, hguid, BitVec.ofNat_toNat, BitVec.setWidth_eq]

theorem staleLoop_eq (vars : Variables) {data pre : List (BitVec 8)} {rounds : Nat}
    (hdata : data = pre ++ nodes.flatMap CertNode.bytes) (hsmall : data.length < 2 ^ 31)
    (hnamed : ∀ node ∈ nodes, 0 ∉ node.key.name) (hrounds : nodes.length < rounds) :
    staleLoop vars data rounds pre.length = some ((nodes.find? fun node => !isTimeBased vars node.key).map (·.key)) := by
  induction nodes generalizing pre rounds with
  | nil =>
    obtain ⟨rounds, rfl⟩ := Nat.exists_eq_add_of_lt hrounds
    rw [List.flatMap_nil, List.append_nil] at hdata
    rw [staleLoop, hdata, if_neg (by omega)]
    rfl
  | cons node nodes ih =>
    obtain ⟨rounds, rfl⟩ : ∃ k, rounds = k + 1 := ⟨rounds - 1, by omega⟩
    rw [List.flatMap_cons] at hdata
    have hat := nodeAt hdata (by omega)
    have hin := hat.within
    have hpos := node.size_pos
    have hmoved : data = (pre ++ node.bytes) ++ nodes.flatMap CertNode.bytes := by rw [hdata, List.append_assoc]
    have hless : nodes.length < rounds := by simpa using hrounds
    have hnext := ih hmoved (fun node hnode => hnamed node (List.mem_cons_of_mem _ hnode)) hless
    rw [staleLoop, if_pos (by omega), nodeKey_eq hat (hnamed node List.mem_cons_self), hat.size,
      Nat.mod_eq_of_lt (show pre.length + node.size < 2 ^ 32 by omega)]
    rw [List.length_append, node.length_bytes] at hnext
    split_ifs with htime
    · rw [hnext, List.find?_cons_of_neg (by simp [htime])]
    · rw [List.find?_cons_of_pos (by simp [htime])]
      rfl

/-- What cleaning leaves of the nodes. -/
structure CleansCerts (vars : Variables) (nodes kept : List CertNode) (r : AuthStatus × AuthState) : Prop where
  certs : HasCerts r.2.vars true kept
  others : ∀ key, key ≠ certDbKey true → r.2.vars key = vars key
  sublist : kept.Sublist nodes
  keeps : ∀ node ∈ nodes, isTimeBased vars node.key = true → node ∈ kept
  clean : r.1 = .success → ∀ node ∈ kept, isTimeBased vars node.key = true

/-- **Cleaning** takes nodes out, but none of a variable that is there; if it comes to its end then all that are left have
their variables. -/
theorem cleanCertsFromDb_cleans (rounds : Nat) (h : HasCerts s.vars true nodes) :
    ∃ kept, CleansCerts s.vars nodes kept (cleanCertsFromDb driver rounds s) ∧
      (cleanCertsFromDb driver rounds s).2.platformMode = s.platformMode ∧
      (cleanCertsFromDb driver rounds s).2.vendorKeyState = s.vendorKeyState := by
  induction rounds generalizing s nodes with
  | zero => exact ⟨nodes, ⟨h, fun _ _ => rfl, List.Sublist.refl _, fun _ hnode _ => hnode, by simp [cleanCertsFromDb]⟩, rfl, rfl⟩
  | succ rounds ih =>
    obtain ⟨v, hv, hattributes, hholds⟩ := id h
    have hlen := hholds.length_eq
    have hle := length_le_flatMap nodes
    have hfind : authServiceInternalFindVariable (certDbKey true) s = some v.data := by
      rw [authServiceInternalFindVariable, hv, Option.map_some]
    have hrounds : nodes.length < v.data.length + 1 := by omega
    have hloop := staleLoop_eq s.vars hholds.data_eq hholds.small hholds.named hrounds
    rw [length_leBytes] at hloop
    rw [cleanCertsFromDb, hfind]
    dsimp only
    rw [if_neg hholds.ne_nil, hloop]
    cases hstale : nodes.find? fun node => !isTimeBased s.vars node.key with
    | none =>
      refine ⟨nodes, ⟨h, fun _ _ => rfl, List.Sublist.refl _, fun _ hnode _ => hnode, fun _ => ?_⟩, rfl, rfl⟩
      simpa using hstale
    | some stale =>
      have hdelete := deleteCertsFromDb_updates driver stale.key h
      have hnew : ∃ left, HasCerts (deleteCertsFromDb driver stale.key true s).2.vars true left ∧ left.Sublist nodes ∧
          ∀ node ∈ nodes, isTimeBased s.vars node.key = true → node ∈ left := by
        rcases hdelete.certs with ⟨-, hcerts⟩ | ⟨-, hsame⟩
        · refine ⟨_, hcerts, List.filter_sublist, fun node hnode htime => List.mem_filter.2 ⟨hnode, ?_⟩⟩
          have hnot := List.find?_some hstale
          simp only [Bool.not_eq_true'] at hnot
          simpa using fun heq : node.key = stale.key => by rw [heq, hnot] at htime; simp at htime
        · exact ⟨nodes, hsame ▸ h, List.Sublist.refl _, fun _ hnode _ => hnode⟩
      obtain ⟨left, hcerts, hsub, hleft⟩ := hnew
      obtain ⟨kept, hcleans, hmode, hvendor⟩ := ih hcerts
      have htime := isTimeBased_congr h hcerts hdelete.others
      refine ⟨kept, ⟨hcleans.certs, fun key hkey => (hcleans.others key hkey).trans (hdelete.others key hkey),
        hcleans.sublist.trans hsub, fun node hnode hkeep => hcleans.keeps node (hleft node hnode hkeep) ((htime _).trans hkeep),
        fun hsuccess node hnode => (htime _).symm.trans (hcleans.clean hsuccess node hnode)⟩, ?_, ?_⟩
      · exact hmode.trans hdelete.platformMode
      · exact hvendor.trans hdelete.vendorKeyState

end Updates

end Andromeda
