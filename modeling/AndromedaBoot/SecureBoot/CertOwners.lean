import AndromedaBoot.SecureBoot.CertDb

/-!
# The owners of variables

Over any run of calls the two certificate databases are a map from variables to owners. An owner is noted only where there
is none, is read back as it was noted, and goes only when its node is deleted or when its variable is not there at a cleaning.

`CertRecord` is that map, and which variables are there; `perform` makes a call with the functions of `CertDb`. `CertOwners`
are the records that a state keeps, and each call takes them along.
-/

namespace Andromeda

/-! ## Calls -/

/-- A call of one of the functions, or a write of another variable in between. -/
inductive CertCall
  | get (nv : Bool) (key : VariableKey)
  | insert (nv : Bool) (hashAlgId : Nat) (key : VariableKey) (signerCert topLevelCert : List (BitVec 8))
  | delete (nv : Bool) (key : VariableKey)
  | clean (rounds : Nat)
  | write (key : VariableKey) (v : Option AuthVariable)

/-- The status, or what `GetCertsFromDb` gives. -/
inductive CertAnswer
  | certs (r : Except AuthStatus (List (BitVec 8)))
  | status (r : AuthStatus)

section

variable (driver : VariableDriver) (crypto : CertCrypto) (maxCertDbSize : Nat)

def CertCall.perform (call : CertCall) (s : AuthState) : CertAnswer × AuthState :=
  match call with
  | .get nv key =>
    let r := getCertsFromDb key nv s
    (.certs r.1, r.2)
  | .insert nv hashAlgId key signerCert topLevelCert =>
    let r := insertCertsToDb driver crypto maxCertDbSize hashAlgId key nv signerCert topLevelCert s
    (.status r.1, r.2)
  | .delete nv key =>
    let r := deleteCertsFromDb driver key nv s
    (.status r.1, r.2)
  | .clean rounds =>
    let r := cleanCertsFromDb driver rounds s
    (.status r.1, r.2)
  | .write key v => (.status .success, { s with vars := Function.update s.vars key v })

/-- Calls one after another, with their answers. -/
def runCerts : List CertCall → AuthState → List CertAnswer × AuthState
  | [], s => ([], s)
  | call :: calls, s =>
    let r := call.perform driver crypto maxCertDbSize s
    let rest := runCerts calls r.2
    (r.1 :: rest.1, rest.2)

end

/-- A name ends at its terminator and is no longer than one can be; others leave the databases alone. -/
def CertCall.Proper : CertCall → Prop
  | .insert _ _ key _ _ => 0 ∉ key.name ∧ key.name.length < 2 ^ 29
  | .write key _ => ∀ nv, key ≠ certDbKey nv
  | _ => True

/-! ## Records -/

/-- Who owns what by each of the databases, and which variables are there and time-based. -/
structure CertRecord where
  owner : Bool → VariableKey → Option (List (BitVec 8))
  timeBased : VariableKey → Bool

def CertRecord.note (a : CertRecord) (nv : Bool) (key : VariableKey) (certData : Option (List (BitVec 8))) : CertRecord :=
  { a with owner := Function.update a.owner nv (Function.update (a.owner nv) key certData) }

def CertRecord.write (a : CertRecord) (key : VariableKey) (timeBased : Bool) : CertRecord :=
  { a with timeBased := Function.update a.timeBased key timeBased }

/-- What an answer says about the records before and after a call. -/
def CertRecord.Follows (crypto : CertCrypto) (a : CertRecord) : CertCall → CertAnswer → CertRecord → Prop
  | .get nv key, .certs r, b => b = a ∧ r = (a.owner nv key).elim (.error .notFound) .ok
  | .insert nv hashAlgId key signerCert topLevelCert, .status r, b =>
    r ≠ .success ∧ b = a ∨ r = .success ∧ a.owner nv key = none ∧
      ∃ certData, calculatePrivAuthVarSignChainSHADigest crypto hashAlgId signerCert topLevelCert = some certData ∧
        b = a.note nv key (some certData)
  | .delete nv key, .status r, b => r ≠ .success ∧ b = a ∨ r = .success ∧ b = a.note nv key none
  | .clean _, .status r, b =>
    b.timeBased = a.timeBased ∧ b.owner false = a.owner false ∧
      (∀ key, b.owner true key = a.owner true key ∨ a.timeBased key = false ∧ b.owner true key = none) ∧
      (r = .success → ∀ key, a.timeBased key = false → b.owner true key = none)
  | .write key v, .status r, b =>
    r = .success ∧ b = a.write key (v.any fun v => hasAny v.attributes timeBasedAuthenticatedWriteAccess)
  | _, _, _ => False

/-- The records after calls with some answers. -/
inductive CertRecord.Reaches (crypto : CertCrypto) : CertRecord → List CertCall → List CertAnswer → CertRecord → Prop
  | nil (a : CertRecord) : Reaches crypto a [] [] a
  | cons {a b c : CertRecord} {call : CertCall} {calls : List CertCall} {answer : CertAnswer} {rest : List CertAnswer}
      (hstep : a.Follows crypto call answer b) (hrest : Reaches crypto b calls rest c) :
      Reaches crypto a (call :: calls) (answer :: rest) c

/-- The variables hold both databases, with these records. -/
structure CertOwners (vars : Variables) (a : CertRecord) : Prop where
  certs : ∀ nv, ∃ nodes, HasCerts vars nv nodes ∧ a.owner nv = ownerOf nodes
  timeBased : a.timeBased = isTimeBased vars

/-- The record that nodes make. -/
def recordOf (vars : Variables) (certs : Bool → List CertNode) : CertRecord := ⟨fun nv => ownerOf (certs nv), isTimeBased vars⟩

/-! ## Owners and nodes -/

section Owners

variable {data : List (BitVec 8)} {nodes new : List CertNode} {key : VariableKey} {certData : List (BitVec 8)}
  {vars vars' : Variables}
  {nv : Bool} {a : CertRecord}

theorem CertDbHolds.ownerOf_eq_some_iff (h : CertDbHolds data nodes) :
    ownerOf nodes key = some certData ↔ ⟨key, certData⟩ ∈ nodes := by
  constructor
  · intro howner
    obtain ⟨node, hnode, hdata⟩ := Option.map_eq_some_iff.1 howner
    have hkey : node.key = key := by simpa using List.find?_some hnode
    rw [← hkey, ← hdata]
    exact List.mem_of_find?_eq_some hnode
  · intro hnode
    exact h.ownerOf_eq hnode

theorem ownerOf_append (hfree : ownerOf nodes key = none) :
    ownerOf (nodes ++ [⟨key, certData⟩]) = Function.update (ownerOf nodes) key (some certData) := by
  funext other
  by_cases hother : other = key
  · subst hother
    have hbefore : nodes.find? (·.key = other) = none := Option.map_eq_none_iff.1 hfree
    rw [Function.update_self, ownerOf, List.find?_append, hbefore, Option.none_or, List.find?_cons_of_pos (by simp)]
    rfl
  · rw [Function.update_of_ne hother, ownerOf, List.find?_append, List.find?_cons_of_neg (by simpa using Ne.symm hother),
      List.find?_nil, Option.or_none, ownerOf]

theorem ownerOf_filter (nodes : List CertNode) (key : VariableKey) :
    ownerOf (nodes.filter (·.key ≠ key)) = Function.update (ownerOf nodes) key none := by
  funext other
  by_cases hother : other = key
  · subst hother
    rw [Function.update_self, ownerOf_eq_none_iff]
    intro node hnode
    simpa using (List.mem_filter.1 hnode).2
  · rw [Function.update_of_ne hother, ownerOf, ownerOf, List.find?_filter]
    congr 2
    funext node
    by_cases hnode : node.key = other
    · simp [hnode, hother]
    · simp [hnode]

/-- What a function leaves of one database is a record of it, and nothing else changes. -/
theorem CertOwners.updated (h : CertOwners vars a) (hcerts : HasCerts vars' nv new)
    (hothers : ∀ key, key ≠ certDbKey nv → vars' key = vars key) :
    CertOwners vars' { a with owner := Function.update a.owner nv (ownerOf new) } := by
  obtain ⟨nodes, hnodes, -⟩ := h.certs nv
  refine ⟨fun other => ?_, h.timeBased.trans (funext fun key => (isTimeBased_congr hnodes hcerts hothers key).symm)⟩
  by_cases hother : other = nv
  · subst hother
    exact ⟨new, hcerts, Function.update_self ..⟩
  · obtain ⟨theirs, ⟨v, hv, hholds⟩, howner⟩ := h.certs other
    have hkey : certDbKey other ≠ certDbKey nv := by
      revert hother
      cases other <;> cases nv <;> decide
    exact ⟨theirs, ⟨v, (hothers _ hkey).trans hv, hholds⟩, (Function.update_of_ne hother ..).trans howner⟩

theorem certOwners_recordOf {certs : Bool → List CertNode} (hcerts : ∀ nv, HasCerts vars nv (certs nv)) :
    CertOwners vars (recordOf vars certs) :=
  ⟨fun nv => ⟨certs nv, hcerts nv, rfl⟩, rfl⟩

end Owners

/-! ## Calls and records -/

section Calls

variable (driver : VariableDriver) (crypto : CertCrypto) {maxCertDbSize : Nat} {s : AuthState} {a : CertRecord}

/-- A deletion or an insertion either fails, or notes what it is for. -/
theorem CertOwners.updates {nv : Bool} {nodes new : List CertNode} {r : AuthStatus × AuthState} (h : CertOwners s.vars a)
    (hr : UpdatesCerts nv nodes new s r) :
    r.1 = .success ∧ CertOwners r.2.vars { a with owner := Function.update a.owner nv (ownerOf new) } ∨
      r.1 ≠ .success ∧ CertOwners r.2.vars a := by
  rcases hr.certs with ⟨hsuccess, hcerts⟩ | ⟨hfails, hsame⟩
  · exact .inl ⟨hsuccess, h.updated hcerts hr.others⟩
  · exact .inr ⟨hfails, hsame ▸ h⟩

theorem getCerts_follows (h : CertOwners s.vars a) (nv : Bool) (key : VariableKey) :
    getCertsFromDb key nv s = ((a.owner nv key).elim (.error .notFound) .ok, s) := by
  obtain ⟨nodes, hcerts, howner⟩ := h.certs nv
  rw [getCertsFromDb_eq hcerts, howner]
  cases ownerOf nodes key <;> rfl

theorem deleteCerts_follows (h : CertOwners s.vars a) (nv : Bool) (key : VariableKey) :
    ∃ b, a.Follows crypto (.delete nv key) (.status (deleteCertsFromDb driver key nv s).1) b ∧
      CertOwners (deleteCertsFromDb driver key nv s).2.vars b := by
  obtain ⟨nodes, hcerts, howner⟩ := h.certs nv
  have hdelete := deleteCertsFromDb_updates driver key hcerts
  rcases h.updates hdelete with ⟨hsuccess, hnew⟩ | ⟨hfails, hold⟩
  · refine ⟨a.note nv key none, .inr ⟨hsuccess, rfl⟩, ?_⟩
    rw [ownerOf_filter, ← howner] at hnew
    exact hnew
  · exact ⟨a, .inl ⟨hfails, rfl⟩, hold⟩

theorem insertCerts_follows (h : CertOwners s.vars a) (nv : Bool) (hashAlgId : Nat) {key : VariableKey}
    (signerCert topLevelCert : List (BitVec 8)) (hnamed : 0 ∉ key.name) (hname : key.name.length < 2 ^ 29)
    (hmax : maxCertDbSize < 2 ^ 31) :
    ∃ b, a.Follows crypto (.insert nv hashAlgId key signerCert topLevelCert)
        (.status (insertCertsToDb driver crypto maxCertDbSize hashAlgId key nv signerCert topLevelCert s).1) b ∧
      CertOwners (insertCertsToDb driver crypto maxCertDbSize hashAlgId key nv signerCert topLevelCert s).2.vars b := by
  obtain ⟨nodes, hcerts, howner⟩ := h.certs nv
  obtain ⟨certData, hinsert, hinserted⟩ : ∃ certData, UpdatesCerts nv nodes (nodes ++ [⟨key, certData⟩]) s
      (insertCertsToDb driver crypto maxCertDbSize hashAlgId key nv signerCert topLevelCert s) ∧ _ :=
    insertCertsToDb_updates hcerts hnamed hname hmax
  rcases h.updates hinsert with ⟨hsuccess, hnew⟩ | ⟨hfails, hold⟩
  · obtain ⟨hfree, hdigest⟩ := hinserted hsuccess
    refine ⟨a.note nv key (some certData), .inr ⟨hsuccess, howner ▸ hfree, certData, hdigest, rfl⟩, ?_⟩
    rw [ownerOf_append hfree, ← howner] at hnew
    exact hnew
  · exact ⟨a, .inl ⟨hfails, rfl⟩, hold⟩

/-- What is left of some nodes: an owner of a variable that is there stays, another one stays or goes. -/
theorem CleansCerts.ownerOf_kept {vars : Variables} {nodes kept : List CertNode} {r : AuthStatus × AuthState}
    (h : CleansCerts vars nodes kept r) {data : List (BitVec 8)} (hnodes : CertDbHolds data nodes) (key : VariableKey) :
    ownerOf kept key = ownerOf nodes key ∨ isTimeBased vars key = false ∧ ownerOf kept key = none := by
  have hkept := hnodes.of_sublist h.sublist
  cases howner : ownerOf kept key with
  | some certData =>
    have hnode := h.sublist.subset (hkept.ownerOf_eq_some_iff.1 howner)
    exact .inl (hnodes.ownerOf_eq_some_iff.2 hnode).symm
  | none =>
    cases hold : ownerOf nodes key with
    | none => exact .inl rfl
    | some certData =>
      refine .inr ⟨?_, rfl⟩
      by_contra htime
      have hnode := hnodes.ownerOf_eq_some_iff.1 hold
      have hleft := hkept.ownerOf_eq_some_iff.2 (h.keeps _ hnode (by simpa using htime))
      simp [howner] at hleft

theorem cleanCerts_follows (h : CertOwners s.vars a) (rounds : Nat) :
    ∃ b, a.Follows crypto (.clean rounds) (.status (cleanCertsFromDb driver rounds s).1) b ∧
      CertOwners (cleanCertsFromDb driver rounds s).2.vars b := by
  obtain ⟨nodes, hcerts, howner⟩ := h.certs true
  obtain ⟨kept, hcleans, -⟩ : ∃ kept, CleansCerts s.vars nodes kept (cleanCertsFromDb driver rounds s) ∧ _ :=
    cleanCertsFromDb_cleans rounds hcerts
  obtain ⟨v, -, -, hholds⟩ := hcerts
  have hfalse : Function.update a.owner true (ownerOf kept) false = a.owner false := Function.update_of_ne Bool.false_ne_true ..
  refine ⟨{ a with owner := Function.update a.owner true (ownerOf kept) },
    ⟨rfl, hfalse, fun key => ?_, fun hsuccess key hgone => ?_⟩,
    h.updated hcleans.certs hcleans.others⟩
  · rw [howner, h.timeBased]
    simpa only [Function.update_self] using hcleans.ownerOf_kept hholds key
  · rw [h.timeBased] at hgone
    have habsent : ∀ node ∈ kept, node.key ≠ key := by
      rintro node hnode rfl
      simp [hcleans.clean hsuccess node hnode] at hgone
    simpa only [Function.update_self] using ownerOf_eq_none_iff.2 habsent

theorem write_follows (h : CertOwners s.vars a) {key : VariableKey} (hkey : ∀ nv, key ≠ certDbKey nv) (v : Option AuthVariable) :
    CertOwners (Function.update s.vars key v)
      (a.write key (v.any fun v => hasAny v.attributes timeBasedAuthenticatedWriteAccess)) := by
  refine ⟨fun nv => ?_, ?_⟩
  · obtain ⟨nodes, ⟨db, hdb, hholds⟩, howner⟩ := h.certs nv
    exact ⟨nodes, ⟨db, (Function.update_of_ne (hkey nv).symm ..).trans hdb, hholds⟩, howner⟩
  · funext other
    rw [CertRecord.write, h.timeBased]
    dsimp only
    by_cases hother : other = key
    · rw [hother, Function.update_self, isTimeBased, Function.update_self]
    · rw [Function.update_of_ne hother, isTimeBased, isTimeBased, Function.update_of_ne hother]

/-- **A call** follows the records. -/
theorem perform_follows (h : CertOwners s.vars a) (hmax : maxCertDbSize < 2 ^ 31) {call : CertCall} (hcall : call.Proper) :
    ∃ b, a.Follows crypto call (call.perform driver crypto maxCertDbSize s).1 b ∧
      CertOwners (call.perform driver crypto maxCertDbSize s).2.vars b := by
  cases call with
  | get nv key =>
    rw [CertCall.perform, getCerts_follows h]
    exact ⟨a, ⟨rfl, rfl⟩, h⟩
  | insert nv hashAlgId key signerCert topLevelCert =>
    exact insertCerts_follows driver crypto h nv hashAlgId signerCert topLevelCert hcall.1 hcall.2 hmax
  | delete nv key => exact deleteCerts_follows driver crypto h nv key
  | clean rounds => exact cleanCerts_follows driver crypto h rounds
  | write key v => exact ⟨_, ⟨rfl, rfl⟩, write_follows h hcall v⟩

/-- Over a run the records come along. -/
theorem CertOwners.run (hmax : maxCertDbSize < 2 ^ 31) (calls : List CertCall) (hcalls : ∀ call ∈ calls, call.Proper)
    (h : CertOwners s.vars a) :
    ∃ b, a.Reaches crypto calls (runCerts driver crypto maxCertDbSize calls s).1 b ∧
      CertOwners (runCerts driver crypto maxCertDbSize calls s).2.vars b := by
  induction calls generalizing s a with
  | nil => exact ⟨a, .nil a, h⟩
  | cons call calls ih =>
    obtain ⟨b, hstep, hb⟩ := perform_follows driver crypto h hmax (hcalls call List.mem_cons_self)
    obtain ⟨c, hrest, hc⟩ := ih (fun call hcall => hcalls call (List.mem_cons_of_mem _ hcall)) hb
    exact ⟨c, .cons hstep hrest, hc⟩

end Calls

/-- **The databases are a map.** Over any run of calls the answers are those of the records that the databases hold before it,
and the databases hold the records that these calls and driver lead to. -/
theorem runCerts_reaches (driver : VariableDriver) (crypto : CertCrypto) (maxCertDbSize : Nat) (hmax : maxCertDbSize < 2 ^ 31)
    (calls : List CertCall) (hcalls : ∀ call ∈ calls, call.Proper) (s : AuthState) (certs : Bool → List CertNode)
    (hcerts : ∀ nv, HasCerts s.vars nv (certs nv)) :
    ∃ left : Bool → List CertNode, (∀ nv, HasCerts (runCerts driver crypto maxCertDbSize calls s).2.vars nv (left nv)) ∧
      (recordOf s.vars certs).Reaches crypto calls (runCerts driver crypto maxCertDbSize calls s).1
        (recordOf (runCerts driver crypto maxCertDbSize calls s).2.vars left) := by
  obtain ⟨b, hreaches, hb⟩ := CertOwners.run driver crypto hmax calls hcalls (certOwners_recordOf hcerts)
  choose left hleft howner using hb.certs
  have hrecord : b = recordOf (runCerts driver crypto maxCertDbSize calls s).2.vars left :=
    congrArg₂ CertRecord.mk (funext howner) hb.timeBased
  exact ⟨left, hleft, hrecord ▸ hreaches⟩

def ownedKey : VariableKey := ⟨utf16 "Owned", gEfiCertDbGuid⟩

/-- The owner of one variable in one database, and none in the other. -/
def ownedCerts (nv : Bool) : List CertNode := if nv then [⟨ownedKey, List.replicate 32 0x5A⟩] else []

def ownedFirmware : AuthState where
  vars key :=
    if key = certDbKey true then some ⟨certDbData (ownedCerts true), certDbAttributes true, .zero⟩
    else if key = certDbKey false then some ⟨certDbData (ownedCerts false), certDbAttributes false, .zero⟩
    else if key = ownedKey then some ⟨[1], certDbAttributes true, .zero⟩
    else none
  platformMode := 0
  vendorKeyState := 0
  calls := 0
  running := true

theorem ownedFirmware_certs (nv : Bool) : HasCerts ownedFirmware.vars nv (ownedCerts nv) := by
  cases nv
  · exact ⟨⟨certDbData (ownedCerts false), certDbAttributes false, .zero⟩, by decide, rfl, rfl, by decide, by decide, by decide⟩
  · exact ⟨⟨certDbData (ownedCerts true), certDbAttributes true, .zero⟩, by decide, rfl, rfl, by decide, by decide, by decide⟩

/-- No certificate can be read from no bytes. -/
def noDigest (_ : Nat) (_ : List (BitVec 8)) : Option (List (BitVec 8)) := none

theorem length_noDigest {hashAlgId : Nat} {message d : List (BitVec 8)} (h : noDigest hashAlgId message = some d) :
    d.length = hashSize hashAlgId := by
  simp [noDigest] at h

def noCertificates : CertCrypto := ⟨fun _ => none, fun _ => none, noDigest, length_noDigest⟩

theorem runCerts_reaches_owned :
    let calls : List CertCall := [.get true ownedKey, .delete true ownedKey, .insert true 0 ownedKey [] [], .clean 9]
    ∃ left : Bool → List CertNode,
      (∀ nv, HasCerts (runCerts referenceDriver noCertificates 0x1000 calls ownedFirmware).2.vars nv (left nv)) ∧
      (recordOf ownedFirmware.vars ownedCerts).Reaches noCertificates calls
        (runCerts referenceDriver noCertificates 0x1000 calls ownedFirmware).1
        (recordOf (runCerts referenceDriver noCertificates 0x1000 calls ownedFirmware).2.vars left) := by
  intro calls
  refine runCerts_reaches referenceDriver noCertificates 0x1000 (by decide) calls ?_ ownedFirmware ownedCerts ownedFirmware_certs
  simp only [calls, List.forall_mem_cons, CertCall.Proper]
  exact ⟨trivial, trivial, by decide, trivial, by simp⟩

/-! ## An owner stays -/

/-- A call that neither deletes the node of a variable nor takes the variable from the database that is cleaned. -/
def CertCall.Spares (nv : Bool) (key : VariableKey) : CertCall → Prop
  | .delete nv' key' => nv' = nv → key' ≠ key
  | .write key' v => nv = true → key' = key → v.any (fun v => hasAny v.attributes timeBasedAuthenticatedWriteAccess) = true
  | _ => True

/-- An owner is noted, of a variable that no cleaning takes for gone. -/
structure CertRecord.Owned (a : CertRecord) (nv : Bool) (key : VariableKey) (certData : List (BitVec 8)) : Prop where
  owner : a.owner nv key = some certData
  there : nv = true → a.timeBased key = true

/-- The owner is what is read, and no other one can be noted. -/
def CertAnswer.Tells (nv : Bool) (key : VariableKey) (certData : List (BitVec 8)) (call : CertCall)
    (answer : CertAnswer) : Prop :=
  (call = .get nv key → answer = .certs (.ok certData)) ∧
    ∀ hashAlgId signerCert topLevelCert, call = .insert nv hashAlgId key signerCert topLevelCert → answer ≠ .status .success

section Owned

variable {crypto : CertCrypto} {a b : CertRecord} {nv : Bool} {key : VariableKey} {certData : List (BitVec 8)} {call : CertCall}
  {answer : CertAnswer}

theorem CertRecord.owner_note_other {nv' : Bool} {key' : VariableKey} (hother : nv' = nv → key' ≠ key)
    (new : Option (List (BitVec 8))) : (a.note nv' key' new).owner nv key = a.owner nv key := by
  rw [CertRecord.note]
  dsimp only
  by_cases hnv : nv = nv'
  · subst hnv
    rw [Function.update_self, Function.update_of_ne (hother rfl).symm]
  · rw [Function.update_of_ne hnv]

theorem CertRecord.Owned.tells (h : a.Owned nv key certData) (hstep : a.Follows crypto call answer b) :
    answer.Tells nv key certData call := by
  constructor
  · rintro rfl
    cases answer with
    | certs r => rw [hstep.2, h.owner, Option.elim_some]
    | status r => exact hstep.elim
  · rintro hashAlgId signerCert topLevelCert rfl hanswer
    subst hanswer
    rcases hstep with ⟨hfails, -⟩ | ⟨-, hfree, -⟩
    · exact hfails rfl
    · simp [h.owner] at hfree

theorem CertRecord.Owned.follows (h : a.Owned nv key certData) (hstep : a.Follows crypto call answer b)
    (hspares : call.Spares nv key) :
    b.Owned nv key certData := by
  cases call with
  | get nv' key' =>
    cases answer with
    | certs r => exact hstep.1 ▸ h
    | status r => exact hstep.elim
  | insert nv' hashAlgId key' signerCert topLevelCert =>
    cases answer with
    | certs r => exact hstep.elim
    | status r =>
      rcases hstep with ⟨-, rfl⟩ | ⟨-, hfree, new, -, rfl⟩
      · exact h
      · -- An insertion that succeeds found no owner, so it is for another variable.
        have hother : nv' = nv → key' ≠ key := by
          rintro rfl rfl
          simp [h.owner] at hfree
        exact ⟨(owner_note_other hother _).trans h.owner, h.there⟩
  | delete nv' key' =>
    cases answer with
    | certs r => exact hstep.elim
    | status r =>
      rcases hstep with ⟨-, rfl⟩ | ⟨-, rfl⟩
      · exact h
      · exact ⟨(owner_note_other hspares _).trans h.owner, h.there⟩
  | clean rounds =>
    cases answer with
    | certs r => exact hstep.elim
    | status r =>
      -- Only one of the databases is cleaned, and there only of variables that are not there.
      obtain ⟨htime, hfalse, htrue, -⟩ := hstep
      cases nv with
      | false => exact ⟨hfalse ▸ h.owner, by simp⟩
      | true =>
        have hthere := h.there rfl
        rcases htrue key with hsame | ⟨hgone, -⟩
        · exact ⟨hsame.trans h.owner, fun _ => htime ▸ hthere⟩
        · simp [hthere] at hgone
  | write key' v =>
    cases answer with
    | certs r => exact hstep.elim
    | status r =>
      obtain ⟨-, rfl⟩ := hstep
      refine ⟨h.owner, fun hnv => ?_⟩
      by_cases hkey : key' = key
      · rw [CertRecord.write, hkey]
        dsimp only
        rw [Function.update_self]
        exact hspares hnv hkey
      · rw [CertRecord.write]
        dsimp only
        rw [Function.update_of_ne (Ne.symm hkey)]
        exact h.there hnv

theorem CertRecord.Owned.reaches {calls : List CertCall} {rest : List CertAnswer} (hrun : a.Reaches crypto calls rest b)
    (h : a.Owned nv key certData) (hspares : ∀ call ∈ calls, call.Spares nv key) :
    (∀ call answer, (call, answer) ∈ calls.zip rest → answer.Tells nv key certData call) ∧ b.Owned nv key certData := by
  induction hrun with
  | nil => exact ⟨by simp, h⟩
  | cons hstep hrest ih =>
    obtain ⟨hfirst, hothers⟩ := List.forall_mem_cons.1 hspares
    obtain ⟨htells, hend⟩ := ih (h.follows hstep hfirst) hothers
    refine ⟨fun call answer hmem => ?_, hend⟩
    rcases List.mem_cons.1 hmem with hhead | htail
    · obtain ⟨rfl, rfl⟩ := Prod.mk.inj hhead
      exact h.tells hstep
    · exact htells call answer htail

end Owned

/-- **An owner stays.** Without a deletion of its node, and while its variable is there, all calls read the owner that is
noted, and no other one can be inserted. -/
theorem runCerts_owner_stays (driver : VariableDriver) (crypto : CertCrypto) (maxCertDbSize : Nat)
    (hmax : maxCertDbSize < 2 ^ 31) (nv : Bool) (key : VariableKey) (certData : List (BitVec 8)) (calls : List CertCall)
    (hcalls : ∀ call ∈ calls, call.Proper) (hspares : ∀ call ∈ calls, call.Spares nv key) (s : AuthState)
    (certs : Bool → List CertNode) (hcerts : ∀ nv, HasCerts s.vars nv (certs nv))
    (hthere : nv = true → isTimeBased s.vars key = true) (howner : ownerOf (certs nv) key = some certData) :
    (∀ call answer, (call, answer) ∈ calls.zip (runCerts driver crypto maxCertDbSize calls s).1 →
      answer.Tells nv key certData call) ∧
    (getCertsFromDb key nv (runCerts driver crypto maxCertDbSize calls s).2).1 = .ok certData := by
  obtain ⟨b, hreaches, hb⟩ := CertOwners.run driver crypto hmax calls hcalls (certOwners_recordOf hcerts)
  obtain ⟨htells, hend⟩ := CertRecord.Owned.reaches hreaches ⟨howner, hthere⟩ hspares
  refine ⟨htells, ?_⟩
  rw [getCerts_follows hb, hend.owner, Option.elim_some]

theorem runCerts_owner_stays_owned :
    let calls : List CertCall := [.insert true 1 ownedKey [] [], .delete false ownedKey, .clean 9, .get true ownedKey]
    (∀ call answer, (call, answer) ∈ calls.zip (runCerts referenceDriver noCertificates 0x1000 calls ownedFirmware).1 →
      answer.Tells true ownedKey (List.replicate 32 0x5A) call) ∧
    (getCertsFromDb ownedKey true (runCerts referenceDriver noCertificates 0x1000 calls ownedFirmware).2).1 =
      .ok (List.replicate 32 0x5A) := by
  intro calls
  refine runCerts_owner_stays referenceDriver noCertificates 0x1000 (by decide) true ownedKey _ calls ?_ ?_ ownedFirmware
    ownedCerts ownedFirmware_certs (fun _ => by decide) (by decide)
  · simp only [calls, List.forall_mem_cons, CertCall.Proper]
    exact ⟨by decide, trivial, trivial, trivial, by simp⟩
  · simp [calls, CertCall.Spares]

end Andromeda
