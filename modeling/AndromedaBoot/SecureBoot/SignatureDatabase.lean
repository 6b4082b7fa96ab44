import AndromedaBoot.SecureBoot.Modes

/-!
# The signature databases grow

KEK, db, dbx and dbt are rows of signature lists. Signatures that are there already are filtered out of what is appended
(`filterSignatureList_row`). As long as a database is only appended to, it stays a row, and no signature is lost or stored
twice, through resets and power losses.
-/

namespace Andromeda

open PackedFields Blocks

abbrev SignatureEntry := BitVec 128 × List (BitVec 8)

/-- The signatures of a row, each with its type. -/
def entriesOf (lists : List SignatureList) : List SignatureEntry := lists.flatMap (·.entries)

namespace SignatureList

variable (l : SignatureList) (p : List (BitVec 8) → Bool)

theorem length_of_mem_filter : ∀ signature ∈ l.signatures.filter p, signature.length = l.size :=
  fun signature hmem => l.length_signatures signature (List.mem_of_mem_filter hmem)

theorem sized_filter (h : l.size = 0) : l.signatures.filter p = [] := by rw [l.sized h, List.filter_nil]

theorem fits_filter : signatureListHeader + l.header.length + (l.signatures.filter p).length * l.size < 2 ^ 32 := by
  have hle := Nat.mul_le_mul_right l.size (List.length_filter_le p l.signatures)
  have hfits := l.fits
  omega

/-- The list with some of its signatures. -/
def keep : SignatureList :=
  ⟨l.type, l.header, l.size, l.signatures.filter p, l.length_of_mem_filter p, l.sized_filter p, l.size_lt, l.fits_filter p⟩

end SignatureList

/-- What is new in a list. -/
def SignatureList.without (old : List SignatureEntry) (l : SignatureList) : SignatureList :=
  l.keep fun signature => (l.type, signature) ∉ old

/-- The lists that are left of new ones; without a signature a list is left out. -/
def newLists (old new : List SignatureList) : List SignatureList :=
  (new.map (·.without (entriesOf old))).filter (·.signatures ≠ [])

section Filter

variable {l : SignatureList} {type : BitVec 128} {signature : List (BitVec 8)} {lists old new : List SignatureList}

theorem SignatureList.mem_entries : (type, signature) ∈ l.entries ↔ l.type = type ∧ signature ∈ l.signatures := by
  simp [SignatureList.entries, and_comm, eq_comm]

/-- A round of the search in the old data. -/
def searchVisit (type : BitVec 128) (signature : List (BitVec 8)) (_ : Unit) (rest : List (BitVec 8)) : Except Unit Unit :=
  if signatureType rest = guidBytes type ∧ signatureSize rest = signature.length ∧
      (List.range (signatureCount rest)).any fun i => signatureAt rest i = signature then .error () else .ok ()

/-- The search in the old data. -/
theorem isOldSignature_row (lists : List SignatureList) (type : BitVec 128) (signature : List (BitVec 8)) :
    isOldSignature (signatureLists.row lists) (guidBytes type) signature.length signature =
      some (decide ((type, signature) ∈ entriesOf lists)) := by
  have hcond : ∀ (l : SignatureList) rest, (signatureType (l.bytes ++ rest) = guidBytes type ∧
      signatureSize (l.bytes ++ rest) = signature.length ∧
      (List.range (signatureCount (l.bytes ++ rest))).any fun i => signatureAt (l.bytes ++ rest) i = signature) ↔
        (type, signature) ∈ l.entries := by
    intro l rest
    have hat := listAt l rest
    rw [SignatureList.mem_entries, hat.type, hat.size, hat.count, guidBytes_inj, List.any_eq_true]
    constructor
    · rintro ⟨htype, -, i, hi, hsignature⟩
      have hlt := List.mem_range.1 hi
      rw [hat.signature i hlt, decide_eq_true_eq] at hsignature
      exact ⟨htype, hsignature ▸ List.getElem_mem hlt⟩
    · rintro ⟨htype, hmem⟩
      obtain ⟨i, hi, hsignature⟩ := List.getElem_of_mem hmem
      refine ⟨htype, (l.length_signatures _ hmem).symm, i, List.mem_range.2 hi, ?_⟩
      rw [hat.signature i hi, hsignature, decide_eq_true_eq]
  have hrounds := Nat.lt_succ_of_le (signatureLists.length_le_row lists)
  have hvisit : ∀ acc, ∀ l ∈ lists, ∀ rest, searchVisit type signature acc (signatureLists.bytes l ++ rest) =
      if (type, signature) ∈ l.entries then .error () else .ok () := fun _ l _ rest => if_congr (hcond l rest) rfl rfl
  have hwalk := signatureLists.walk_row [] hvisit hrounds ()
  rw [List.append_nil, signatureLists.foldRow_search] at hwalk
  have hmem : (∃ l ∈ lists, (type, signature) ∈ l.entries) ↔ (type, signature) ∈ entriesOf lists := by
    rw [entriesOf, List.mem_flatMap]
  unfold isOldSignature
  generalize hsearch : walk signatureListSize _ _ _ _ _ = result
  have hresult : result = _ := hsearch.symm.trans hwalk
  rw [hresult]
  by_cases hold : (type, signature) ∈ entriesOf lists
  · rw [if_pos (hmem.2 hold), decide_eq_true hold]
    rfl
  · rw [if_neg fun h => hold (hmem.1 h), decide_eq_false hold]
    rfl

/-- Elements that are picked by their places. -/
theorem map_filter_range {α : Type} (xs : List α) {f : Nat → α} {p : Nat → Bool} {q : α → Bool}
    (hf : ∀ i (hi : i < xs.length), f i = xs[i]) (hp : ∀ i (hi : i < xs.length), p i = q xs[i]) :
    ((List.range xs.length).filter p).map f = xs.filter q := by
  have hxs : (List.range xs.length).map f = xs := by
    refine List.ext_getElem (by simp) fun i hi hi' => ?_
    rw [List.getElem_map, List.getElem_range, hf i hi']
  conv_rhs => rw [← hxs, List.filter_map]
  congr 1
  refine List.filter_congr fun i hi => ?_
  have hlt := List.mem_range.1 hi
  rw [hp i hlt, Function.comp_apply, hf i hlt]

/-- A round of the filter. -/
theorem filterVisit_bytes (old : List SignatureList) (tail : List (BitVec 8)) (l : SignatureList) (rest : List (BitVec 8)) :
    filterVisit (signatureLists.row old) tail (l.bytes ++ rest) =
      .ok (tail ++ signatureLists.row ([l.without (entriesOf old)].filter (·.signatures ≠ []))) := by
  have hat := listAt l rest
  have hold : ∀ i (hi : i < l.signatures.length), isOldSignature (signatureLists.row old) (signatureType (l.bytes ++ rest))
      (signatureSize (l.bytes ++ rest)) (signatureAt (l.bytes ++ rest) i) =
        some (decide ((l.type, l.signatures[i]) ∈ entriesOf old)) := by
    intro i hi
    rw [hat.type, hat.size, hat.signature i hi, ← l.length_signatures _ (List.getElem_mem hi)]
    exact isOldSignature_row ..
  have hcopied := map_filter_range l.signatures (f := signatureAt (l.bytes ++ rest))
    (p := fun i => isOldSignature (signatureLists.row old) (signatureType (l.bytes ++ rest))
      (signatureSize (l.bytes ++ rest)) (signatureAt (l.bytes ++ rest) i) = some false)
    (q := fun signature => (l.type, signature) ∉ entriesOf old) hat.signature fun i hi => by rw [hold i hi]; simp
  have hends : ¬((List.range l.signatures.length).any fun i => isOldSignature (signatureLists.row old)
      (signatureType (l.bytes ++ rest)) (signatureSize (l.bytes ++ rest)) (signatureAt (l.bytes ++ rest) i) = none) = true := by
    rw [List.any_eq_true]
    rintro ⟨i, hi, hnone⟩
    rw [hold i (List.mem_range.1 hi)] at hnone
    simp at hnone
  have hsignatures : (l.without (entriesOf old)).signatures =
      l.signatures.filter fun signature => (l.type, signature) ∉ entriesOf old :=
    rfl
  unfold filterVisit
  dsimp only
  rw [hat.count, if_neg hends]
  generalize (List.range l.signatures.length).filter _ = copied at hcopied ⊢
  by_cases hnone : copied = []
  · have hempty : (l.without (entriesOf old)).signatures = [] := by rw [hsignatures, ← hcopied, hnone, List.map_nil]
    rw [if_pos hnone, List.filter_cons_of_neg (by simp [hempty]), List.filter_nil]
    exact congrArg Except.ok (List.append_nil tail).symm
  · have hsome : (l.without (entriesOf old)).signatures ≠ [] := by
      rw [hsignatures, ← hcopied]
      simpa using hnone
    have hflatten : copied.flatMap (signatureAt (l.bytes ++ rest)) = (l.without (entriesOf old)).signatures.flatten := by
      rw [List.flatMap_def, hcopied, hsignatures]
    have hlength : copied.length = (l.without (entriesOf old)).signatures.length := by
      rw [hsignatures, ← hcopied, List.length_map]
    have hguid : (guidBytes l.type).length = 16 := length_leBytes 16 _
    have hsize : (leBytes 4 l.listSize).length =
        (leBytes 4 (signatureListHeader + l.header.length + copied.length * l.size)).length :=
      (length_leBytes 4 _).trans (length_leBytes 4 _).symm
    rw [if_neg hnone, List.filter_cons_of_pos (by simpa using hsome), List.filter_nil, hat.headerSize, hat.size,
      hflatten, hat.front,
      ← hguid, setField_middle _ hsize, Format.row, List.flatMap_singleton, hlength]
    refine congrArg (fun bytes => Except.ok (tail ++ bytes)) ?_
    change _ = SignatureList.bytes _
    simp only [SignatureList.bytes, List.append_assoc]
    rfl

theorem newLists_cons : newLists old (l :: new) = [l.without (entriesOf old)].filter (·.signatures ≠ []) ++ newLists old new := by
  rw [newLists, newLists, List.map_cons, ← List.singleton_append, List.filter_append]

/-- **The filter** leaves what is new. -/
theorem filterSignatureList_row (old new : List SignatureList) :
    filterSignatureList true (signatureLists.row old) (signatureLists.row new) = some (signatureLists.row (newLists old new)) := by
  have hfold : ∀ tail, signatureLists.foldRow (fun tail l _ =>
      (.ok (tail ++ signatureLists.row ([l.without (entriesOf old)].filter (·.signatures ≠ []))) : Except Unit _)) [] tail new =
        .ok (tail ++ signatureLists.row (newLists old new)) := by
    induction new with
    | nil => exact fun tail => congrArg Except.ok (List.append_nil tail).symm
    | cons l new ih =>
      intro tail
      rw [Format.foldRow]
      dsimp only
      rw [ih, newLists_cons, Format.row_append, List.append_assoc]
  have hwalk := signatureLists.walk_row [] (fun tail l (_ : l ∈ new) rest => filterVisit_bytes old tail l rest)
    (Nat.lt_succ_of_le (signatureLists.length_le_row new)) []
  rw [List.append_nil, hfold, List.nil_append] at hwalk
  unfold filterSignatureList
  by_cases hempty : signatureLists.row new = []
  · have hle := signatureLists.length_le_row new
    have hnil : new = [] := List.eq_nil_of_length_eq_zero (Nat.eq_zero_of_le_zero (by rwa [hempty] at hle))
    rw [if_pos hempty, hnil]
    rfl
  · rw [if_neg hempty, if_neg (by decide)]
    generalize hfilter : walk signatureListSize _ _ _ _ _ = result
    have hresult : result = _ := hfilter.symm.trans hwalk
    rw [hresult]
    rfl

theorem entriesOf_append : entriesOf (old ++ new) = entriesOf old ++ entriesOf new := List.flatMap_append

theorem entriesOf_newLists (old new : List SignatureList) :
    entriesOf (newLists old new) = (entriesOf new).filter (· ∉ entriesOf old) := by
  induction new with
  | nil => rfl
  | cons l new ih =>
    have hentries : (l.without (entriesOf old)).entries = l.entries.filter (· ∉ entriesOf old) := by
      rw [SignatureList.entries, SignatureList.entries, List.filter_map]
      rfl
    have hleft : entriesOf ([l.without (entriesOf old)].filter (·.signatures ≠ [])) = l.entries.filter (· ∉ entriesOf old) := by
      rw [← hentries]
      by_cases hnone : (l.without (entriesOf old)).signatures = []
      · rw [List.filter_cons_of_neg (by simp [hnone]), SignatureList.entries, hnone]
        rfl
      · rw [List.filter_cons_of_pos (by simpa using hnone)]
        exact List.flatMap_singleton ..
    rw [newLists_cons, entriesOf_append, hleft, ih, ← List.filter_append]
    rfl

/-- What is stored of appended lists. -/
theorem filterSignatureList_adds (scratch : Bool) (old new : List SignatureList) :
    ∃ added, filterSignatureList scratch (signatureLists.row old) (signatureLists.row new) = some (signatureLists.row added) ∧
      (∀ e ∈ entriesOf added, e ∈ entriesOf new) ∧ (∀ e ∈ entriesOf new, e ∈ entriesOf (old ++ added)) ∧
      (scratch = true → (entriesOf new).Nodup → (entriesOf old).Nodup → (entriesOf (old ++ added)).Nodup) := by
  cases scratch with
  | false =>
    refine ⟨new, ?_, fun _ he => he, fun e he => ?_, fun h => absurd h (by decide)⟩
    · unfold filterSignatureList
      by_cases hempty : signatureLists.row new = []
      · rw [if_pos hempty]
      · rw [if_neg hempty, if_pos (by decide)]
    · rw [entriesOf_append]
      exact List.mem_append_right _ he
  | true =>
    refine ⟨newLists old new, filterSignatureList_row old new, ?_, fun e he => ?_, fun _ hnew hold => ?_⟩
    · rw [entriesOf_newLists]
      exact fun e he => List.mem_of_mem_filter he
    · rw [entriesOf_append, entriesOf_newLists, List.mem_append, List.mem_filter]
      by_cases hmem : e ∈ entriesOf old
      · exact .inl hmem
      · exact .inr ⟨he, decide_eq_true hmem⟩
    · rw [entriesOf_append, entriesOf_newLists, List.nodup_append]
      refine ⟨hold, hnew.filter _, fun e he e' he' heq => ?_⟩
      have hout := (List.mem_filter.1 he').2
      exact absurd (heq ▸ he) (of_decide_eq_true hout)

end Filter

/-! ## Appending -/

/-- The variable holds a row of lists, is not volatile, and can be accessed. -/
structure HoldsRow (v : AuthVariable) (lists : List SignatureList) : Prop where
  data : v.data = signatureLists.row lists
  access : hasAny v.attributes (bootserviceAccess ||| runtimeAccess) = true
  nonVolatile : hasAny v.attributes nonVolatile = true

/-- Lists were appended to a variable: signatures that were `asked` for, among them those that `must` be there, and none
twice if what was asked for is `distinct`. -/
structure Appends (asked must : SignatureEntry → Prop) (distinct : Prop) (v : AuthVariable) (lists : List SignatureList)
    (v' : AuthVariable) (added : List SignatureList) : Prop where
  holds : HoldsRow v' (lists ++ added)
  attributes : v'.attributes = v.attributes
  later : v.timeStamp.stamp ≤ v'.timeStamp.stamp
  asked : ∀ e ∈ entriesOf added, asked e
  must : ∀ e, must e → e ∈ entriesOf (lists ++ added)
  distinct : distinct → (entriesOf lists).Nodup → (entriesOf (lists ++ added)).Nodup

namespace Appends

variable {asked asked' must must' : SignatureEntry → Prop} {distinct distinct' : Prop} {v v' v'' : AuthVariable}
  {lists added added' : List SignatureList}

theorem none (h : HoldsRow v lists) (hmust : ∀ e, ¬must e) : Appends asked must distinct v lists v [] where
  holds := by rwa [List.append_nil]
  attributes := rfl
  later := Nat.le_refl _
  asked := fun e he => absurd he List.not_mem_nil
  must := fun e he => absurd he (hmust e)
  distinct := fun _ hnodup => by rwa [List.append_nil]

theorem trans (h : Appends asked must distinct v lists v' added)
    (h' : Appends asked must' distinct v' (lists ++ added) v'' added') :
    Appends asked (fun e => must e ∨ must' e) distinct v lists v'' (added ++ added') where
  holds := by rw [← List.append_assoc]; exact h'.holds
  attributes := h'.attributes.trans h.attributes
  later := Nat.le_trans h.later h'.later
  asked := fun e he => by
    rw [entriesOf_append, List.mem_append] at he
    exact he.elim (h.asked e) (h'.asked e)
  must := fun e he => by
    rw [← List.append_assoc]
    rcases he with he | he
    · rw [entriesOf_append]
      exact List.mem_append_left _ (h.must e he)
    · exact h'.must e he
  distinct := fun hd hnodup => by
    rw [← List.append_assoc]
    exact h'.distinct hd (h.distinct hd hnodup)

theorem mono (h : Appends asked must distinct v lists v' added) (hasked : ∀ e, asked e → asked' e) (hmust : ∀ e, must' e → must e)
    (hdistinct : distinct' → distinct) : Appends asked' must' distinct' v lists v' added where
  holds := h.holds
  attributes := h.attributes
  later := h.later
  asked := fun e he => hasked e (h.asked e he)
  must := fun e he => h.must e (hmust e he)
  distinct := fun hd => h.distinct (hdistinct hd)

end Appends

/-- A signature of the payload. -/
def SetRequest.Asks (r : SetRequest) (e : SignatureEntry) : Prop :=
  ∃ new, payload r.data = signatureLists.row new ∧ e ∈ entriesOf new

/-- No signature is twice in the payload, and there is room for the filter. -/
def SetRequest.Distinct (r : SetRequest) (env : CallEnv) : Prop :=
  env.scratch = true ∧ ∀ new, payload r.data = signatureLists.row new → (entriesOf new).Nodup

section Requests

variable {platform : AuthPlatform} {env : CallEnv} {r : SetRequest} {s s' : AuthState} {v : AuthVariable}
  {lists new : List SignatureList} {status status' : AuthStatus} {key : VariableKey}

/-- A row has one set of signatures. -/
theorem asks_iff (h : payload r.data = signatureLists.row new) (e : SignatureEntry) : r.Asks e ↔ e ∈ entriesOf new := by
  refine ⟨?_, fun he => ⟨new, h, he⟩⟩
  rintro ⟨other, hother, he⟩
  have hsearch := isOldSignature_row other e.1 e.2
  rw [← hother, h, isOldSignature_row new, decide_eq_true he] at hsearch
  exact of_decide_eq_true (Option.some.inj hsearch)

/-- What a request makes of the variable: if it succeeds then all that it asks for is there. -/
def Takes (env : CallEnv) (r : SetRequest) (v : AuthVariable) (lists : List SignatureList) (status : AuthStatus)
    (vars : Variables) : Prop :=
  ∃ v' added, vars r.key = some v' ∧
    Appends r.Asks (fun e => status = .success ∧ r.Asks e) (r.Distinct env) v lists v' added

theorem Takes.refused (hv : s'.vars r.key = some v) (hrow : HoldsRow v lists) (hfails : status ≠ .success) :
    Takes env r v lists status s'.vars := ⟨v, [], hv, .none hrow fun _ he => hfails he.1⟩

theorem Takes.touch {vars vars' : Variables} (h : Takes env r v lists status vars) (hvars : vars' r.key = vars r.key)
    (hstatus : status' = .success → status = .success) : Takes env r v lists status' vars' := by
  obtain ⟨v', added, hv', happends⟩ := h
  exact ⟨v', added, hvars.trans hv', happends.mono (fun _ => id) (fun _ => And.imp_left hstatus) id⟩

/-- A request about a database that appends, with the attributes of the variable. -/
structure AppendsTo (r : SetRequest) (v : AuthVariable) : Prop where
  database : r.key ∈ databaseKeys ∨ r.key = kekKey
  append : hasAny r.attributes appendWrite = true
  attributes : r.attributes &&& ~~~appendWrite = v.attributes

theorem timeBased_of_keyAttributes {attributes : BitVec 32} (h : ¬(!keyAttributes attributes) = true) :
    hasAny attributes timeBasedAuthenticatedWriteAccess = true := by
  simp only [keyAttributes, Bool.not_eq_true', Bool.not_eq_false, Bool.and_eq_true] at h
  exact h.2

/-- **The update** with the payload. -/
theorem update_takes (platform : AuthPlatform) (env : CallEnv) (h : AppendsTo r v)
    (htime : hasAny r.attributes timeBasedAuthenticatedWriteAccess = true) (hv : s.vars r.key = some v)
    (hrow : HoldsRow v lists) (hnew : payload r.data = signatureLists.row new) :
    let u := authServiceInternalUpdateVariableWithTimeStamp platform env r.key (payload r.data) r.attributes
      (descriptorTimeStamp r.data) s
    Takes env r v lists u.1 u.2.vars := by
  intro u
  obtain ⟨added, hfilter, hasked, hmust, hdistinct⟩ := filterSignatureList_adds env.scratch lists new
  have hfind : authServiceInternalFindVariable r.key s = some v.data := by
    rw [authServiceInternalFindVariable, hv, Option.map_some]
  have hu : u = updateVariable platform.driver
      ⟨r.key, signatureLists.row added, r.attributes, some (descriptorTimeStamp r.data)⟩ s := by
    change authServiceInternalUpdateVariableWithTimeStamp .. = _
    unfold authServiceInternalUpdateVariableWithTimeStamp
    rw [hfind]
    dsimp only
    rw [if_pos ⟨h.append, h.database⟩, hrow.data, hnew, hfilter]
  rcases updateVariable_cases platform.driver s
    ⟨r.key, signatureLists.row added, r.attributes, some (descriptorTimeStamp r.data)⟩ with ⟨hfails, hsame⟩ | ⟨-, hupdate⟩
  · rw [← hu] at hfails hsame
    exact .refused (by rw [hsame, hv]) hrow hfails
  · rw [← hu] at hupdate
    have haccess : hasAny r.attributes (bootserviceAccess ||| runtimeAccess) = true := by
      rw [← hasAny_masked, h.attributes]
      exact hrow.access
    have hstays : ¬VariableUpdate.Deletes ⟨r.key, signatureLists.row added, r.attributes, some (descriptorTimeStamp r.data)⟩ := by
      simp [VariableUpdate.Deletes, h.append, haccess]
    obtain ⟨v', hv', hdata, hlabels, hstamp⟩ := platform.driver.update_appends hupdate hv hstays h.append
    have hattributes : v'.attributes = v.attributes :=
      hlabels.holds (· = v.attributes) h.attributes fun o ho => by rw [Option.some.inj (hv.symm.trans ho)]
    have hlater : v.timeStamp.stamp ≤ v'.timeStamp.stamp := by
      rw [hstamp _ htime rfl]
      split_ifs with hlater
      · exact compareTimeStamp_iff.1 hlater
      · exact Nat.le_refl _
    have hholds : HoldsRow v' (lists ++ added) :=
      ⟨by rw [hdata, hrow.data, Format.row_append], hattributes ▸ hrow.access, hattributes ▸ hrow.nonVolatile⟩
    refine ⟨v', added, hv', ⟨hholds, hattributes, hlater, fun e he => ?_, fun e he => ?_, fun hd => ?_⟩⟩
    · exact (asks_iff hnew e).2 (hasked e he)
    · exact hmust e ((asks_iff hnew e).1 he.2)
    · exact hdistinct hd.1 (hd.2 new hnew)

/-- A payload that passes the check. -/
theorem checkPayload_row (h : AppendsTo r v) (hlong : LongLists (payload r.data) env.behind)
    (hsuccess : (checkPayload platform env r s).1 = .success) : ∃ new, payload r.data = signatureLists.row new := by
  have hkey : isKeyVariable r.key = true := by
    rw [isKeyVariable, decide_eq_true_eq]
    exact h.database.elim (fun hdatabase => .inr (.inr hdatabase)) fun hkek => .inr (.inl hkek)
  unfold checkPayload at hsuccess
  split at hsuccess
  · simp at hsuccess
  · rename_i status hcheck
    have hstatus : status = .success := hsuccess
    rw [hstatus] at hcheck
    obtain ⟨new, hnew, -⟩ := row_of_checked hlong hkey hcheck
    exact ⟨new, hnew⟩

theorem checkPayload_vars : (checkPayload platform env r s).2.vars = s.vars :=
  funext fun key => (checkPayload_touches platform env r s fun _ => False).vars key id

theorem storeUnverified_takes (platform : AuthPlatform) (env : CallEnv) (h : AppendsTo r v)
    (htime : hasAny r.attributes timeBasedAuthenticatedWriteAccess = true) (hv : s.vars r.key = some v)
    (hrow : HoldsRow v lists) (hlong : LongLists (payload r.data) env.behind) :
    Takes env r v lists (storeUnverified platform env r s).1 (storeUnverified platform env r s).2.vars := by
  have hvars : (checkPayload platform env r s).2.vars r.key = some v := by rw [checkPayload_vars, hv]
  unfold storeUnverified
  dsimp only
  split_ifs with hfails
  · exact .refused hvars hrow hfails
  · obtain ⟨new, hnew⟩ := checkPayload_row h hlong (not_not.1 hfails)
    exact update_takes platform env h htime hvars hrow hnew

end Requests

section Requests

variable {platform : AuthPlatform} {env : CallEnv} {r : SetRequest} {s s' : AuthState} {v : AuthVariable}
  {lists new : List SignatureList} {key : VariableKey}

/-- A signature that is good means a payload that passed the check. -/
theorem verifyTimeBasedPayload_checked {type : AuthVarType} (htype : type ≠ .priv) {org : Option EfiTime}
    (hsuccess : (verifyTimeBasedPayload platform env r type org s).1 = .success) :
    (checkPayload platform env r s).1 = .success := by
  unfold verifyTimeBasedPayload at hsuccess
  dsimp only at hsuccess
  split_ifs at hsuccess
  · exact hsuccess
  · unfold verifySignature at hsuccess
    cases type with
    | pk =>
      dsimp only at hsuccess
      split_ifs at hsuccess
      exact hsuccess
    | kek =>
      dsimp only at hsuccess
      split at hsuccess
      · simp at hsuccess
      · split at hsuccess
        · simp at hsuccess
        · exact hsuccess
        · simp at hsuccess
    | priv => exact absurd rfl htype
    | payload =>
      dsimp only at hsuccess
      split_ifs at hsuccess
      exact hsuccess

theorem verifyAndUpdate_takes (platform : AuthPlatform) (env : CallEnv) {type : AuthVarType} (htype : type ≠ .priv)
    (h : AppendsTo r v) (htime : hasAny r.attributes timeBasedAuthenticatedWriteAccess = true) (hv : s.vars r.key = some v)
    (hrow : HoldsRow v lists) (hlong : LongLists (payload r.data) env.behind) :
    let t := verifyTimeBasedPayloadAndUpdate platform env r type s
    Takes env r v lists t.1 t.2.2.vars := by
  have hverify := verifyTimeBasedPayload_touches platform env r s type ((s.vars r.key).map (·.timeStamp))
  have hvars : (verifyTimeBasedPayload platform env r type ((s.vars r.key).map (·.timeStamp)) s).2.vars r.key = some v := by
    rw [hverify.vars r.key fun h => htype h.1, hv]
  unfold verifyTimeBasedPayloadAndUpdate
  split_ifs
  · exact .refused hv hrow (by simp)
  · dsimp only
    split_ifs with hfails hpriv
    · exact .refused hvars hrow hfails
    · exact absurd hpriv.2.1 htype
    · obtain ⟨new, hnew⟩ := checkPayload_row h hlong
        (verifyTimeBasedPayload_checked htype (not_not.1 hfails))
      exact update_takes platform env h htime hvars hrow hnew

theorem AppendsTo.not_vendor (h : AppendsTo r v) : ¬(r.key = vendorKeysNvKey ∨ r.key = vendorKeysKey) := by
  have hapart : ∀ key ∈ [vendorKeysNvKey, vendorKeysKey], key ∉ databaseKeys ∧ key ≠ kekKey := by decide
  intro hvendor
  obtain ⟨hdatabase, hkek⟩ := hapart r.key (by simpa using hvendor)
  exact h.database.elim hdatabase hkek

/-- `ProcessVarWithPk` up to the mode. -/
theorem storeWithPk_takes (platform : AuthPlatform) (env : CallEnv) (h : AppendsTo r v)
    (htime : hasAny r.attributes timeBasedAuthenticatedWriteAccess = true) (hv : s.vars r.key = some v)
    (hrow : HoldsRow v lists) (hlong : LongLists (payload r.data) env.behind) :
    let t := storeWithPk platform env r false s
    Takes env r v lists t.1 t.2.2.vars := by
  have hstore := storeUnverified_takes platform env h htime hv hrow hlong
  unfold storeWithPk
  dsimp only
  split_ifs with hfree hfails hmodified huser henrolls
  · exact hstore
  · exact hstore.touch ((vendorKeyIsModified_touches ..).vars r.key h.not_vendor) fun _ => not_not.1 hfails
  · exact hstore
  · exact verifyAndUpdate_takes platform env (by decide) h htime hv hrow hlong
  · exact absurd henrolls.2.2 (by decide)
  · exact verifyAndUpdate_takes platform env (by decide) h htime hv hrow hlong

theorem processVarWithPk_takes (platform : AuthPlatform) (env : CallEnv) (h : AppendsTo r v) (hv : s.vars r.key = some v)
    (hrow : HoldsRow v lists) (hlong : LongLists (payload r.data) env.behind) :
    Takes env r v lists (processVarWithPk platform env r false s).1 (processVarWithPk platform env r false s).2.vars := by
  unfold processVarWithPk
  split_ifs with hattributes
  · exact .refused hv hrow (by simp)
  · have hstore := storeWithPk_takes platform env h (timeBased_of_keyAttributes hattributes) hv hrow hlong
    generalize storeWithPk platform env r false s = t at hstore ⊢
    obtain ⟨status, del, s'⟩ := t
    dsimp only
    rw [if_neg fun h => h.2.elim]
    exact hstore

theorem processVarWithKek_takes (platform : AuthPlatform) (env : CallEnv) (h : AppendsTo r v) (hv : s.vars r.key = some v)
    (hrow : HoldsRow v lists) (hlong : LongLists (payload r.data) env.behind) :
    Takes env r v lists (processVarWithKek platform env r s).1 (processVarWithKek platform env r s).2.vars := by
  unfold processVarWithKek
  by_cases hattributes : (!keyAttributes r.attributes) = true
  · rw [if_pos hattributes]
    exact .refused hv hrow (by simp)
  have htime := timeBased_of_keyAttributes hattributes
  have hstore := storeUnverified_takes platform env h htime hv hrow hlong
  rw [if_neg hattributes]
  dsimp only
  split_ifs with huser hfails hmodified
  · exact verifyAndUpdate_takes platform env (by decide) h htime hv hrow hlong
  · exact hstore
  · exact hstore.touch ((vendorKeyIsModified_touches ..).vars r.key h.not_vendor) fun _ => not_not.1 hfails
  · exact hstore

/-- **One request** that appends. For db, dbx and dbt there is a second attempt if the first one fails. -/
theorem process_takes (platform : AuthPlatform) (env : CallEnv) (h : AppendsTo r v) (hv : s.vars r.key = some v)
    (hrow : HoldsRow v lists) (hlong : LongLists (payload r.data) env.behind) :
    Takes env r v lists (authVariableLibProcessVariable platform env r s).1
      (authVariableLibProcessVariable platform env r s).2.vars := by
  have hpk := processVarWithPk_takes platform env h hv hrow hlong
  have hnotPk : r.key ≠ pkKey := fun heq => absurd (heq ▸ h.database) (by decide)
  unfold authVariableLibProcessVariable
  rw [if_neg hnotPk]
  split_ifs with hkek hdatabase
  · exact hpk
  · dsimp only
    split_ifs with hfails
    · obtain ⟨v', added, hv', happends⟩ := hpk
      have h' : AppendsTo r v' := ⟨h.database, h.append, h.attributes.trans happends.attributes.symm⟩
      obtain ⟨v'', added', hv'', happends'⟩ := processVarWithKek_takes platform env h' hv' happends.holds hlong
      exact ⟨v'', added ++ added', hv'', (happends.trans happends').mono (fun _ => id) (fun _ => .inr) id⟩
    · exact hpk
  · exact absurd h.database (not_or.2 ⟨hdatabase, hkek⟩)

/-! ## Other requests -/

theorem updatePlatformMode_keyVariable {mode : BitVec 32} (hkey : isKeyVariable key = true) :
    (updatePlatformMode platform env mode s).2.vars key = s.vars key := by
  have hnot := not_isLibraryKey hkey
  have hsetup : key ≠ setupModeKey := fun heq => hnot (.inr (by rw [heq]; decide))
  cases hfind : authServiceInternalFindVariable setupModeKey s with
  | none =>
    unfold updatePlatformMode
    rw [hfind]
  | some data =>
    rw [(updatePlatformMode_touches platform env mode (by rw [hfind]; rfl)).vars key fun h => hnot (.inr (by
      rcases h with rfl | rfl <;> decide))]
    split_ifs
    · rw [setMode_vars, Function.update_of_ne hsetup]
    · rfl

/-- A request changes no other key variable. -/
theorem process_keyVariable (platform : AuthPlatform) (env : CallEnv) (s : AuthState) (hkey : isKeyVariable key = true)
    (hother : key ≠ r.key) : (authVariableLibProcessVariable platform env r s).2.vars key = s.vars key := by
  have hnot := not_isLibraryKey hkey
  have hvendor : key ∉ [vendorKeysNvKey, vendorKeysKey] := fun hmem => hnot (.inr (List.mem_append_right
    [setupModeKey, signatureSupportKey, secureBootKey, secureBootEnableKey, customModeKey] hmem))
  by_cases hpk : r.key = pkKey
  · have hstore := (storeWithPk_touches platform env r s true).vars key (not_or.2 ⟨hother, hvendor⟩)
    unfold authVariableLibProcessVariable processVarWithPk
    rw [if_pos hpk]
    split_ifs
    · rfl
    · generalize storeWithPk platform env r true s = t at hstore ⊢
      obtain ⟨status, del, s'⟩ := t
      dsimp only at hstore ⊢
      split_ifs
      · rw [updatePlatformMode_keyVariable hkey, hstore]
      · rw [updatePlatformMode_keyVariable hkey, hstore]
      · exact hstore
      · exact hstore
  · exact (process_touches platform env s hpk).vars key (not_or.2 ⟨hother, not_or.2 ⟨fun h => hnot (.inl h), hvendor⟩⟩)

end Requests

/-! ## Runs -/

/-- A signature that some request asks for. -/
def AskedFor (key : VariableKey) (events : List AuthEvent) (e : SignatureEntry) : Prop :=
  ∃ env r, .request env r ∈ events ∧ r.key = key ∧ r.Asks e

/-- A signature that is asked for by a request that succeeds. -/
def GrantedIn (platform : AuthPlatform) (key : VariableKey) (e : SignatureEntry) : AuthSystem → List AuthEvent → Prop
  | _, [] => False
  | s, event :: events =>
    (∃ env r, event = .request env r ∧ r.key = key ∧ s.ready = true ∧ s.running = true ∧
      platform.driver.accepts s.vars r.key r.attributes = true ∧
      (authVariableLibProcessVariable platform env r s.toAuthState).1 = .success ∧ r.Asks e) ∨
    GrantedIn platform key e (authStep platform s event) events

/-- The requests about a variable append, and no list in them is shorter than its header. -/
def OnlyAppends (key : VariableKey) (event : AuthEvent) : Prop :=
  ∀ env r, event = .request env r → r.key = key → hasAny r.attributes appendWrite = true ∧ LongLists (payload r.data) env.behind

/-- No request asks twice for a signature. -/
def AsksOnce (key : VariableKey) (event : AuthEvent) : Prop := ∀ env r, event = .request env r → r.key = key → r.Distinct env

section Runs

variable {platform : AuthPlatform} {key : VariableKey} {s : AuthSystem} {v : AuthVariable} {lists : List SignatureList}

/-- **One step.** -/
theorem authStep_appends (platform : AuthPlatform) (hkey : key ∈ databaseKeys ∨ key = kekKey)
    (hv : s.vars key = some v) (hrow : HoldsRow v lists)
    {event : AuthEvent} (hevent : OnlyAppends key event) :
    ∃ v' added, (authStep platform s event).vars key = some v' ∧
      Appends (AskedFor key [event]) (fun e => GrantedIn platform key e s [event]) (AsksOnce key event) v lists v' added := by
  have hkeyVariable : isKeyVariable key = true := by
    rw [isKeyVariable, decide_eq_true_eq]
    exact hkey.elim (fun hdatabase => .inr (.inr hdatabase)) fun hkek => .inr (.inl hkek)
  have hstays : ∀ t : AuthSystem, t.vars key = s.vars key → (∀ e, ¬GrantedIn platform key e s [event]) →
      ∃ v' added, t.vars key = some v' ∧
        Appends (AskedFor key [event]) (fun e => GrantedIn platform key e s [event]) (AsksOnce key event) v lists v' added :=
    fun t ht hnone => ⟨v, [], ht.trans hv, .none hrow hnone⟩
  cases event with
  | boot st rounds =>
    refine hstays _ ?_ fun e he => ?_
    · refine ((initializeVariables_touches ..).vars key (not_isLibraryKey hkeyVariable)).trans ?_
      exact (platform.driver.restart_eq_some_iff.2 ⟨hv, hrow.nonVolatile⟩).trans hv.symm
    · rcases he with ⟨env, r, heq, -⟩ | he
      · simp at heq
      · exact he
  | request env r =>
    have hgranted : ∀ e, GrantedIn platform key e s [.request env r] → r.key = key ∧ s.ready = true ∧ s.running = true ∧
        platform.driver.accepts s.vars r.key r.attributes = true ∧
        (authVariableLibProcessVariable platform env r s.toAuthState).1 = .success ∧ r.Asks e := by
      rintro e (⟨env', r', heq, h⟩ | h)
      · obtain ⟨rfl, rfl⟩ := AuthEvent.request.inj heq
        exact h
      · exact h.elim
    by_cases huse : s.ready = true ∧ s.running = true ∧ platform.driver.accepts s.vars r.key r.attributes = true
    · have hstep : (authStep platform s (.request env r)).vars =
          (authVariableLibProcessVariable platform env r s.toAuthState).2.vars := by
        rw [authStep, if_pos huse]
      by_cases hother : key = r.key
      · subst hother
        obtain ⟨happend, hlong⟩ := hevent env r rfl rfl
        have haccepts := huse.2.2
        have happends : AppendsTo r v := by
          refine ⟨hkey, happend, platform.driver.accepts_attributes haccepts hv fun hzero => ?_⟩
          rw [hzero] at happend
          exact absurd happend (by decide)
        obtain ⟨v', added, hv', h⟩ := process_takes platform env (s := s.toAuthState) happends hv hrow hlong
        refine ⟨v', added, by rw [hstep, hv'], h.mono (fun e he => ?_) (fun e he => ?_) fun hd => hd env r rfl rfl⟩
        · exact ⟨env, r, List.mem_singleton_self _, rfl, he⟩
        · obtain ⟨-, -, -, -, hsuccess, hasks⟩ := hgranted e he
          exact ⟨hsuccess, hasks⟩
      · refine hstays _ ?_ fun e he => hother (hgranted e he).1.symm
        rw [hstep]
        exact process_keyVariable platform env s.toAuthState hkeyVariable hother
    · refine hstays _ ?_ fun e he => huse ⟨(hgranted e he).2.1, (hgranted e he).2.2.1, (hgranted e he).2.2.2.1⟩
      rw [authStep, if_neg huse]

end Runs

/-- **A signature database only grows.** Take KEK, db, dbx or dbt with a row of signature lists in it, and any run of boots,
power losses and requests, of which those about this variable append; updates may fail, but for db, dbx and dbt, where a
second attempt would find the payload that the filter has compacted. Then the variable is still there and holds what it held
and some lists behind it; its time stamp is not earlier; each new signature was asked for; each signature that was asked for
by a request that succeeded is there; and if no request asks twice for a signature, and the filter has its buffer, then no
signature is there twice. -/
theorem runAuth_appends (platform : AuthPlatform) (key : VariableKey)
    (hkey : key ∈ databaseKeys ∧ platform.driver.Reliable ∨ key = kekKey) (s : AuthSystem) (v : AuthVariable)
    (lists : List SignatureList) (hv : s.vars key = some v) (hrow : HoldsRow v lists) (events : List AuthEvent)
    (hevents : ∀ event ∈ events, OnlyAppends key event) :
    ∃ v' added, (runAuth platform s events).vars key = some v' ∧ v'.data = signatureLists.row (lists ++ added) ∧
      v'.attributes = v.attributes ∧ v.timeStamp.stamp ≤ v'.timeStamp.stamp ∧
      (∀ e ∈ entriesOf added, AskedFor key events e) ∧
      (∀ e, GrantedIn platform key e s events → e ∈ entriesOf (lists ++ added)) ∧
      ((∀ event ∈ events, AsksOnce key event) → (entriesOf lists).Nodup → (entriesOf (lists ++ added)).Nodup) := by
  suffices h : ∃ v' added, (runAuth platform s events).vars key = some v' ∧ Appends (AskedFor key events)
      (fun e => GrantedIn platform key e s events) (∀ event ∈ events, AsksOnce key event) v lists v' added by
    obtain ⟨v', added, hv', happends⟩ := h
    exact ⟨v', added, hv', happends.holds.data, happends.attributes, happends.later, happends.asked, happends.must,
      happends.distinct⟩
  induction events generalizing s v lists with
  | nil => exact ⟨v, [], hv, .none hrow fun _ he => he⟩
  | cons event events ih =>
    obtain ⟨v', added, hv', hfirst⟩ :=
      authStep_appends platform (hkey.imp_left And.left) hv hrow (hevents event List.mem_cons_self)
    obtain ⟨v'', added', hv'', hrest⟩ := ih (authStep platform s event) v' (lists ++ added) hv' hfirst.holds
      fun event' hmem => hevents event' (List.mem_cons_of_mem _ hmem)
    have hasked : ∀ e, AskedFor key [event] e → AskedFor key (event :: events) e := by
      rintro e ⟨env, r, hmem, h⟩
      exact ⟨env, r, List.mem_cons.2 (.inl (List.mem_singleton.1 hmem)), h⟩
    have hasked' : ∀ e, AskedFor key events e → AskedFor key (event :: events) e := by
      rintro e ⟨env, r, hmem, h⟩
      exact ⟨env, r, List.mem_cons_of_mem _ hmem, h⟩
    refine ⟨v'', added ++ added', hv'', ((hfirst.mono hasked (fun _ => id) fun h => ?_).trans
      (hrest.mono hasked' (fun _ => id) fun h => ?_)).mono (fun _ => id) (fun e he => ?_) id⟩
    · exact h event List.mem_cons_self
    · exact fun event' hmem => h event' (List.mem_cons_of_mem _ hmem)
    · rcases he with hnow | hlater
      · exact .inl (.inl hnow)
      · exact .inr hlater

/-! ## The same hash once more -/

def dbxKey : VariableKey := ⟨utf16 "dbx", gEfiImageSecurityDatabaseGuid⟩

theorem dbxKey_settable : 0 ∉ dbxKey.name ∧ dbxKey ∉ readOnlyKeys ∧ dbxKey.name.length < 2 ^ 29 := by decide

/-- A descriptor without a signature, and the hash of one image. -/
def appendedHash : List (BitVec 8) := leBytes 16 0 ++ (leBytes 4 24 ++ (leBytes 20 0 ++ signatureLists.row [sha256List]))

theorem payload_appendedHash : payload appendedHash = signatureLists.row [sha256List] := rfl

theorem appendedHash_described (_ : hasAny 0x67 timeBasedAuthenticatedWriteAccess = true) :
    24 ≤ dwLength appendedHash ∧ authInfo2Size appendedHash ≤ appendedHash.length := by decide

def appendHash : SetRequest :=
  ⟨dbxKey, appendedHash, 0x67, dbxKey_settable.1, dbxKey_settable.2.1, dbxKey_settable.2.2, appendedHash_described⟩

/-- The hash is there already, and there is no PK. -/
def forbiddenImage : AuthVariable := ⟨signatureLists.row [sha256List], 0x27, .zero⟩

def setupFirmware : AuthSystem := ⟨⟨Function.update (fun _ => none) dbxKey (some forbiddenImage), 0, 0, 0, true⟩, false⟩

theorem runAuth_appends_hash :
    let events : List AuthEvent := [.boot ⟨none, none⟩ 4, .request unattendedEnv appendHash]
    ∃ v' added, (runAuth unsignedPlatform setupFirmware events).vars dbxKey = some v' ∧
      v'.data = signatureLists.row ([sha256List] ++ added) ∧ v'.attributes = forbiddenImage.attributes ∧
      forbiddenImage.timeStamp.stamp ≤ v'.timeStamp.stamp ∧
      (∀ e ∈ entriesOf added, AskedFor dbxKey events e) ∧
      (∀ e, GrantedIn unsignedPlatform dbxKey e setupFirmware events → e ∈ entriesOf ([sha256List] ++ added)) ∧
      ((∀ event ∈ events, AsksOnce dbxKey event) → (entriesOf [sha256List]).Nodup →
        (entriesOf ([sha256List] ++ added)).Nodup) := by
  intro events
  have hdatabase : dbxKey ∈ databaseKeys ∧ unsignedPlatform.driver.Reliable ∨ dbxKey = kekKey :=
    .inl ⟨by decide, referenceDriver_reliable⟩
  have hthere : setupFirmware.vars dbxKey = some forbiddenImage := by simp [setupFirmware]
  refine runAuth_appends unsignedPlatform dbxKey hdatabase setupFirmware forbiddenImage [sha256List] hthere
    ⟨rfl, by decide, by decide⟩ events fun event hevent env r heq _ => ?_
  simp only [events, List.mem_cons, List.not_mem_nil, or_false] at hevent
  rcases hevent with hboot | hrequest
  · rw [hboot] at heq
    simp at heq
  · obtain ⟨-, rfl⟩ := AuthEvent.request.inj (heq.symm.trans hrequest)
    refine ⟨by decide, ?_⟩
    change LongLists (payload appendedHash) env.behind
    rw [payload_appendedHash]
    exact longLists_row [sha256List] env.behind

end Andromeda
