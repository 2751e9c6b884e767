import KyaOs.Delegation.ChainEnforcement
import Mathlib.Data.List.Chain
import Mathlib.Data.List.Nodup
import Mathlib.Order.Lattice

/-!
# What an accepted delegation chain establishes

`ChainSound` collects what a relying party may conclude from an accepted chain.
The loop establishes all of it but one thing: whether a credential is a
re-delegation is read off its own `parentId`, so a credential whose parent has
the empty id escapes the audience requirement. `validateDelegationChain_sound_iff`
says that this is the only gap.
-/

namespace KyaOs

open Js Effect

/-- The server is among the audience. -/
def Audience.Names (serverDid : JsString) : Audience → Prop
  | .one did => did = serverDid
  | .many dids => serverDid ∈ dids

/-- The credential is a re-delegation. -/
def NamesParent (credential : DelegationCredential) : Prop :=
  ∃ delegation ∈ credential.delegation, truthy delegation.parentId = true

/-- The credential has a non-empty audience constraint. -/
def CarriesAudience (credential : DelegationCredential) : Prop :=
  ∃ delegation ∈ credential.delegation, ∃ constraints ∈ delegation.constraints,
    hasAudience constraints.audience = true

/-- An audience the credential carries names the server. -/
def BoundTo (serverDid : JsString) (credential : DelegationCredential) : Prop :=
  ∀ delegation ∈ credential.delegation, ∀ constraints ∈ delegation.constraints,
    ∀ audience ∈ constraints.audience, hasAudience (some audience) = true →
      audience.Names serverDid

/-- `child` re-delegates what `parent` delegated, and its subject signed it. -/
def Linked (regExp : JsString → Option (JsString → Bool))
    (parent child : DelegationCredential) : Prop :=
  ∃ parentDelegation ∈ parent.delegation, ∃ delegation ∈ child.delegation,
    delegation.parentId = some parentDelegation.id ∧
    delegation.issuerDid = parentDelegation.subjectDid ∧
    credentialIssuerDid child = some parentDelegation.subjectDid ∧
    ∃ validation, validateScopeAttenuation regExp parent child = .ok validation ∧
      validation.valid = true

section Ports

variable {Ref : Type}

theorem exec_orThrow_bind_ok {α β : Type} {x : Except Error α}
    {f : α → Eff (PortCalls Ref) Stop β} {calls calls' : PortCalls Ref} {b : β} :
    exec (orThrow x >>= f) calls = (.ok b, calls') ↔
      ∃ a, x = .ok a ∧ exec (f a) calls = (.ok b, calls') := by
  cases x <;> simp [orThrow]

theorem exec_rejectIf_bind_ok {α : Type} {p : Prop} [Decidable p] {reason : JsString}
    {x : PUnit → Eff (PortCalls Ref) Stop α} {calls calls' : PortCalls Ref} {a : α} :
    exec (rejectIf p reason >>= x) calls = (.ok a, calls') ↔
      ¬ p ∧ exec (x ⟨⟩) calls = (.ok a, calls') :=
  exec_stopIf_bind_ok

theorem exec_rejectIf_ok {p : Prop} [Decidable p] {reason : JsString}
    {calls calls' : PortCalls Ref} {u : PUnit} :
    exec (rejectIf p reason) calls = (.ok u, calls') ↔ ¬ p ∧ calls' = calls :=
  exec_stopIf_ok

theorem exec_verifyCredential_bind_ok {β : Type} {deps : ChainEnforcementDeps Ref} {ref : Ref}
    {skipSignature : Bool} {f : Verification → Eff (PortCalls Ref) Stop β}
    {calls calls' : PortCalls Ref} {b : β} :
    exec (verifyCredential deps ref skipSignature >>= f) calls = (.ok b, calls') ↔
      ∃ verification,
        deps.verifyDelegationCredential calls.verifier ref skipSignature = .ok verification ∧
        exec (f verification) { calls with
          verifier := calls.verifier ++ [⟨ref, skipSignature, verification.valid⟩] } =
            (.ok b, calls') := by
  simp only [verifyCredential, bind_assoc, exec_get_bind, exec_set_bind, exec_orThrow_bind_ok,
    pure_bind]

end Ports

theorem extractDelegationFromVC_ok {vc : DelegationCredential} {record : DelegationRecord}
    (h : extractDelegationFromVC vc = .ok record) :
    ∃ delegation, vc.delegation = some delegation ∧ record.id = delegation.id ∧
      record.issuerDid = delegation.issuerDid ∧ record.subjectDid = delegation.subjectDid ∧
      record.parentId = delegation.parentId ∧ record.constraints = delegation.constraints := by
  unfold extractDelegationFromVC at h
  split at h
  · cases h
  · rename_i delegation hdelegation
    cases h
    exact ⟨delegation, hdelegation, rfl, rfl, rfl, rfl, rfl⟩

theorem constraints_ok {record : DelegationRecord} {constraints : DelegationConstraints}
    (h : record.constraints! = .ok constraints) : record.constraints = some constraints := by
  unfold DelegationRecord.constraints! at h
  split at h
  · cases h
    assumption
  · cases h

/-- An accepted audience names the server, where there is one. -/
theorem names_of_verifyDelegationAudience {record : DelegationRecord} {serverDid : JsString}
    {constraints : DelegationConstraints} {audience : Audience}
    (hconstraints : record.constraints = some constraints)
    (haudience : constraints.audience = some audience)
    (hpresent : hasAudience (some audience) = true)
    (h : verifyDelegationAudience record serverDid = .ok true) : audience.Names serverDid := by
  simp only [verifyDelegationAudience, DelegationRecord.constraints!, hconstraints, haudience,
    hpresent, bind, Except.bind] at h
  cases audience with
  | one did => simpa [pure, Except.pure, Audience.Names] using h
  | many dids => simpa [pure, Except.pure, Audience.Names] using h

section Soundness

variable {Ref : Type} (load : Ref → DelegationCredential)
  (regExp : JsString → Option (JsString → Bool)) (dateParse : JsString → JsNumber)
  (numberText : JsNumber → JsString) (deps : ChainEnforcementDeps Ref)

def delegationId (ref : Ref) : Option JsString := (load ref).delegation.map (·.id)

/-- The resolved list without a trailing copy of the leaf. -/
def withoutTrailingCopy (leaf : Ref) (resolvedChain : List Ref) : List Ref :=
  if resolvedChain.getLast?.map (delegationId load) = some (delegationId load leaf) then
    resolvedChain.dropLast
  else resolvedChain

/-- The chain a presented leaf is judged by. -/
inductive Presents (leaf : Ref) : List Ref → Prop
  | alone (hroot : ¬ NamesParent (load leaf)) : Presents leaf [leaf]
  | resolved {resolve : Ref → Except Error (List Ref)} {resolvedChain : List Ref}
      (hparent : NamesParent (load leaf)) (hport : deps.resolveDelegationChain = some resolve)
      (hresolved : resolve leaf = .ok resolvedChain) :
      Presents leaf (withoutTrailingCopy load leaf resolvedChain ++ [leaf])

/-- A credential's own finite deadlines. -/
def Deadline (credential : DelegationCredential) (deadline : ℚ) : Prop :=
  ∃ delegation ∈ credential.delegation, ∃ constraints ∈ delegation.constraints,
    some (.finite deadline) ∈ deadlines dateParse credential constraints

/-- What an accepted chain and the port calls behind it establish. -/
structure ChainSound (leaf : Ref) (result : ChainValidationResult) (calls : PortCalls Ref)
    (chain : List Ref) : Prop where
  root : ∃ root ∈ chain.head?, ¬ NamesParent (load root) ∧
    ∀ issuers ∈ deps.trustedRootIssuers, ∃ did ∈ issuers, credentialIssuerDid (load root) = some did
  linked : chain.IsChain fun parent child =>
    Linked regExp (load parent) (load child) ∧ CarriesAudience (load child)
  bound : ∀ ref ∈ chain, BoundTo deps.serverDid (load ref)
  distinct : (chain.map (delegationId load)).Nodup
  verified : calls.verifier.map (·.credential) = chain ∧
    ∀ call ∈ calls.verifier, call.valid = true ∧
      (call.skipSignature = true → call.credential = leaf)
  status : deps.statusListConfigured = false → ∀ ref ∈ chain, (load ref).credentialStatus = false
  length : ∀ maxChainLength ∈ deps.maxChainLength,
    ∃ limit, maxChainLength.toInt? = some limit ∧ chain.length ≤ limit
  unrevoked : deps.isRevoked.isSome = true →
    calls.revocation.map (fun call => some call.delegationId) = chain.map (delegationId load) ∧
      ∀ call ∈ calls.revocation, call.revoked = false
  expiry : ∀ ref ∈ chain, ∀ deadline, Deadline dateParse (load ref) deadline →
    ∃ expiresAt ∈ result.expiresAt, expiresAt ≤ deadline

/-- Behind a credential with the empty id, the next one carries an audience. -/
def EmptyIdsBound (chain : List Ref) : Prop :=
  chain.IsChain fun parent child =>
    delegationId load parent = some [] → CarriesAudience (load child)

variable {load regExp dateParse numberText deps}

variable (load regExp deps) in
/-- Everything a round checked about its credential on its own. -/
structure Checked (ref : Ref) : Prop where
  bound : BoundTo deps.serverDid (load ref)
  status : deps.statusListConfigured = false → (load ref).credentialStatus = false
  audience : NamesParent (load ref) → CarriesAudience (load ref)

variable (regExp deps) in
/-- What a round establishes of its credential's place in the chain. -/
def Follows (previous : Option (DelegationRecord × DelegationCredential))
    (record : DelegationRecord) (credential : DelegationCredential) : Prop :=
  match previous with
  | none => truthy record.parentId = false ∧ ∀ issuers ∈ deps.trustedRootIssuers,
      ∃ did ∈ issuers, credentialIssuerDid credential = some did
  | some (previousRecord, previousCredential) =>
      record.parentId = some previousRecord.id ∧ record.issuerDid = previousRecord.subjectDid ∧
      credentialIssuerDid credential = some previousRecord.subjectDid ∧
      ∃ validation, validateScopeAttenuation regExp previousCredential credential =
        .ok validation ∧ validation.valid = true

theorem checkRoot_ok {record : DelegationRecord} {credential : DelegationCredential}
    {warnings : List JsString} {calls calls' : PortCalls Ref}
    (h : exec (checkRoot deps record credential) calls = (.ok warnings, calls')) :
    Follows regExp deps none record credential ∧ calls' = calls := by
  simp only [checkRoot, exec_rejectIf_bind_ok] at h
  obtain ⟨hroot, htrusted, h⟩ := h
  refine ⟨⟨by simpa using hroot, fun issuers hissuers => ?_⟩, ?_⟩
  · push Not at htrusted
    obtain ⟨did, hdid, hmem⟩ := htrusted issuers hissuers
    exact ⟨did, hmem, hdid⟩
  · split at h <;> cases h <;> rfl

theorem checkPlace_ok {previous : Option (DelegationRecord × DelegationCredential)}
    {record : DelegationRecord} {credential : DelegationCredential} {warnings : List JsString}
    {calls calls' : PortCalls Ref}
    (h : exec (checkPlace regExp deps previous record credential) calls = (.ok warnings, calls')) :
    Follows regExp deps previous record credential ∧ calls' = calls := by
  match previous with
  | none => exact checkRoot_ok h
  | some (previousRecord, previousCredential) =>
      simp only [checkPlace, checkLink, bind_assoc, exec_rejectIf_bind_ok, exec_orThrow_bind_ok,
        exec_stopIf_bind_ok, exec_pure] at h
      obtain ⟨hparent, hissuer, hsigner, validation, hscope, hvalid, h⟩ := h
      cases h
      exact ⟨⟨not_not.mp hparent, not_not.mp hissuer, not_not.mp hsigner, validation, hscope,
        by simpa using hvalid⟩, rfl⟩

theorem earlier_le {expiresAt : Option ℚ} {bound : ℚ} (deadline : Option JsNumber)
    (h : ∃ e ∈ expiresAt, e ≤ bound) : ∃ e ∈ earlier expiresAt deadline, e ≤ bound := by
  obtain ⟨e, he, hle⟩ := h
  obtain rfl := Option.mem_def.mp he
  match deadline with
  | some (.finite d) => exact ⟨min e d, rfl, (min_le_left e d).trans hle⟩
  | some (.infinity _) | some .nan | none => exact ⟨e, rfl, hle⟩

theorem foldl_earlier_le {expiresAt : Option ℚ} {bound : ℚ} (deadlines : List (Option JsNumber))
    (h : ∃ e ∈ expiresAt, e ≤ bound) : ∃ e ∈ deadlines.foldl earlier expiresAt, e ≤ bound := by
  induction deadlines generalizing expiresAt with
  | nil => exact h
  | cons deadline rest ih => exact ih (earlier_le deadline h)

/-- The running minimum is at most every finite deadline folded into it. -/
theorem foldl_earlier_le_of_mem {deadlines : List (Option JsNumber)} {deadline : ℚ}
    (h : some (.finite deadline) ∈ deadlines) (expiresAt : Option ℚ) :
    ∃ e ∈ deadlines.foldl earlier expiresAt, e ≤ deadline := by
  induction deadlines generalizing expiresAt with
  | nil => cases h
  | cons first rest ih =>
      rcases List.mem_cons.mp h with rfl | hrest
      · exact foldl_earlier_le rest ⟨_, rfl, min_le_right _ _⟩
      · exact ih hrest _

variable (load regExp dateParse deps) in
/-- The invariant of the loop over the chain; `seen` is the part already walked. -/
structure Walked (leaf : Ref) (seen : List Ref) (state : LoopState) (calls : PortCalls Ref) :
    Prop where
  ids : state.seenIds.map some = seen.map (delegationId load)
  distinct : state.seenIds.Nodup
  previous : match seen.getLast? with
    | none => state.previous = none
    | some ref => ∃ record, extractDelegationFromVC (load ref) = .ok record ∧
        state.previous = some (record, load ref)
  root : ∀ root ∈ seen.head?, ¬ NamesParent (load root) ∧ ∀ issuers ∈ deps.trustedRootIssuers,
    ∃ did ∈ issuers, credentialIssuerDid (load root) = some did
  linked : seen.IsChain fun parent child => Linked regExp (load parent) (load child)
  checked : ∀ ref ∈ seen, Checked load deps ref
  verified : calls.verifier.map (·.credential) = seen ∧
    ∀ call ∈ calls.verifier, call.valid = true ∧
      (call.skipSignature = true → call.credential = leaf)
  revocation : calls.revocation = []
  expiry : ∀ ref ∈ seen, ∀ deadline, Deadline dateParse (load ref) deadline →
    ∃ expiresAt ∈ state.expiresAt, expiresAt ≤ deadline

/-- The link to the previous credential, as the specification states it. -/
theorem linked_of_follows {parent child : DelegationCredential}
    {parentRecord record : DelegationRecord}
    (hparent : extractDelegationFromVC parent = .ok parentRecord)
    (hchild : extractDelegationFromVC child = .ok record)
    (h : Follows regExp deps (some (parentRecord, parent)) record child) :
    Linked regExp parent child := by
  obtain ⟨p, hp, hid, -, hsubject, -, -⟩ := extractDelegationFromVC_ok hparent
  obtain ⟨c, hc, -, hissuer, -, hparentId, -⟩ := extractDelegationFromVC_ok hchild
  obtain ⟨hlink, hclaimed, hsigned, hscope⟩ := h
  refine ⟨p, hp, c, hc, ?_, ?_, ?_, hscope⟩
  · rw [← hparentId, hlink, hid]
  · rw [← hissuer, hclaimed, hsubject]
  · rw [hsigned, hsubject]

theorem Walked.start (leaf : Ref) : Walked load regExp dateParse deps leaf [] {} {} where
  ids := rfl
  distinct := List.nodup_nil
  previous := rfl
  root := by simp
  linked := List.isChain_nil
  checked := by simp
  verified := by simp
  revocation := rfl
  expiry := by simp

theorem delegationId_eq {ref : Ref} {record : DelegationRecord}
    (h : extractDelegationFromVC (load ref) = .ok record) :
    delegationId load ref = some record.id := by
  obtain ⟨delegation, hdelegation, hid, -⟩ := extractDelegationFromVC_ok h
  simp [delegationId, hdelegation, hid]

/-- The first position of an id, as `findIndex` answers it. -/
theorem findDelegationIndex_ok {id : JsString} {refs : List Ref} {index : Option Nat}
    (h : findDelegationIndex load id refs = .ok index) :
    match index with
    | none => ∀ ref ∈ refs, delegationId load ref ≠ some id
    | some i => (refs[i]?).map (delegationId load) = some (some id) := by
  induction refs generalizing index with
  | nil =>
      cases h
      simp
  | cons ref rest ih =>
      obtain ⟨delegation, hdelegation, h⟩ := bind_eq_ok.mp h
      have hload : (load ref).delegation = some delegation := by
        unfold DelegationCredential.delegation! at hdelegation
        split at hdelegation
        · cases hdelegation
          assumption
        · cases hdelegation
      split at h
      · rename_i hsame
        cases h
        simp [delegationId, hload, hsame]
      · rename_i hother
        obtain ⟨index', hrest, h⟩ := bind_eq_ok.mp h
        cases h
        have := ih hrest
        cases index' with
        | none =>
            intro ref' hmem
            rcases List.mem_cons.mp hmem with rfl | hmem
            · simpa [delegationId, hload] using hother
            · exact this ref' hmem
        | some i => simpa using this

theorem presentedChain_ok {leaf : Ref} {record : DelegationRecord} {chain : List Ref}
    {calls calls' : PortCalls Ref} (hleaf : extractDelegationFromVC (load leaf) = .ok record)
    (h : exec (presentedChain load deps leaf record) calls = (.ok chain, calls')) :
    Presents load deps leaf chain ∧ calls' = calls := by
  obtain ⟨delegation, hdelegation, hid, -, -, hparentId, -⟩ := extractDelegationFromVC_ok hleaf
  unfold presentedChain at h
  split at h
  · rename_i hparent
    have hnames : NamesParent (load leaf) := ⟨delegation, hdelegation, by rwa [← hparentId]⟩
    split at h
    · cases h
    rename_i resolve hport
    split at h
    · cases h
    rename_i resolvedChain hresolved
    simp only [exec_rejectIf_bind_ok, exec_orThrow_bind_ok] at h
    obtain ⟨hnonempty, leafIndex, hindex, hlast, h⟩ := h
    have hfound := findDelegationIndex_ok hindex
    have hleafId := delegationId_eq hleaf
    suffices hsame : (if leafIndex = none then resolvedChain else resolvedChain.dropLast) =
        withoutTrailingCopy load leaf resolvedChain by
      rw [hsame] at h
      cases h
      exact ⟨.resolved hnames hport hresolved, rfl⟩
    rcases resolvedChain.eq_nil_or_concat' with rfl | ⟨before, last, rfl⟩
    · exact absurd rfl hnonempty
    rw [withoutTrailingCopy, List.getLast?_concat, Option.map_some, hleafId]
    match leafIndex with
    | none => simp [hfound last (by simp)]
    | some i =>
        obtain rfl : i = before.length := by simpa using hlast
        simp_all
  · rename_i hroot
    cases h
    refine ⟨.alone ?_, rfl⟩
    rintro ⟨delegation', hdelegation', hparent⟩
    rw [hdelegation] at hdelegation'
    cases hdelegation'
    exact hroot (by rwa [hparentId])

theorem checkChainLength_ok {chainLength : Nat} {calls calls' : PortCalls Ref} {u : PUnit}
    (h : exec (checkChainLength numberText deps chainLength) calls = (.ok u, calls')) :
    (∀ maxChainLength ∈ deps.maxChainLength,
      ∃ limit, maxChainLength.toInt? = some limit ∧ (chainLength : Int) ≤ limit) ∧
    calls' = calls := by
  unfold checkChainLength at h
  split at h
  · rename_i hunset
    cases h
    exact ⟨by simp [hunset], rfl⟩
  · rename_i maxChainLength hset
    split at h
    · cases h
    · rename_i limit hlimit
      simp only [exec_rejectIf_bind_ok, exec_rejectIf_ok] at h
      obtain ⟨-, hle, hcalls⟩ := h
      refine ⟨fun maxChainLength' hmem => ⟨limit, ?_, not_lt.mp hle⟩, hcalls⟩
      rw [hset] at hmem
      cases hmem
      exact hlimit

theorem Presents.unique {leaf : Ref} {chain chain' : List Ref}
    (h : Presents load deps leaf chain) (h' : Presents load deps leaf chain') : chain = chain' := by
  cases h with
  | alone hroot =>
      cases h' with
      | alone => rfl
      | resolved hparent => exact absurd hparent hroot
  | resolved hparent hport hresolved =>
      cases h' with
      | alone hroot => exact absurd hparent hroot
      | resolved _ hport' hresolved' =>
          rw [hport] at hport'
          cases hport'
          rw [hresolved] at hresolved'
          cases hresolved'
          rfl

theorem checkRevocation_ok {record : DelegationRecord}
    {isRevoked : List RevocationCall → JsString → Except Error Revocation} {ref : Ref}
    {calls calls' : PortCalls Ref} {u : PUnit}
    (h : exec (checkRevocation load record isRevoked ref) calls = (.ok u, calls')) :
    ∃ id, delegationId load ref = some id ∧
      calls' = { calls with revocation := calls.revocation ++ [⟨id, false⟩] } := by
  simp only [checkRevocation, exec_orThrow_bind_ok, exec_get_bind] at h
  obtain ⟨delegation, hdelegation, h⟩ := h
  split at h
  · cases h
  · rename_i revocation hanswer
    rw [exec_set_bind, exec_rejectIf_ok] at h
    obtain ⟨hnot, rfl⟩ := h
    refine ⟨delegation.id, ?_, by rw [Bool.eq_false_of_not_eq_true hnot]⟩
    unfold DelegationCredential.delegation! at hdelegation
    split at hdelegation
    · rename_i hload
      cases hdelegation
      simp [delegationId, hload]
    · cases hdelegation

/-- The revocation loop asks about every credential of the chain, in order. -/
theorem forM_checkRevocation_ok {record : DelegationRecord}
    {isRevoked : List RevocationCall → JsString → Except Error Revocation} {chain : List Ref}
    {calls calls' : PortCalls Ref} {u : PUnit} (hnone : calls.revocation = [])
    (h : exec (chain.forM (checkRevocation load record isRevoked)) calls = (.ok u, calls')) :
    calls'.verifier = calls.verifier ∧
    calls'.revocation.map (fun call => some call.delegationId) = chain.map (delegationId load) ∧
      ∀ call ∈ calls'.revocation, call.revoked = false := by
  refine forM_ok_induction (I := fun seen (now : PortCalls Ref) => now.verifier = calls.verifier ∧
    now.revocation.map (fun call => some call.delegationId) = seen.map (delegationId load) ∧
      ∀ call ∈ now.revocation, call.revoked = false) ?_ ⟨rfl, by simp [hnone], by simp [hnone]⟩ h
  rintro seen ref now now' ⟨hverifier, hasked, hanswers⟩ hround
  obtain ⟨id, hid, rfl⟩ := checkRevocation_ok hround
  refine ⟨hverifier, by simp [hasked, hid], fun call hmem => ?_⟩
  rcases List.mem_append.mp hmem with hold | hnew
  · exact hanswers call hold
  · rw [List.mem_singleton.mp hnew]

/-- A link to a credential with a non-empty id is a re-delegation, so its
audience was required. -/
theorem carriesAudience_of_linked {parent child : Ref}
    (hlinked : Linked regExp (load parent) (load child))
    (hchecked : Checked load deps child) (hid : delegationId load parent ≠ some []) :
    CarriesAudience (load child) := by
  obtain ⟨parentDelegation, hparent, delegation, hdelegation, hparentId, -⟩ := hlinked
  refine hchecked.audience ⟨delegation, hdelegation, ?_⟩
  rw [hparentId]
  simpa [truthy, delegationId, Option.mem_def.mp hparent] using hid

variable [DecidableEq Ref]

theorem checkCredential_ok {leaf ref : Ref} {skipSignature : Bool} {state state' : LoopState}
    {calls calls' : PortCalls Ref}
    (h : exec (checkCredential load regExp dateParse deps leaf skipSignature state ref) calls =
      (.ok state', calls')) :
    ∃ record constraints, extractDelegationFromVC (load ref) = .ok record ∧
      record.constraints = some constraints ∧ record.id ∉ state.seenIds ∧
      Checked load deps ref ∧ Follows regExp deps state.previous record (load ref) ∧
      calls' = { calls with verifier := calls.verifier ++
        [⟨ref, skipSignature && ref = leaf, true⟩] } ∧
      state'.previous = some (record, load ref) ∧
      state'.seenIds = state.seenIds ++ [record.id] ∧
      state'.expiresAt =
        (deadlines dateParse (load ref) constraints).foldl earlier state.expiresAt := by
  simp only [checkCredential, exec_orThrow_bind_ok, exec_rejectIf_bind_ok,
    exec_verifyCredential_bind_ok] at h
  obtain ⟨record, hrecord, hfresh, hstatus, verification, -, hvalid, constraints, hread,
    audienceVerified, haudience, hbound, hcarries, h⟩ := h
  obtain ⟨warnings, calls₁, hplace, h⟩ := exec_bind_ok.mp h
  obtain ⟨hfollows, rfl⟩ := checkPlace_ok hplace
  cases h
  have hconstraints := constraints_ok hread
  obtain ⟨delegation, hdelegation, -, -, -, hparentId, hsame⟩ := extractDelegationFromVC_ok hrecord
  have hown : ∀ delegation' ∈ (load ref).delegation, delegation' = delegation := by
    simp [hdelegation]
  refine ⟨record, constraints, hrecord, hconstraints, hfresh, ⟨?_, ?_, ?_⟩, hfollows,
    by simp_all, rfl, rfl, rfl⟩
  · intro delegation' hdelegation' constraints' hconstraints' audience hpresent htruthy
    obtain rfl := hown delegation' hdelegation'
    rw [← hsame, hconstraints] at hconstraints'
    cases hconstraints'
    exact names_of_verifyDelegationAudience hconstraints hpresent htruthy
      (by rw [haudience, Bool.eq_true_of_not_eq_false hbound])
  · intro hunset
    exact Bool.eq_false_of_not_eq_true fun hpresent => hstatus ⟨hpresent, hunset⟩
  · rintro ⟨delegation', hdelegation', hparent⟩
    obtain rfl := hown delegation' hdelegation'
    refine ⟨delegation', hdelegation, constraints, hsame.symm.trans hconstraints, ?_⟩
    exact Bool.eq_true_of_not_eq_false fun hnone => hcarries ⟨by rwa [hparentId], hnone⟩

theorem Walked.step {leaf ref : Ref} {skipSignature : Bool} {seen : List Ref}
    {state state' : LoopState} {calls calls' : PortCalls Ref}
    (hw : Walked load regExp dateParse deps leaf seen state calls)
    (h : exec (checkCredential load regExp dateParse deps leaf skipSignature state ref) calls =
      (.ok state', calls')) :
    Walked load regExp dateParse deps leaf (seen ++ [ref]) state' calls' := by
  obtain ⟨record, constraints, hrecord, hconstraints, hfresh, hchecked, hfollows, rfl, hprevious,
    hids, hexpires⟩ := checkCredential_ok h
  obtain ⟨delegation, hdelegation, hid, -, -, hparentId, hsame⟩ :=
    extractDelegationFromVC_ok hrecord
  have hown : ∀ delegation' ∈ (load ref).delegation, delegation' = delegation := by
    simp [hdelegation]
  have hplace := hw.previous
  refine ⟨?_, ?_, ?_, ?_, ?_, ?_, ?_, hw.revocation, ?_⟩
  · simp [hids, hw.ids, delegationId, hdelegation, hid]
  · rw [hids]
    exact List.nodup_append.mpr ⟨hw.distinct, by simp, by grind⟩
  · simpa using ⟨record, hrecord, hprevious⟩
  · intro root hroot
    match hseen : seen.head? with
    | some first =>
        refine hw.root root ?_
        rw [List.head?_append, hseen] at hroot
        rwa [hseen]
    | none =>
        obtain rfl := List.head?_eq_none_iff.mp hseen
        obtain rfl : ref = root := by simpa using hroot
        rw [show state.previous = none from hplace] at hfollows
        refine ⟨?_, hfollows.2⟩
        rintro ⟨delegation', hdelegation', hparent⟩
        rw [hown _ hdelegation', ← hparentId, hfollows.1] at hparent
        cases hparent
  · refine List.isChain_append.mpr ⟨hw.linked, List.isChain_singleton _, ?_⟩
    intro last hlast child hchild
    obtain rfl : ref = child := by simpa using hchild
    rw [Option.mem_def.mp hlast] at hplace
    obtain ⟨previousRecord, hpreviousRecord, hstate⟩ := hplace
    exact linked_of_follows hpreviousRecord hrecord (hstate ▸ hfollows)
  · intro ref' hmem
    rcases List.mem_append.mp hmem with hold | hnew
    · exact hw.checked ref' hold
    · rwa [List.mem_singleton.mp hnew]
  · obtain ⟨hcredentials, hcalls⟩ := hw.verified
    refine ⟨by simp [hcredentials], fun call hmem => ?_⟩
    rcases List.mem_append.mp hmem with hold | hnew
    · exact hcalls call hold
    · obtain rfl := List.mem_singleton.mp hnew
      exact ⟨rfl, by simp⟩
  · intro ref' hmem deadline hdeadline
    rw [hexpires]
    rcases List.mem_append.mp hmem with hold | hnew
    · exact foldl_earlier_le _ (hw.expiry ref' hold deadline hdeadline)
    · obtain rfl := List.mem_singleton.mp hnew
      obtain ⟨delegation', hdelegation', constraints', hconstraints', hmem'⟩ := hdeadline
      rw [hown _ hdelegation', ← hsame, hconstraints] at hconstraints'
      cases hconstraints'
      exact foldl_earlier_le_of_mem hmem' _

/-- What a validation that ran to its end has established, the audiences of
re-delegations aside. -/
theorem validateChain_ok {leaf : Ref} {skipSignature : Bool} {result : ChainValidationResult}
    {calls : PortCalls Ref}
    (h : exec (validateChain load regExp dateParse numberText deps leaf skipSignature) {} =
      (.ok result, calls)) :
    ∃ chain, Presents load deps leaf chain ∧ chain ≠ [] ∧
      (∀ maxChainLength ∈ deps.maxChainLength,
        ∃ limit, maxChainLength.toInt? = some limit ∧ (chain.length : Int) ≤ limit) ∧
      ∃ state walked, Walked load regExp dateParse deps leaf chain state walked ∧
        calls.verifier = walked.verifier ∧ result.expiresAt = state.expiresAt ∧
        (deps.isRevoked.isSome = true →
          calls.revocation.map (fun call => some call.delegationId) =
              chain.map (delegationId load) ∧
            ∀ call ∈ calls.revocation, call.revoked = false) := by
  simp only [validateChain, exec_orThrow_bind_ok, exec_rejectIf_bind_ok] at h
  obtain ⟨-, record, hleaf, h⟩ := h
  obtain ⟨chain, _, hchain, h⟩ := exec_bind_ok.mp h
  obtain ⟨hpresents, rfl⟩ := presentedChain_ok hleaf hchain
  obtain ⟨_, _, hcheck, h⟩ := exec_bind_ok.mp h
  obtain ⟨hlength, rfl⟩ := checkChainLength_ok hcheck
  obtain ⟨state, walked, hwalk, h⟩ := exec_bind_ok.mp h
  have hwalked := foldlM_ok_induction (I := Walked load regExp dateParse deps leaf)
    (fun _ _ _ _ _ _ hw hround => hw.step hround) (Walked.start leaf) hwalk
  simp only [exec_orThrow_bind_ok, exec_rejectIf_bind_ok] at h
  obtain ⟨-, -, -, h⟩ := h
  have hne : chain ≠ [] := by cases hpresents <;> simp
  refine ⟨chain, hpresents, hne, hlength, state, walked, hwalked, ?_⟩
  split at h
  · rename_i hunset
    cases h
    exact ⟨rfl, rfl, by simp [hunset]⟩
  · obtain ⟨_, asked, hasked, h⟩ := exec_bind_ok.mp h
    cases h
    obtain ⟨hverifier, hrest⟩ := forM_checkRevocation_ok hwalked.revocation hasked
    exact ⟨hverifier, rfl, fun _ => hrest⟩

/-- An accepted chain is sound exactly when no re-delegation behind an empty id
goes without an audience. -/
theorem validateDelegationChain_sound_iff (leaf : Ref) (skipSignature : Bool)
    (result : ChainValidationResult)
    (h : (validateDelegationChain load regExp dateParse numberText deps leaf skipSignature).1 =
      .ok result) (hvalid : result.valid = true) :
    (∃ chain, Presents load deps leaf chain ∧
      ChainSound load regExp dateParse deps leaf result
        (validateDelegationChain load regExp dateParse numberText deps leaf skipSignature).2
        chain) ↔
    ∀ chain, Presents load deps leaf chain → EmptyIdsBound load chain := by
  obtain ⟨calls, hcalls, hrun⟩ : ∃ calls,
      (validateDelegationChain load regExp dateParse numberText deps leaf skipSignature).2 = calls ∧
      exec (validateChain load regExp dateParse numberText deps leaf skipSignature) {} =
        (.ok result, calls) := by
    unfold validateDelegationChain at h ⊢
    split at h
    · rename_i result' calls hrun
      cases h
      exact ⟨calls, rfl, hrun⟩
    · cases h
      cases hvalid
    · cases h
  obtain ⟨chain, hpresents, hne, hlength, state, walked, hw, hverifier, hexpires, hrevocation⟩ :=
    validateChain_ok hrun
  rw [hcalls]
  constructor
  · rintro ⟨chain', hpresents', hsound⟩ chain'' hpresents''
    obtain rfl := hpresents'.unique hpresents''
    exact hsound.linked.imp fun _ _ hpair _ => hpair.2
  · intro hbound
    refine ⟨chain, hpresents, ?_⟩
    have hempty := hbound chain hpresents
    constructor
    · obtain ⟨root, rest, rfl⟩ := List.exists_cons_of_ne_nil hne
      exact ⟨root, rfl, hw.root root rfl⟩
    · refine List.isChain_iff_getElem.mpr fun i hi => ?_
      have hlinked := List.isChain_iff_getElem.mp hw.linked i hi
      refine ⟨hlinked, ?_⟩
      by_cases hid : delegationId load chain[i] = some []
      · exact List.isChain_iff_getElem.mp hempty i hi hid
      · exact carriesAudience_of_linked hlinked (hw.checked _ (List.getElem_mem _)) hid
    · exact fun ref hmem => (hw.checked ref hmem).bound
    · rw [← hw.ids]
      exact hw.distinct.map (Option.some_injective _)
    · rw [hverifier]
      exact hw.verified
    · exact fun hunset ref hmem => (hw.checked ref hmem).status hunset
    · exact hlength
    · exact hrevocation
    · rw [hexpires]
      exact hw.expiry

end Soundness

/-- A root whose delegation id is the empty string. -/
def emptyIdRoot : DelegationCredential :=
  { issuer := .did (js "did:web:root")
    delegation := some { id := [], issuerDid := js "did:web:root", subjectDid := js "did:web:a" } }

/-- Its re-delegation, with no audience. -/
def unboundMiddle : DelegationCredential :=
  { issuer := .did (js "did:web:a")
    delegation := some
      { id := js "middle", issuerDid := js "did:web:a", subjectDid := js "did:web:b",
        parentId := some [] } }

def boundLeaf : DelegationCredential :=
  { issuer := .did (js "did:web:b")
    delegation := some
      { id := js "leaf", issuerDid := js "did:web:b", subjectDid := js "did:web:c",
        parentId := some (js "middle")
        constraints := some { audience := some (.one (js "did:web:server")) } } }

/-- A server whose resolver returns the two ancestors, and whose verifier accepts. -/
def emptyIdDeps : ChainEnforcementDeps DelegationCredential :=
  { serverDid := js "did:web:server"
    verifyDelegationCredential := fun _ _ _ => .ok { valid := true }
    resolveDelegationChain := some fun _ => .ok [emptyIdRoot, unboundMiddle]
    statusListConfigured := true }

/-- The leaf is accepted although the credential behind the root has no audience. -/
theorem unboundMiddle_accepted :
    (validateDelegationChain id (fun _ => none) (fun _ => .nan) (fun _ => []) emptyIdDeps
      boundLeaf false).1 = .ok { valid := true } ∧
    ¬ ∃ chain, Presents id emptyIdDeps boundLeaf chain ∧
      ChainSound id (fun _ => none) (fun _ => .nan) emptyIdDeps boundLeaf { valid := true }
        (validateDelegationChain id (fun _ => none) (fun _ => .nan) (fun _ => []) emptyIdDeps
          boundLeaf false).2 chain := by
  refine ⟨by decide, ?_⟩
  rintro ⟨chain, hpresents, hsound⟩
  have hchain : Presents id emptyIdDeps boundLeaf
      (withoutTrailingCopy id boundLeaf [emptyIdRoot, unboundMiddle] ++ [boundLeaf]) :=
    .resolved ⟨_, rfl, rfl⟩ rfl rfl
  rw [show withoutTrailingCopy id boundLeaf [emptyIdRoot, unboundMiddle] =
    [emptyIdRoot, unboundMiddle] from by decide] at hchain
  obtain rfl := hpresents.unique hchain
  have hpair := (List.isChain_cons_cons.mp hsound.linked).1
  obtain ⟨-, delegation, hdelegation, constraints, hconstraints, haudience⟩ := hpair
  cases hdelegation
  cases hconstraints
  cases haudience

theorem validateDelegationChain_sound_iff_emptyId :
    (∃ chain, Presents id emptyIdDeps boundLeaf chain ∧
      ChainSound id (fun _ => none) (fun _ => .nan) emptyIdDeps boundLeaf { valid := true }
        (validateDelegationChain id (fun _ => none) (fun _ => .nan) (fun _ => []) emptyIdDeps
          boundLeaf false).2 chain) ↔
    ∀ chain, Presents id emptyIdDeps boundLeaf chain → EmptyIdsBound id chain :=
  validateDelegationChain_sound_iff boundLeaf false { valid := true } (by decide) rfl

end KyaOs
