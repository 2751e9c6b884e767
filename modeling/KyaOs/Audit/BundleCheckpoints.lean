import KyaOs.Audit.BundleEntries

/-!
# The checkpoints of a replay bundle

The carried checkpoints of a bundle with valid checkpoints commit to the entries they cover,
and those under one key text are bound to each other. Checkpoints of two epochs can have one
key text.
-/

namespace KyaOs.Audit

open Js JsonValue

variable {D : Type}

/-- The schemas accept digests without a NUL only. -/
structure PlainDigests (schemas : AuditBundleSchemas D) : Prop where
  entry : ∀ candidate entry, schemas.signedAuditEntrySchema candidate = some entry →
    0 ∉ entry.entryDigest
  checkpoint : ∀ candidate checkpoint,
    schemas.signedAuditCheckpointSchema candidate = some checkpoint →
      0 ∉ checkpoint.checkpointDigest
  inclusion : ∀ candidate item, schemas.auditBundleInclusionProofSchema candidate = some item →
    0 ∉ item.checkpointDigest ∧ 0 ∉ item.entryDigest
  consistency : ∀ candidate item,
    schemas.auditBundleConsistencyProofSchema candidate = some item →
      0 ∉ item.oldCheckpointDigest ∧ 0 ∉ item.newCheckpointDigest

theorem inclusionKey_injective
    {checkpointDigest checkpointDigest' entryDigest entryDigest' : Digest}
    {sequence sequence' : Nat} (hcheckpoint : 0 ∉ checkpointDigest)
    (hcheckpoint' : 0 ∉ checkpointDigest') (hentry : 0 ∉ entryDigest) (hentry' : 0 ∉ entryDigest')
    (h : inclusionKey checkpointDigest entryDigest sequence =
      inclusionKey checkpointDigest' entryDigest' sequence') :
    checkpointDigest = checkpointDigest' ∧ entryDigest = entryDigest' ∧ sequence = sequence' := by
  rw [inclusionKey, inclusionKey, List.append_assoc, List.append_assoc] at h
  obtain ⟨hcheckpoints, hrest⟩ := eq_of_join_eq hcheckpoint hcheckpoint' h
  obtain ⟨hentries, hsequences⟩ := eq_of_join_eq hentry hentry' hrest
  exact ⟨hcheckpoints, hentries, decimalString_injective hsequences⟩

section Checkpoints

variable {artifacts : AuditArtifactVerifier D} {sha256 : Bytes → Except Error Digest}

/-- A proof verifies that the entry is the leaf of its sequence under the checkpoint. -/
def ProvedLeaf (sha256 : Bytes → Except Error Digest) (checkpoint : SignedAuditCheckpoint D)
    (entry : SignedAuditEntry D) : Prop :=
  ∃ auditPath, verifyInclusion sha256 {
    leaf := entry.entryDigest
    leafIndex := .ofNat entry.core.sequence
    treeSize := .ofNat checkpoint.core.treeSize
    root := checkpoint.core.rootDigest
    auditPath } = true

/-- The checkpoint commits to each entry it covers, at the leaf of its sequence: its root is
that of the whole prefix, or every such entry has a proof. -/
def Commits (artifacts : AuditArtifactVerifier D) (sha256 : Bytes → Except Error Digest)
    (entries : List (SignedAuditEntry D)) (checkpoint : SignedAuditCheckpoint D) : Prop :=
  ((coveredBy entries checkpoint.core).map (fun entry => entry.core.sequence) =
      List.range checkpoint.core.treeSize ∧
    root artifacts.sha256 ((coveredBy entries checkpoint.core).map SignedAuditEntry.entryDigest) =
      .ok checkpoint.core.rootDigest) ∨
  ∀ entry ∈ coveredBy entries checkpoint.core, ProvedLeaf sha256 checkpoint entry

/-- One checkpoint links to another, or a proof verifies that its tree extends the other's. -/
def BoundTo (sha256 : Bytes → Except Error Digest) (previous current : SignedAuditCheckpoint D) :
    Prop :=
  current.core.previousCheckpointDigest = some previous.checkpointDigest ∨
    ∃ auditPath, verifyConsistency sha256 {
      oldSize := .ofNat previous.core.treeSize
      newSize := .ofNat current.core.treeSize
      oldRoot := previous.core.rootDigest
      newRoot := current.core.rootDigest
      auditPath } = true

/-- Checkpoints of one digest agree. -/
theorem Digested.agrees (hprints : artifacts.numbers.Prints)
    (hinjective : Injective artifacts.sha256) {left right : SignedAuditCheckpoint D}
    (hleft : Digested artifacts left) (hright : Digested artifacts right)
    (h : left.checkpointDigest = right.checkpointDigest) : left.core.Agrees right.core :=
  AuditCheckpointCore.agrees_of_same (same_of_hashAuditValue hprints hinjective
    (wellFormed_checkpointCore _) (wellFormed_checkpointCore _) hleft (h ▸ hright))

/-- What the check of a signature comes to: a rejection, or reasons against the checkpoint. -/
theorem checkSignedCheckpoint_cases {candidate value : JsonValue D} {context : List (JsonValue D)}
    {checkpoint : SignedAuditCheckpoint D} {check : AuditArtifactVerifier.CheckpointCheck D}
    (hschema : artifacts.schemas.signedAuditCheckpointSchema candidate = some checkpoint)
    (h : artifacts.checkSignedCheckpoint candidate value context = .ok check) :
    (∃ result, check = .rejected result ∧ result.verdict ≠ .valid) ∨
      ∃ reasons, check = .checked checkpoint.core reasons ∧
        (reasons = [] → Digested artifacts checkpoint) := by
  unfold AuditArtifactVerifier.checkSignedCheckpoint at h
  rw [hschema] at h
  split at h
  · exact .inl ⟨_, (Except.ok.inj h).symm, nofun⟩
  · exact .inl ⟨_, (Except.ok.inj h).symm, nofun⟩
  · rename_i policy found _ hfound
    obtain rfl := Option.some.inj hfound
    obtain ⟨boundaries, -, h⟩ := bind_eq_ok.mp h
    obtain ⟨digest, hdigest, h⟩ := bind_eq_ok.mp h
    obtain ⟨signed, -, h⟩ := bind_eq_ok.mp h
    refine .inr ⟨_, (Except.ok.inj h).symm, ?_⟩
    intro hreasons
    simp only [reasonsOf_cons, decide_eq_false_iff_not, not_not] at hreasons
    obtain ⟨-, -, -, -, hsame, -⟩ := hreasons
    exact hdigest.trans (congrArg Except.ok hsame)

/-- A candidate that verifies carries its digest; its root is that of the prefix it covers,
or every entry it covers has a verified key. -/
theorem checkpoint_of_valid {entries : List (SignedAuditEntry D)} {inclusions : List JsString}
    {candidate value : JsonValue D} {context : List (JsonValue D)}
    {checkpoint : SignedAuditCheckpoint D} {result : AuditVerificationDimension}
    (hschema : artifacts.schemas.signedAuditCheckpointSchema candidate = some checkpoint)
    (h : verifyCheckpointCandidate artifacts entries inclusions value context candidate =
      .ok result)
    (hvalid : result.verdict = .valid) :
    Digested artifacts checkpoint ∧
      (((coveredBy entries checkpoint.core).map (fun entry => entry.core.sequence) =
          List.range checkpoint.core.treeSize ∧
        root artifacts.sha256
            ((coveredBy entries checkpoint.core).map SignedAuditEntry.entryDigest) =
          .ok checkpoint.core.rootDigest) ∨
      ∀ entry ∈ coveredBy entries checkpoint.core,
        inclusionKey checkpoint.checkpointDigest entry.entryDigest entry.core.sequence ∈
          inclusions) := by
  unfold verifyCheckpointCandidate at h
  rw [hschema] at h
  dsimp only at h
  split at h
  · rename_i hprefix
    obtain ⟨check, hcheck, h⟩ := bind_eq_ok.mp h
    obtain ⟨rejected, rfl, hrejected⟩ | ⟨reasons, rfl, hdigested⟩ :=
      checkSignedCheckpoint_cases hschema hcheck
    · obtain rfl := Except.ok.inj h
      exact absurd hvalid hrejected
    · dsimp only at h
      split at h
      · obtain ⟨digest, hdigest, h⟩ := bind_eq_ok.mp h
        obtain rfl := Except.ok.inj h
        obtain ⟨hnone, hroot⟩ := List.append_eq_nil_iff.mp (verdictOf_eq_valid.mp hvalid)
        refine ⟨hdigested hnone, .inl ⟨of_decide_eq_true hprefix, ?_⟩⟩
        simp only [reasonsOf_cons, decide_eq_false_iff_not, not_not] at hroot
        exact hdigest.trans (congrArg Except.ok hroot.1)
      · obtain rfl := Except.ok.inj h
        obtain ⟨-, hrange⟩ := List.append_eq_nil_iff.mp (verdictOf_eq_valid.mp hvalid)
        cases hrange
  · obtain ⟨signed, hsigned, h⟩ := bind_eq_ok.mp h
    obtain rfl := Except.ok.inj h
    obtain ⟨check, hcheck, hsigned⟩ := bind_eq_ok.mp hsigned
    have hboth := (mergeAuditDimensions_eq_valid.mp hvalid).2
    have hsignedValid := hboth signed List.mem_cons_self
    have hbinding := hboth _ (List.mem_cons_of_mem _ (List.mem_singleton_self _))
    obtain ⟨rejected, rfl, hrejected⟩ | ⟨reasons, rfl, hdigested⟩ :=
      checkSignedCheckpoint_cases hschema hcheck
    · obtain rfl := Except.ok.inj hsigned
      exact absurd hsignedValid hrejected
    · obtain rfl := Except.ok.inj hsigned
      obtain ⟨hnone, -⟩ := List.append_eq_nil_iff.mp (verdictOf_eq_valid.mp hsignedValid)
      refine ⟨hdigested hnone, .inr ?_⟩
      intro entry hentry
      have hreasons := List.flatMap_eq_nil_iff.mp (validUnless_eq_valid.mp hbinding) entry hentry
      simpa using (reasonsOf_cons _ _ _).mp hreasons |>.1

end Checkpoints

section Proofs

variable {verifier : BundleVerifier D} {bundle : AuditReplayBundle D}
  {entries : List (SignedAuditEntry D)} {checkpoints : List (SignedAuditCheckpoint D)}

/-- The other carried checkpoints of its digest agree with a checkpoint. -/
def Unrivalled (checkpoints : List (SignedAuditCheckpoint D))
    (checkpoint : SignedAuditCheckpoint D) : Prop :=
  0 ∉ checkpoint.checkpointDigest ∧ ∀ other ∈ checkpoints,
    other.checkpointDigest = checkpoint.checkpointDigest → other.core.Agrees checkpoint.core

/-- A verified key is of a proof for the entry and the checkpoint it names. -/
theorem provedLeaf_of_mem (hplain : PlainDigests verifier.schemas)
    {checkpoint : SignedAuditCheckpoint D} {entry : SignedAuditEntry D}
    (hcheckpoint : Unrivalled checkpoints checkpoint) (hentry : 0 ∉ entry.entryDigest)
    (h : inclusionKey checkpoint.checkpointDigest entry.entryDigest entry.core.sequence ∈
      (verifyMerkleProofComponents verifier bundle entries checkpoints).inclusions) :
    ProvedLeaf verifier.sha256 checkpoint entry := by
  obtain ⟨candidate, -, hkey⟩ := List.mem_filterMap.mp h
  obtain ⟨item, hitem, hverified⟩ := Option.bind_eq_some_iff.mp hkey
  unfold inclusionVerified at hverified
  dsimp only at hverified
  split at hverified
  · rename_i found _ hfound _
    split at hverified
    · cases hverified
    · rename_i hproof
      simp only [not_or, not_not] at hproof
      obtain ⟨hsize, hindex, hproof⟩ := hproof
      obtain ⟨hcheckpoints, hentries, hsequences⟩ := inclusionKey_injective
        (hplain.inclusion candidate item hitem).1 hcheckpoint.1
        (hplain.inclusion candidate item hitem).2 hentry (Option.some.inj hverified)
      have hdigest := List.find?_some hfound
      simp only [Bool.and_eq_true, decide_eq_true_eq] at hdigest
      have hagrees := hcheckpoint.2 found (List.mem_of_find?_eq_some hfound)
        (hdigest.1.trans hcheckpoints)
      refine ⟨item.auditPath, ?_⟩
      rw [← hentries, ← hsequences, ← hindex, ← hagrees.treeSize, ← hsize, ← hagrees.rootDigest]
      exact hproof
  · cases hverified

theorem boundTo_of_mem (hplain : PlainDigests verifier.schemas)
    {previous current : SignedAuditCheckpoint D} (hprevious : Unrivalled checkpoints previous)
    (hcurrent : Unrivalled checkpoints current)
    (h : consistencyKey previous.checkpointDigest current.checkpointDigest ∈
      (verifyMerkleProofComponents verifier bundle entries checkpoints).consistencies) :
    BoundTo verifier.sha256 previous current := by
  obtain ⟨candidate, -, hkey⟩ := List.mem_filterMap.mp h
  obtain ⟨item, hitem, hverified⟩ := Option.bind_eq_some_iff.mp hkey
  unfold consistencyVerified at hverified
  dsimp only at hverified
  split at hverified
  · rename_i old new hold hnew
    split at hverified
    · cases hverified
    · rename_i hproof
      simp only [not_or, not_not] at hproof
      obtain ⟨holdSize, hnewSize, hproof⟩ := hproof
      obtain ⟨holds, hnews⟩ := eq_of_join_eq (hplain.consistency candidate item hitem).1
        hprevious.1 (Option.some.inj hverified)
      have holdDigest := List.find?_some hold
      have hnewDigest := List.find?_some hnew
      simp only [Bool.and_eq_true, decide_eq_true_eq] at holdDigest hnewDigest
      have holdAgrees := hprevious.2 old (List.mem_of_find?_eq_some hold)
        (holdDigest.1.trans holds)
      have hnewAgrees := hcurrent.2 new (List.mem_of_find?_eq_some hnew)
        (hnewDigest.1.trans hnews)
      refine .inr ⟨item.auditPath, ?_⟩
      rw [← holdAgrees.treeSize, ← holdAgrees.rootDigest, ← hnewAgrees.treeSize,
        ← hnewAgrees.rootDigest, ← holdSize, ← hnewSize]
      exact hproof
  · cases hverified

end Proofs

section History

variable {included : List Digest} {verified : List JsString}

theorem chain_of_groupReasons {checkpoints : List (SignedAuditCheckpoint D)}
    (h : groupReasons included verified checkpoints = []) :
    checkpoints.IsChain fun previous current =>
      adjacentReasons included verified previous current = [] := by
  induction checkpoints with
  | nil => exact .nil
  | cons previous rest ih =>
      cases rest with
      | nil => exact .singleton previous
      | cons current rest =>
          obtain ⟨hadjacent, hrest⟩ := List.append_eq_nil_iff.mp h
          exact .cons_cons hadjacent (ih hrest)

/-- Neighbours with nothing against them have different sizes, and are linked or have a
verified key. -/
theorem adjacent_of_nil {previous current : SignedAuditCheckpoint D}
    (h : adjacentReasons included verified previous current = []) :
    current.core.treeSize ≠ previous.core.treeSize ∧
      (current.core.previousCheckpointDigest = some previous.checkpointDigest ∨
        consistencyKey previous.checkpointDigest current.checkpointDigest ∈ verified) := by
  unfold adjacentReasons at h
  split at h
  · cases h
  · rename_i hsizes
    refine ⟨hsizes, ?_⟩
    split at h
    · rename_i hlinked
      exact .inl hlinked
    · have hverified := ((reasonsOf_cons _ _ _).mp h).1
      simp only [Bool.or_eq_false_iff, Bool.not_eq_false', List.contains_iff_mem] at hverified
      exact .inr hverified.2

/-- The checkpoints under a key text. -/
def named (name : JsString) (checkpoints : List (SignedAuditCheckpoint D)) :
    List (SignedAuditCheckpoint D) :=
  checkpoints.filter fun checkpoint => ledgerEpochKey checkpoint.core.toAuditLedgerRef = name

theorem history_of_valid {checkpoints : List (SignedAuditCheckpoint D)}
    {entries : List (SignedAuditEntry D)} {selections : List AuditBundleSelection}
    (h : (verifyCheckpointHistory checkpoints entries selections verified).verdict = .valid) :
    (∀ name, (bySize (named name checkpoints)).IsChain fun previous current =>
      current.core.treeSize ≠ previous.core.treeSize ∧
        (current.core.previousCheckpointDigest = some previous.checkpointDigest ∨
          consistencyKey previous.checkpointDigest current.checkpointDigest ∈ verified)) ∧
    ∀ selection ∈ selections,
      (bySize (named (ledgerEpochKey selection.toAuditLedgerRef) checkpoints)).map
          (fun checkpoint => checkpoint.core.treeSize) =
        selection.checkpointTreeSizes.mergeSort fun left right => left ≤ right := by
  simp only [verifyCheckpointHistory, validUnless_eq_valid, List.append_eq_nil_iff,
    List.flatMap_eq_nil_iff, lookup_groupBy] at h
  obtain ⟨⟨hchains, hsizes⟩, -⟩ := h
  refine ⟨?_, ?_⟩
  · intro name
    by_cases hnone : named name checkpoints = []
    · rw [hnone, bySize, List.mergeSort_nil]
      exact .nil
    · obtain ⟨checkpoint, hmem⟩ := List.exists_mem_of_ne_nil _ hnone
      obtain ⟨hcarried, hname⟩ := List.mem_filter.mp hmem
      obtain rfl := of_decide_eq_true hname
      have hgroup := chain_of_groupReasons (hchains _ (mem_groupBy hcarried))
      exact hgroup.imp fun _ _ => adjacent_of_nil
  · intro selection hselection
    exact not_not.mp (of_decide_eq_false ((reasonsOf_cons _ _ _).mp (hsizes _ hselection)).1)

/-- The proofs a bundle carries, for the entries and checkpoints it carries. -/
def carriedProofs (verifier : BundleVerifier D) (bundle : AuditReplayBundle D) :
    MerkleProofVerification :=
  verifyMerkleProofComponents verifier bundle (carriedEntries verifier bundle)
    (carriedCheckpoints verifier bundle)

/-- What was found of a bundle's checkpoints with nothing against them. -/
structure HistorySound (verifier : BundleVerifier D) (bundle : AuditReplayBundle D) : Prop where
  digested : ∀ checkpoint ∈ carriedCheckpoints verifier bundle,
    Digested verifier.artifactVerifier checkpoint
  committed : ∀ checkpoint ∈ carriedCheckpoints verifier bundle,
    ((coveredBy (carriedEntries verifier bundle) checkpoint.core).map
          (fun entry => entry.core.sequence) = List.range checkpoint.core.treeSize ∧
        root verifier.artifactVerifier.sha256
            ((coveredBy (carriedEntries verifier bundle) checkpoint.core).map
              SignedAuditEntry.entryDigest) = .ok checkpoint.core.rootDigest) ∨
      ∀ entry ∈ coveredBy (carriedEntries verifier bundle) checkpoint.core,
        inclusionKey checkpoint.checkpointDigest entry.entryDigest entry.core.sequence ∈
          (carriedProofs verifier bundle).inclusions
  bound : ∀ name, (bySize (named name (carriedCheckpoints verifier bundle))).IsChain
    fun previous current => current.core.treeSize ≠ previous.core.treeSize ∧
      (current.core.previousCheckpointDigest = some previous.checkpointDigest ∨
        consistencyKey previous.checkpointDigest current.checkpointDigest ∈
          (carriedProofs verifier bundle).consistencies)
  sizes : ∀ selection ∈ bundle.core.selections,
    (bySize (named (ledgerEpochKey selection.toAuditLedgerRef)
        (carriedCheckpoints verifier bundle))).map (fun checkpoint => checkpoint.core.treeSize) =
      selection.checkpointTreeSizes.mergeSort fun left right => left ≤ right

theorem historySound_of_valid {verifier : BundleVerifier D} {bundle : AuditReplayBundle D}
    {value : JsonValue D} {fallback result : AuditVerificationDimension}
    (h : checkpointDimension verifier bundle value fallback = .ok result)
    (hvalid : result.verdict = .valid) : HistorySound verifier bundle := by
  unfold checkpointDimension at h
  dsimp only at h
  split at h
  · rename_i hnone
    have hcheckpoints : carriedCheckpoints verifier bundle = [] := by
      rw [carriedCheckpoints, List.isEmpty_iff.mp hnone]
      rfl
    obtain rfl := Except.ok.inj h
    split at hvalid
    · cases hvalid
    · rename_i hsizes
      refine ⟨by simp [hcheckpoints], by simp [hcheckpoints], ?_, ?_⟩
      · intro name
        rw [hcheckpoints, named, List.filter_nil, bySize, List.mergeSort_nil]
        exact .nil
      · intro selection hselection
        have hempty : selection.checkpointTreeSizes = [] := by
          by_contra hsome
          exact hsizes (List.any_eq_true.mpr ⟨selection, hselection, by simpa using hsome⟩)
        rw [hcheckpoints, named, List.filter_nil, bySize, hempty, List.mergeSort_nil,
          List.mergeSort_nil, List.map_nil]
  · obtain ⟨results, hresults, h⟩ := bind_eq_ok.mp h
    obtain rfl := Except.ok.inj h
    have hall := (mergeAuditDimensions_eq_valid.mp hvalid).2
    have hhistory := history_of_valid (hall _ (List.mem_append_right _ List.mem_cons_self))
    have hcandidates : ∀ checkpoint ∈ carriedCheckpoints verifier bundle, ∃ candidate result,
        verifier.schemas.signedAuditCheckpointSchema candidate = some checkpoint ∧
          verifyCheckpointCandidate verifier.artifactVerifier (carriedEntries verifier bundle)
            (carriedProofs verifier bundle).inclusions value (checkpointContext verifier bundle)
              candidate = .ok result ∧
          result.verdict = .valid := by
      intro checkpoint hcheckpoint
      obtain ⟨candidate, hcandidate, hschema⟩ := List.mem_filterMap.mp hcheckpoint
      obtain ⟨result, hmem, hresult⟩ := exists_mem_of_mapM_eq_ok hresults hcandidate
      exact ⟨candidate, result, hschema, hresult, hall _ (List.mem_append_left _ hmem)⟩
    refine ⟨?_, ?_, hhistory.1, hhistory.2⟩
    · intro checkpoint hcheckpoint
      obtain ⟨candidate, result, hschema, hresult, hverdict⟩ := hcandidates checkpoint hcheckpoint
      exact (checkpoint_of_valid hschema hresult hverdict).1
    · intro checkpoint hcheckpoint
      obtain ⟨candidate, result, hschema, hresult, hverdict⟩ := hcandidates checkpoint hcheckpoint
      exact (checkpoint_of_valid hschema hresult hverdict).2

end History

section Sample

variable {configs : List (AuditRecorderServiceConfig SampleDouble)}
  {bundle : AuditReplayBundle SampleDouble}

/-- Nothing that the checkpoint of the other epoch covers is carried. -/
theorem coveredBy_bundleOf (hconfigs : configs ⊆ carriedConfigs) :
    coveredBy (carriedEntries (bundleVerifier bundle) (bundleOf configs)) otherCheckpoint.core =
      [] := by
  rw [carriedEntries_bundleOf hconfigs, coveredBy, List.filter_eq_nil_iff]
  intro entry hentry
  obtain ⟨config, hconfig, rfl⟩ := List.mem_map.mp hentry
  obtain rfl | rfl := mem_carriedConfigs (hconfigs hconfig)
  · exact Bool.false_ne_true
  · exact Bool.false_ne_true

variable (bundle)

/-- The checkpoint of the other epoch verifies. -/
theorem verifyCheckpointCandidate_other (hconfigs : configs ⊆ carriedConfigs)
    (inclusions : List JsString) : ∃ result,
    verifyCheckpointCandidate (bundleVerifier bundle).artifactVerifier
        (carriedEntries (bundleVerifier bundle) (bundleOf configs)) inclusions samplePolicyValue
          [otherCheckpoint.toJson] otherCheckpoint.toJson = .ok result ∧
      result.verdict = .valid := by
  have hcanonical := otherCheckpoint_canonical
  simp only [SignedAuditCheckpoint.toJson, isCanonical, membersCanonical, Bool.and_eq_true]
    at hcanonical
  obtain ⟨text, htext, -⟩ := plainContent_eq hcanonical.2.1.2
  have hboundaries : (bundleVerifier bundle).artifactVerifier.boundaries
      ([otherCheckpoint.toJson] ++ [otherCheckpoint.toJson]) [] =
        .ok [(otherCheckpoint.checkpointDigest, { otherCheckpoint.core with }),
          (otherCheckpoint.checkpointDigest, { otherCheckpoint.core with })] :=
    bind_eq_ok.mpr ⟨_, otherCheckpoint_digested,
      bind_eq_ok.mpr ⟨_, otherCheckpoint_digested, rfl⟩⟩
  have hchecked : (bundleVerifier bundle).artifactVerifier.checkSignedCheckpoint
      otherCheckpoint.toJson samplePolicyValue [otherCheckpoint.toJson] =
        .ok (.checked otherCheckpoint.core []) := by
    refine bind_eq_ok.mpr ⟨_, hboundaries, bind_eq_ok.mpr ⟨_, otherCheckpoint_digested,
      bind_eq_ok.mpr ⟨true, bind_eq_ok.mpr ⟨text, htext, rfl⟩, ?_⟩⟩⟩
    simp only [ne_eq, not_true_eq_false, decide_false]
    rfl
  have hsigned : (bundleVerifier bundle).artifactVerifier.verifySignedCheckpoint
      otherCheckpoint.toJson samplePolicyValue [otherCheckpoint.toJson] =
        .ok (reasoned .valid []) := bind_eq_ok.mpr ⟨_, hchecked, rfl⟩
  have hschema : (bundleVerifier bundle).artifactVerifier.schemas.signedAuditCheckpointSchema
      otherCheckpoint.toJson = some otherCheckpoint := rfl
  rw [verifyCheckpointCandidate, hschema]
  simp only [coveredBy_bundleOf hconfigs]
  exact ⟨_, bind_eq_ok.mpr ⟨_, hsigned, rfl⟩, rfl⟩

/-- The one checkpoint stands in for the one the selection lists. -/
theorem verifyCheckpointHistory_other (hconfigs : configs ⊆ carriedConfigs)
    (consistencies : List JsString) :
    (verifyCheckpointHistory [otherCheckpoint]
      (carriedEntries (bundleVerifier bundle) (bundleOf configs)) [otherSelection]
        consistencies).verdict = .valid := by
  have hgroup : groupBy (fun checkpoint : SignedAuditCheckpoint SampleDouble =>
      ledgerEpochKey checkpoint.core.toAuditLedgerRef) [otherCheckpoint] =
        [(ledgerEpochKey otherEpoch, [otherCheckpoint])] := rfl
  have hrollovers : (configs.map genesisOf).flatMap
      (rolloverReasons [otherCheckpoint] [otherSelection]) = [] := by
    rw [List.flatMap_eq_nil_iff]
    intro entry hentry
    obtain ⟨config, hconfig, rfl⟩ := List.mem_map.mp hentry
    obtain rfl | rfl := mem_carriedConfigs (hconfigs hconfig)
    · rfl
    · rfl
  have hlookup : List.lookup (ledgerEpochKey otherSelection.toAuditLedgerRef)
      [(ledgerEpochKey otherEpoch, [otherCheckpoint])] = some [otherCheckpoint] := rfl
  have hsizes : otherSelection.checkpointTreeSizes = [otherCheckpoint.core.treeSize] := rfl
  rw [carriedEntries_bundleOf hconfigs, verifyCheckpointHistory, hgroup]
  simp only [bySize, List.mergeSort_singleton, List.flatMap_cons, List.flatMap_nil, hlookup,
    hsizes, hrollovers, Option.getD_some, List.map_cons, List.map_nil, groupReasons]
  rfl

theorem checkpointDimension_bundleOf (hconfigs : configs ⊆ carriedConfigs)
    (fallback : AuditVerificationDimension) : ∃ result,
    checkpointDimension (bundleVerifier bundle) (bundleOf configs) samplePolicyValue fallback =
        .ok result ∧ result.verdict = .valid := by
  obtain ⟨result, hresult, hvalid⟩ := verifyCheckpointCandidate_other bundle hconfigs
    (carriedProofs (bundleVerifier bundle) (bundleOf configs)).inclusions
  have hresults : (includedArrays (bundleOf configs) checkpointsMediaType).mapM
      (verifyCheckpointCandidate (bundleVerifier bundle).artifactVerifier
        (carriedEntries (bundleVerifier bundle) (bundleOf configs))
          (carriedProofs (bundleVerifier bundle) (bundleOf configs)).inclusions samplePolicyValue
          (checkpointContext (bundleVerifier bundle) (bundleOf configs))) = .ok [result] := by
    have hone : includedArrays (bundleOf configs) checkpointsMediaType =
      [otherCheckpoint.toJson] := rfl
    have hcontext : checkpointContext (bundleVerifier bundle) (bundleOf configs) =
      [otherCheckpoint.toJson] := rfl
    rw [hone, hcontext, List.mapM_cons, hresult]
    rfl
  refine ⟨_, bind_eq_ok.mpr ⟨_, hresults, rfl⟩, mergeAuditDimensions_eq_valid.mpr
    ⟨List.cons_ne_nil _ _, ?_⟩⟩
  intro value hvalue
  simp only [List.cons_append, List.nil_append, List.mem_cons, List.not_mem_nil, or_false] at hvalue
  obtain rfl | rfl | rfl := hvalue
  · exact hvalid
  · exact verifyCheckpointHistory_other bundle hconfigs _
  · rfl

end Sample

end KyaOs.Audit
