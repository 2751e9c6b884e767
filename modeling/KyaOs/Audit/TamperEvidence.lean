import KyaOs.Audit.RecorderSolo
import KyaOs.Audit.Verifier

/-!
# Tamper evidence of the audit chain

Entries reported valid carry the digests of their own cores and are linked in order, so
under an injective hasher the last digest commits to all of them.
-/

namespace KyaOs.Audit

open Js JsonValue HashChain

variable {D : Type} {verifier : AuditArtifactVerifier D}

/-- `b` comes right after `a` in the same ledger epoch. -/
def Succeeds (a b : SignedAuditEntry D) : Prop :=
  entryLinks.Follows a b ∧ b.core.toAuditLedgerRef = a.core.toAuditLedgerRef

/-- What the verifier found of an entry it holds nothing against. -/
structure EntryVerified (verifier : AuditArtifactVerifier D) (policy : AuditVerificationPolicy D)
    (entry : SignedAuditEntry D) : Prop where
  event : digestAuditEvent verifier.numbers verifier.sha256 entry.core.event =
    .ok entry.core.eventDigest
  manifest : digestAuditEvidenceManifest verifier.numbers verifier.sha256 entry.core.event =
    .ok entry.core.evidenceManifestDigest
  digest : digestAuditEntry verifier.numbers verifier.sha256 entry.core = .ok entry.entryDigest
  trusted : ∃ epoch ∈ policy.trustedLedgerEpochs,
    epoch.toAuditLedgerRef = entry.core.toAuditLedgerRef

/-- What the verifier found of a list of candidates it holds nothing against. -/
structure EntriesVerified (verifier : AuditArtifactVerifier D)
    (policy : AuditVerificationPolicy D) (candidates : List (JsonValue D))
    (entries : List (SignedAuditEntry D)) : Prop where
  parsed : candidates.map verifier.schemas.signedAuditEntrySchema = entries.map some
  nonempty : entries ≠ []
  verified : ∀ entry ∈ entries, EntryVerified verifier policy entry
  chained : entries.IsChain Succeeds

/-- Without keys, nothing is trusted. -/
theorem recorderTrust_ne_outside {arithmetic : Arithmetic D} {policy : AuditVerificationPolicy D}
    {signer : SignerRef} {time : D} {ledger : AuditLedgerRef} {position : Nat}
    {boundaries : CheckpointBoundaries}
    (h : recorderTrust arithmetic policy signer time ledger position boundaries ≠ .outside) :
    ∃ epoch ∈ policy.trustedLedgerEpochs, epoch.toAuditLedgerRef = ledger := by
  rw [recorderTrust] at h
  split at h
  · rename_i epoch hepoch
    exact ⟨epoch, List.mem_of_find?_eq_some hepoch, by simpa using List.find?_some hepoch⟩
  · exact absurd rfl h

theorem entryVerified_of_nil {policy : AuditVerificationPolicy D}
    {boundaries : CheckpointBoundaries} {entry : SignedAuditEntry D}
    (h : verifier.verifyEntry entry policy boundaries = .ok []) :
    EntryVerified verifier policy entry := by
  obtain ⟨eventDigest, hevent, h⟩ := bind_eq_ok.mp h
  obtain ⟨manifestDigest, hmanifest, h⟩ := bind_eq_ok.mp h
  obtain ⟨entryDigest, hentry, h⟩ := bind_eq_ok.mp h
  obtain ⟨signed, -, h⟩ := bind_eq_ok.mp h
  have hreasons := Except.ok.inj h
  simp only [reasonsOf_cons, decide_eq_false_iff_not, not_or, not_not] at hreasons
  obtain ⟨-, -, houtside, -, hevents, hmanifests, hentries, -⟩ := hreasons
  exact ⟨hevents.1 ▸ hevent, hmanifests ▸ hmanifest, hentries ▸ hentry,
    recorderTrust_ne_outside houtside⟩

theorem succeeds_of_nil {entry previous : SignedAuditEntry D} {index : Nat}
    (h : verifyChainPosition entry (some previous) index = []) : Succeeds previous entry := by
  simp only [verifyChainPosition, reasonsOf_cons, decide_eq_false_iff_not, not_not] at h
  obtain ⟨hledger, hsequence, hprevious, -⟩ := h
  exact ⟨⟨hsequence, hprevious⟩, hledger⟩

/-- The loop over the candidates only adds reasons. -/
theorem findEntries_grows {policy : AuditVerificationPolicy D} {boundaries : CheckpointBoundaries}
    {candidates : List (JsonValue D)} {found found' : EntryFindings D}
    (h : verifier.findEntries policy boundaries candidates found = .ok found') :
    found.cryptoReasons <+: found'.cryptoReasons ∧ found.chainReasons <+: found'.chainReasons := by
  induction candidates generalizing found with
  | nil =>
      obtain rfl := Except.ok.inj h
      exact ⟨List.prefix_rfl, List.prefix_rfl⟩
  | cons candidate rest ih =>
      rw [AuditArtifactVerifier.findEntries] at h
      split at h
      · obtain ⟨hcrypto, hchain⟩ := ih h
        exact ⟨(List.prefix_append _ _).trans hcrypto, (List.prefix_append _ _).trans hchain⟩
      · obtain ⟨reasons, -, hrest⟩ := bind_eq_ok.mp h
        obtain ⟨hcrypto, hchain⟩ := ih hrest
        exact ⟨(List.prefix_append _ _).trans hcrypto, (List.prefix_append _ _).trans hchain⟩

/-- What the loop over the candidates holds nothing against. -/
theorem findEntries_spec {policy : AuditVerificationPolicy D} {boundaries : CheckpointBoundaries}
    {candidates : List (JsonValue D)} {found found' : EntryFindings D}
    (h : verifier.findEntries policy boundaries candidates found = .ok found')
    (hcrypto : found'.cryptoReasons = []) (hchain : found'.chainReasons = [])
    (hsofar : found.validatedEntries.IsChain Succeeds) :
    ∃ entries, candidates.map verifier.schemas.signedAuditEntrySchema = entries.map some ∧
      (∀ entry ∈ entries, EntryVerified verifier policy entry) ∧
      (found.validatedEntries ++ entries).IsChain Succeeds := by
  induction candidates generalizing found with
  | nil => exact ⟨[], rfl, by simp, by simpa using hsofar⟩
  | cons candidate rest ih =>
      rw [AuditArtifactVerifier.findEntries] at h
      split at h
      · have hreasons := (findEntries_grows h).1
        rw [hcrypto, List.prefix_nil, List.append_eq_nil_iff] at hreasons
        cases hreasons.2
      · rename_i entry hentry
        obtain ⟨reasons, hverified, hrest⟩ := bind_eq_ok.mp h
        obtain ⟨hcryptoRest, hchainRest⟩ := findEntries_grows hrest
        rw [hcrypto, List.prefix_nil, List.append_eq_nil_iff] at hcryptoRest
        rw [hchain, List.prefix_nil, List.append_eq_nil_iff] at hchainRest
        have hnext : (found.validatedEntries ++ [entry]).IsChain Succeeds := by
          refine hsofar.append (.singleton entry) ?_
          intro last hlast next hnext
          obtain rfl : entry = next := by simpa using hnext
          have hposition := hchainRest.2
          rw [Option.mem_def.mp hlast] at hposition
          exact succeeds_of_nil hposition
        obtain ⟨entries, hparsed, hall, hchained⟩ := ih hrest hnext
        refine ⟨entry :: entries, ?_, ?_, ?_⟩
        · rw [List.map_cons, hentry, hparsed, List.map_cons]
        · rw [List.forall_mem_cons]
          exact ⟨entryVerified_of_nil (hcryptoRest.2 ▸ hverified), hall⟩
        · simpa using hchained

/-- A required profile only takes verdicts away. -/
theorem valid_of_required {report : AuditVerificationReport D} {policy : AuditVerificationPolicy D}
    {supportingAnchors : Bool} :
    ((applyRequiredAuditProfile report policy supportingAnchors).cryptographicIntegrity.verdict =
        .valid → report.cryptographicIntegrity.verdict = .valid) ∧
      ((applyRequiredAuditProfile report policy supportingAnchors).chainIntegrity.verdict =
        .valid → report.chainIntegrity.verdict = .valid) ∧
      ((applyRequiredAuditProfile report policy supportingAnchors).checkpointIntegrity.verdict =
        .valid → report.checkpointIntegrity.verdict = .valid) ∧
      (applyRequiredAuditProfile report policy supportingAnchors).scopeEvidenceCompleteness =
        report.scopeEvidenceCompleteness := by
  have hrequire : ∀ value met, (requireValid value met).verdict = .valid →
      value.verdict = .valid := by
    intro value met h
    rw [requireValid] at h
    split at h
    · cases h
    · exact h
  rw [applyRequiredAuditProfile]
  split
  · exact ⟨id, id, id, rfl⟩
  · refine ⟨?_, ?_, ?_, rfl⟩
    · dsimp only
      split
      · exact hrequire _ _
      · exact id
    · dsimp only
      split
      · exact hrequire _ _
      · exact id
    · dsimp only
      split
      · exact hrequire _ _
      · exact id

/-- What a report of valid entries says. -/
theorem entriesVerified_of_valid {candidates checkpoints : List (JsonValue D)}
    {policy : JsonValue D} {report : AuditVerificationReport D}
    (h : verifier.verifyEntries candidates policy checkpoints = .ok report)
    (hcrypto : report.cryptographicIntegrity.verdict = .valid)
    (hchain : report.chainIntegrity.verdict = .valid) :
    ∃ parsed entries, verifier.schemas.auditVerificationPolicySchema policy = some parsed ∧
      EntriesVerified verifier parsed candidates entries := by
  rw [AuditArtifactVerifier.verifyEntries] at h
  split at h
  · obtain rfl := Except.ok.inj h
    cases hcrypto
  · rename_i parsed hpolicy
    obtain ⟨boundaries, -, h⟩ := bind_eq_ok.mp h
    obtain ⟨found, hfound, h⟩ := bind_eq_ok.mp h
    obtain ⟨authorization, -, h⟩ := bind_eq_ok.mp h
    obtain rfl := Except.ok.inj h
    replace hcrypto := valid_of_required.1 hcrypto
    replace hchain := valid_of_required.2.1 hchain
    simp only [verdict_reasoned] at hcrypto hchain
    cases candidates with
    | nil => cases hcrypto
    | cons candidate rest =>
        simp only [List.isEmpty_cons, Bool.false_eq_true, if_false, verdictOf_eq_valid,
          not_false_eq_true, and_true, ite_eq_left_iff, reduceCtorEq, imp_false, not_not]
          at hcrypto hchain
        obtain ⟨entries, hparsed, hverified, hchained⟩ :=
          findEntries_spec hfound hcrypto hchain .nil
        refine ⟨parsed, entries, hpolicy, hparsed, ?_, hverified, hchained⟩
        rintro rfl
        cases hparsed

/-- Entries of one ledger epoch, at consecutive sequences. -/
def Consecutive (entries : List (SignedAuditEntry D)) : Prop :=
  ∃ (ledger : AuditLedgerRef) (first : Nat), ∀ i entry, entries[i]? = some entry →
    entry.core.toAuditLedgerRef = ledger ∧ entry.core.sequence = first + i

theorem consecutive_of_chained {entries : List (SignedAuditEntry D)}
    (h : entries.IsChain Succeeds) (hne : entries ≠ []) : Consecutive entries := by
  obtain ⟨first, rest, rfl⟩ := List.exists_cons_of_ne_nil hne
  refine ⟨first.core.toAuditLedgerRef, first.core.sequence, ?_⟩
  intro i entry hentry
  induction i generalizing entry with
  | zero =>
      obtain rfl := Option.some.inj hentry
      exact ⟨rfl, rfl⟩
  | succ i ih =>
      obtain ⟨hlt, hat⟩ := List.getElem?_eq_some_iff.mp hentry
      obtain ⟨hledger, hsequence⟩ := ih _ (List.getElem?_eq_getElem (Nat.lt_of_succ_lt hlt))
      have hstep := List.isChain_iff_getElem.mp h i hlt
      rw [hat] at hstep
      have hnext : entry.core.sequence = _ := hstep.1.1
      exact ⟨hstep.2.trans hledger, by rw [hnext]; exact congrArg (· + 1) hsequence⟩

/-- What two entries with one digest agree on. -/
structure SameEntry (numbers : Doubles D) (left right : SignedAuditEntry D) : Prop where
  core : Same numbers left.core.toJson right.core.toJson
  agrees : left.core.Agrees numbers right.core
  manifest : Same numbers (collectAuditEvidenceManifest left.core.event)
    (collectAuditEvidenceManifest right.core.event)

theorem sameEntry_of_digest (hprints : verifier.numbers.Prints)
    (hinjective : Injective verifier.sha256) {policy policy' : AuditVerificationPolicy D}
    {left right : SignedAuditEntry D} (hleft : EntryVerified verifier policy left)
    (hright : EntryVerified verifier policy' right) (hevent : left.core.event.WellFormed)
    (hevent' : right.core.event.WellFormed) (hdigest : left.entryDigest = right.entryDigest) :
    SameEntry verifier.numbers left right := by
  have hcore := same_of_hashAuditValue hprints hinjective (wellFormed_core hevent)
    (wellFormed_core hevent') hleft.digest (hdigest ▸ hright.digest)
  have hagrees := AuditEntryCore.agrees_of_same hcore
  exact ⟨hcore, hagrees, same_of_hashAuditValue hprints hinjective
    (wellFormed_evidenceManifest hevent) (wellFormed_evidenceManifest hevent') hleft.manifest
    (hagrees.evidenceManifestDigest ▸ hright.manifest)⟩

theorem EntriesVerified.getLast? {policy : AuditVerificationPolicy D}
    {candidates : List (JsonValue D)} {entries : List (SignedAuditEntry D)}
    (h : EntriesVerified verifier policy candidates entries) :
    candidates.getLast?.bind verifier.schemas.signedAuditEntrySchema = entries.getLast? := by
  have hlast := congrArg List.getLast? h.parsed
  rw [List.getLast?_map, List.getLast?_map] at hlast
  cases hc : candidates.getLast? with
  | none =>
      rw [hc] at hlast
      simpa [eq_comm] using hlast
  | some candidate =>
      rw [hc] at hlast
      cases he : entries.getLast? with
      | none => rw [he] at hlast; cases hlast
      | some entry =>
          rw [he] at hlast
          exact Option.some.inj hlast

theorem EntriesVerified.wellFormed {policy : AuditVerificationPolicy D}
    {candidates : List (JsonValue D)} {entries : List (SignedAuditEntry D)}
    (h : EntriesVerified verifier policy candidates entries)
    (hschema : ∀ candidate entry,
      verifier.schemas.signedAuditEntrySchema candidate = some entry →
        entry.core.event.WellFormed) :
    ∀ entry ∈ entries, entry.core.event.WellFormed := by
  intro entry hentry
  have hmem : some entry ∈ candidates.map verifier.schemas.signedAuditEntrySchema :=
    h.parsed ▸ List.mem_map_of_mem hentry
  obtain ⟨candidate, -, hcandidate⟩ := List.mem_map.mp hmem
  exact hschema candidate entry hcandidate

/-- Two lists of entries reported valid, of one length and with one last digest, have the
same cores one by one, and are of one ledger epoch at consecutive sequences. -/
theorem verifyEntries_tamper_evident (hprints : verifier.numbers.Prints)
    (hinjective : Injective verifier.sha256)
    (hschema : ∀ candidate entry,
      verifier.schemas.signedAuditEntrySchema candidate = some entry →
        entry.core.event.WellFormed)
    {policy policy' : JsonValue D} {context context' left right : List (JsonValue D)}
    {report report' : AuditVerificationReport D}
    (hleft : verifier.verifyEntries left policy context = .ok report)
    (hright : verifier.verifyEntries right policy' context' = .ok report')
    (hcrypto : report.cryptographicIntegrity.verdict = .valid)
    (hchain : report.chainIntegrity.verdict = .valid)
    (hcrypto' : report'.cryptographicIntegrity.verdict = .valid)
    (hchain' : report'.chainIntegrity.verdict = .valid)
    (hlength : left.length = right.length)
    (hlast : (left.getLast?.bind verifier.schemas.signedAuditEntrySchema).map
        SignedAuditEntry.entryDigest =
      (right.getLast?.bind verifier.schemas.signedAuditEntrySchema).map
        SignedAuditEntry.entryDigest) :
    ∃ entries entries',
      left.map verifier.schemas.signedAuditEntrySchema = entries.map some ∧
      right.map verifier.schemas.signedAuditEntrySchema = entries'.map some ∧
      List.Forall₂ (SameEntry verifier.numbers) entries entries' ∧
      Consecutive entries ∧ Consecutive entries' := by
  obtain ⟨_, entries, -, hentries⟩ := entriesVerified_of_valid hleft hcrypto hchain
  obtain ⟨_, entries', -, hentries'⟩ := entriesVerified_of_valid hright hcrypto' hchain'
  have hwellFormed := hentries.wellFormed hschema
  have hwellFormed' := hentries'.wellFormed hschema
  refine ⟨entries, entries', hentries.parsed, hentries'.parsed, ?_,
    consecutive_of_chained hentries.chained hentries.nonempty,
    consecutive_of_chained hentries'.chained hentries'.nonempty⟩
  refine entryLinks.forall₂_of_digest_eq (hentries.chained.imp fun _ _ h => h.1)
    (hentries'.chained.imp fun _ _ h => h.1) ?_ ?_ ?_ ?_
  · intro a ha b hb hdigest
    exact sameEntry_of_digest hprints hinjective (hentries.verified a ha)
      (hentries'.verified b hb) (hwellFormed a ha) (hwellFormed' b hb) hdigest
  · intro a b hsame
    exact hsame.agrees.previousEntryDigest
  · have hparsed := congrArg List.length hentries.parsed
    have hparsed' := congrArg List.length hentries'.parsed
    simp only [List.length_map] at hparsed hparsed'
    omega
  · rw [← hentries.getLast?, ← hentries'.getLast?]
    exact hlast

/-- An entry as its recorder signs it, under a trusted key, is held nothing against. -/
theorem verifyEntry_eq_nil {policy : AuditVerificationPolicy D} {boundaries : CheckpointBoundaries}
    {entry : SignedAuditEntry D} {receipt : JsString}
    (hverified : EntryVerified verifier policy entry)
    (hevent : entry.eventDigest = entry.core.eventDigest)
    (hreceipt : entry.receiptCore = buildAuditRecorderReceiptCore entry.core entry.entryDigest)
    (htext : canonicalizeJson verifier.numbers entry.receiptCore.toJson = .ok receipt)
    (hsigned : verifier.verifySignature (encodeUtf8 receipt) entry.jws entry.core.recorder =
      .ok true)
    (htrust : recorderTrust verifier.arithmetic policy entry.core.recorder entry.core.recordedAt
      entry.core.toAuditLedgerRef (entry.core.sequence + 1) boundaries = .within)
    (hsuite : entry.core.integritySuite ∈ policy.acceptedIntegritySuites)
    (halg : entry.core.recorder.alg ∈ policy.acceptedAlgorithms) :
    verifier.verifyEntry entry policy boundaries = .ok [] := by
  have hjson : verifier.verifyJson entry.receiptCore.toJson entry.jws entry.core.recorder =
      .ok true := by
    rw [AuditArtifactVerifier.verifyJson, htext]
    exact hsigned
  have hexact : exactJson verifier.numbers entry.receiptCore.toJson entry.receiptCore.toJson =
      true := by
    rw [exactJson, htext]
    exact decide_eq_true rfl
  refine bind_eq_ok.mpr ⟨_, hverified.event, bind_eq_ok.mpr ⟨_, hverified.manifest,
    bind_eq_ok.mpr ⟨_, hverified.digest, bind_eq_ok.mpr ⟨_, hjson, congrArg Except.ok ?_⟩⟩⟩⟩
  rw [← hreceipt]
  simp [hexact, htrust, hsuite, halg, hevent]

/-- The sample's recorder key, trusted without bounds. -/
def trustedKey : HistoricalAuditKeyPolicy SampleDouble where
  signer := sampleConfig.signer
  validFrom := none
  validUntil := none
  validFromCheckpoint := none
  validUntilCheckpoint := none

/-- A ledger epoch for which the sample's recorder is trusted. -/
def trustedEpoch (ledger : AuditLedgerRef) : TrustedLedgerEpoch SampleDouble where
  toAuditLedgerRef := ledger
  recorderKeys := [trustedKey]
  validFromCheckpoint := none
  validUntilCheckpoint := none

def samplePolicy : AuditVerificationPolicy SampleDouble where
  policyId := js "policy"
  trustedLedgerEpochs := [trustedEpoch sampleConfig.toAuditLedgerRef]
  trustedObservers := []
  trustedSupportingAnchors := none
  authorizedExporters := []
  acceptedIntegritySuites := [auditIntegritySuite]
  acceptedAlgorithms := [.EdDSA]
  keyRevocationMode := .asObserved
  requiredCheckpointFreshnessMs := none
  requiredAuditProfile := none

/-- What names the sample's policy. -/
def samplePolicyValue : JsonValue SampleDouble :=
  .object [(js "policyId", .string samplePolicy.policyId)]

/-- A signed entry, as candidates carry it. -/
def SignedAuditEntry.toJson (entry : SignedAuditEntry D) : JsonValue D :=
  .object [(js "core", entry.core.toJson), (js "eventDigest", .string entry.eventDigest),
    (js "entryDigest", .string entry.entryDigest),
    (js "recorderReceipt", .object [(js "core", entry.receiptCore.toJson),
      (js "jws", .string entry.jws)])]

/-- As far as the samples compare times: all are the same. -/
def sampleArithmetic : Arithmetic SampleDouble where
  le _ _ := true
  lt _ _ := false
  add x _ := x
  sub x _ := x

/-- A verifier whose schemas read the sample's genesis as what it is. -/
def sampleArtifactVerifier : AuditArtifactVerifier SampleDouble where
  sha256 := sampleSha256
  verifySignature _ _ _ := .ok true
  numbers := sampleDoubles
  arithmetic := sampleArithmetic
  schemas := {
    auditVerificationPolicySchema := fun _ => some samplePolicy
    signedAuditEntrySchema := fun _ => some sampleGenesis.entry
    signedAuditCheckpointSchema := fun _ => none
    auditObservationReceiptSchema := fun _ => none }

/-- An entry of the small deployment is held nothing against. -/
theorem verifyEntry_sample {event : AuditProducerEvent SampleDouble} {head : Option AuditHead}
    (hevent : isCanonical sampleDoubles event = true)
    (hmanifest : isCanonical sampleDoubles (collectAuditEvidenceManifest event) = true)
    (hhead : ∀ known ∈ head, hasLoneSurrogate known.entryDigest = false)
    (boundaries : CheckpointBoundaries) :
    sampleArtifactVerifier.verifyEntry (sampleEntry event head) samplePolicy boundaries =
      .ok [] := by
  have hattested := sampleEntry_attested hevent (hasLoneSurrogate_decimalString _) hhead
  obtain ⟨hwellFormed, hsupported⟩ := canonical_of_isCanonical _ hmanifest
  obtain ⟨receipt, hreceipt⟩ := sampleDeployment_regular.receipt
    (canonical_of_isCanonical _ hevent).1 hattested.entry
  refine verifyEntry_eq_nil ⟨hattested.event, sampleDigest_eq hwellFormed hsupported,
    hattested.entry, _, List.mem_singleton_self _, rfl⟩ rfl rfl (orOther_eq_ok.mp hreceipt) rfl
    ?_ ?_ ?_
  · rfl
  · exact List.mem_singleton_self _
  · exact List.mem_singleton_self _

theorem verifyEntry_genesis (boundaries : CheckpointBoundaries) :
    sampleArtifactVerifier.verifyEntry sampleGenesis.entry samplePolicy boundaries = .ok [] :=
  verifyEntry_sample canonical_genesis (by decide +kernel) (by simp) boundaries

/-- The entry after its predecessor. -/
theorem verifyChainPosition_linked {entry previous : SignedAuditEntry D} {index : Nat}
    (hledger : entry.core.toAuditLedgerRef = previous.core.toAuditLedgerRef)
    (hsequence : entry.core.sequence = previous.core.sequence + 1)
    (hprevious : entry.core.previousEntryDigest = some previous.entryDigest) :
    verifyChainPosition entry (some previous) index = [] := by
  simp [verifyChainPosition, reasonsOf, hledger, hsequence, hprevious]

/-- The schema reads the entries of the small deployment's first two events. -/
def entrySchema (candidate : JsonValue SampleDouble) : Option (SignedAuditEntry SampleDouble) :=
  let event := (memberAt candidate ["core", "event"]).getD .null
  let head :=
    if textAt candidate ["core", "sequence"] = js "0" then none else some sampleGenesis.head
  if isCanonical sampleDoubles event then some (sampleEntry event head) else none

def linkedVerifier : AuditArtifactVerifier SampleDouble :=
  { sampleArtifactVerifier with
    schemas := { sampleArtifactVerifier.schemas with signedAuditEntrySchema := entrySchema } }

theorem entrySchema_wellFormed {candidate : JsonValue SampleDouble}
    {entry : SignedAuditEntry SampleDouble} (h : entrySchema candidate = some entry) :
    entry.core.event.WellFormed := by
  unfold entrySchema at h
  dsimp only at h
  split at h
  · rename_i hcanonical
    cases h
    exact (canonical_of_isCanonical _ hcanonical).1
  · cases h

theorem entrySchema_genesis :
    entrySchema sampleGenesis.entry.toJson = some sampleGenesis.entry := by
  have hsequence : textAt sampleGenesis.entry.toJson ["core", "sequence"] = js "0" := by
    decide +kernel
  unfold entrySchema
  rw [hsequence, if_pos rfl]
  exact if_pos canonical_genesis

theorem entrySchema_linked {event : AuditProducerEvent SampleDouble}
    (hevent : isCanonical sampleDoubles event = true) :
    entrySchema (sampleEntry event (some sampleGenesis.head)).toJson =
      some (sampleEntry event (some sampleGenesis.head)) := by
  have hsequence : textAt (sampleEntry event (some sampleGenesis.head)).toJson
      ["core", "sequence"] = decimalString 1 := rfl
  unfold entrySchema
  rw [hsequence, if_neg (show decimalString 1 ≠ js "0" by decide +kernel)]
  exact if_pos hevent

/-- An entry on its own, held nothing against, is valid. -/
theorem verifyEntries_one {candidate : JsonValue SampleDouble}
    {entry : SignedAuditEntry SampleDouble} (hread : entrySchema candidate = some entry)
    (hverified : sampleArtifactVerifier.verifyEntry entry samplePolicy [] = .ok []) :
    ∃ report, linkedVerifier.verifyEntries [candidate] samplePolicyValue [] = .ok report ∧
      report.cryptographicIntegrity.verdict = .valid := by
  have hverified : linkedVerifier.verifyEntry entry samplePolicy [] = .ok [] := hverified
  have hread : linkedVerifier.schemas.signedAuditEntrySchema candidate = some entry := hread
  have hfound : linkedVerifier.findEntries samplePolicy [] [candidate]
      { cryptoReasons := [], chainReasons := [] } =
      .ok ⟨[], verifyChainPosition entry none 0, [entry]⟩ := by
    rw [AuditArtifactVerifier.findEntries, hread]
    exact bind_eq_ok.mpr ⟨[], hverified, rfl⟩
  exact ⟨_, bind_eq_ok.mpr ⟨[], rfl, bind_eq_ok.mpr ⟨_, hfound, rfl⟩⟩, rfl⟩

/-- A genesis and an entry linked to it are valid. -/
theorem verifyEntries_linked {event : AuditProducerEvent SampleDouble}
    (hevent : isCanonical sampleDoubles event = true)
    (hmanifest : isCanonical sampleDoubles (collectAuditEvidenceManifest event) = true) :
    ∃ report, linkedVerifier.verifyEntries [sampleGenesis.entry.toJson,
        (sampleEntry event (some sampleGenesis.head)).toJson] samplePolicyValue [] = .ok report ∧
      report.cryptographicIntegrity.verdict = .valid ∧ report.chainIntegrity.verdict = .valid := by
  have hhead : ∀ known ∈ some sampleGenesis.head, hasLoneSurrogate known.entryDigest = false := by
    rintro _ ⟨⟩
    exact hasLoneSurrogate_sampleDigest _ _
  have hgenesis : linkedVerifier.verifyEntry sampleGenesis.entry samplePolicy [] = .ok [] :=
    verifyEntry_genesis []
  have hlinked : linkedVerifier.verifyEntry (sampleEntry event (some sampleGenesis.head))
      samplePolicy [] = .ok [] :=
    verifyEntry_sample hevent hmanifest hhead []
  have hfound : linkedVerifier.findEntries samplePolicy [] [sampleGenesis.entry.toJson,
      (sampleEntry event (some sampleGenesis.head)).toJson]
      { cryptoReasons := [], chainReasons := [] } =
      .ok ⟨[], [], [sampleGenesis.entry, sampleEntry event (some sampleGenesis.head)]⟩ := by
    have hfirst : linkedVerifier.schemas.signedAuditEntrySchema sampleGenesis.entry.toJson =
      some sampleGenesis.entry := entrySchema_genesis
    have hsecond : linkedVerifier.schemas.signedAuditEntrySchema
        (sampleEntry event (some sampleGenesis.head)).toJson =
      some (sampleEntry event (some sampleGenesis.head)) := entrySchema_linked hevent
    rw [AuditArtifactVerifier.findEntries, hfirst]
    refine bind_eq_ok.mpr ⟨[], hgenesis, ?_⟩
    rw [AuditArtifactVerifier.findEntries, hsecond]
    refine bind_eq_ok.mpr ⟨[], hlinked, ?_⟩
    have hposition : verifyChainPosition (sampleEntry event (some sampleGenesis.head))
        (some sampleGenesis.entry) 1 = [] := verifyChainPosition_linked rfl rfl rfl
    have hopened : verifyChainPosition sampleGenesis.entry none 0 = [] := rfl
    simp [AuditArtifactVerifier.findEntries, hposition, hopened]
  exact ⟨_, bind_eq_ok.mpr ⟨[], rfl, bind_eq_ok.mpr ⟨_, hfound, rfl⟩⟩, rfl, rfl⟩

/-- The first event with its members in another order. -/
def reorderedEvent : AuditProducerEvent SampleDouble :=
  .object [(js "evidence", .array []),
    (js "source", .object [(js "producer", sampleParty (js "did:web:producer")),
      (js "sourceId", .string (js "agent"))]),
    (js "tenantRef", sampleParty (js "did:web:tenant")), (js "eventId", .string (js "first"))]

theorem canonical_reordered : isCanonical sampleDoubles reorderedEvent = true := by
  decide +kernel

theorem reordered_first : Reordered (sampleEvent (js "first") []) reorderedEvent :=
  .members (List.reverse_perm _).symm

theorem sampleDigest_reordered {domain : AuditDigestDomain} {v w : JsonValue SampleDouble}
    (h : Reordered v w) (hv : v.WellFormed) : sampleDigest domain v = sampleDigest domain w := by
  rw [sampleDigest, sampleDigest, hashAuditValue_reordered h hv]

/-- Both presentations are of one digest. -/
theorem reordered_digest : (sampleCommit (js "first")).entry.entryDigest =
    (sampleEntry reorderedEvent (some sampleGenesis.head)).entryDigest := by
  have hwellFormed := (canonical_of_isCanonical _ sampleFresh_first.event).1
  have hevent : sampleDigest .event (sampleEvent (js "first") []) =
      sampleDigest .event reorderedEvent :=
    sampleDigest_reordered reordered_first hwellFormed
  have hcore : Reordered (sampleCommit (js "first")).entry.core.toJson
      (sampleEntry reorderedEvent (some sampleGenesis.head)).core.toJson := by
    unfold sampleCommit sampleEntry candidateCore
    rw [← hevent]
    exact .member [_, _, _, _, _, _, _, _] [_, _] (js "event") reordered_first
  exact sampleDigest_reordered hcore (wellFormed_core hwellFormed)

/-- Two linked entries, and the same with the members of the second's event in another order. -/
theorem verifyEntries_tamper_evident_reordered : ∃ entries entries',
    [sampleGenesis.entry.toJson, (sampleCommit (js "first")).entry.toJson].map
        linkedVerifier.schemas.signedAuditEntrySchema = entries.map some ∧
      [sampleGenesis.entry.toJson,
          (sampleEntry reorderedEvent (some sampleGenesis.head)).toJson].map
        linkedVerifier.schemas.signedAuditEntrySchema = entries'.map some ∧
      List.Forall₂ (SameEntry sampleDoubles) entries entries' ∧
      Consecutive entries ∧ Consecutive entries' := by
  obtain ⟨report, hreport, hcrypto, hchain⟩ :=
    verifyEntries_linked sampleFresh_first.event sampleFresh_first.manifest
  obtain ⟨report', hreport', hcrypto', hchain'⟩ :=
    verifyEntries_linked canonical_reordered (by decide +kernel)
  refine verifyEntries_tamper_evident sampleDoubles_prints sampleSha256_injective
    (fun _ _ => entrySchema_wellFormed) hreport hreport' hcrypto hchain hcrypto' hchain' rfl ?_
  have hfirst : linkedVerifier.schemas.signedAuditEntrySchema
      (sampleCommit (js "first")).entry.toJson = some (sampleCommit (js "first")).entry :=
    entrySchema_linked sampleFresh_first.event
  have hreordered : linkedVerifier.schemas.signedAuditEntrySchema
      (sampleEntry reorderedEvent (some sampleGenesis.head)).toJson = some _ :=
    entrySchema_linked canonical_reordered
  simp only [List.getLast?_cons_cons, List.getLast?_singleton, Option.bind_some, hfirst, hreordered,
    Option.map_some, reordered_digest]

end KyaOs.Audit
