import KyaOs.Audit.TamperEvidence

/-!
# Verdicts under more evidence

A boundary that is missing leaves the position of a key unresolved, and one more checkpoint
can only resolve it. What a verification of entries decided it decides again with more
checkpoints, unless one of them is accepted by the schema and has no canonical form: then it
throws.
-/

namespace KyaOs.Audit

open Js JsonValue

variable {D : Type}

/-- Nothing that `status` decides is decided another way. -/
def BoundStatus.RefinedBy (status refined : BoundStatus) : Prop :=
  status = .unresolved ∨ status = refined

theorem BoundStatus.RefinedBy.refl (status : BoundStatus) : status.RefinedBy status := .inr rfl

theorem strictest_refined {left left' right right' : BoundStatus} (hleft : left.RefinedBy left')
    (hright : right.RefinedBy right') :
    (strictest left right).RefinedBy (strictest left' right') := by
  obtain rfl | rfl := hleft
  · obtain rfl | rfl := hright
    · exact .inl rfl
    · cases right with
      | outside => exact .inr (by simp [strictest])
      | within | unresolved => exact .inl rfl
  · obtain rfl | rfl := hright
    · cases left with
      | outside => exact .inr (by simp [strictest])
      | within | unresolved => exact .inl rfl
    · exact .refl _

/-- The boundaries of more evidence: those there were stay as they were. -/
def Grows (boundaries boundaries' : CheckpointBoundaries) : Prop :=
  ∀ digest boundary, boundaries.lookup digest = some boundary →
    boundaries'.lookup digest = some boundary

section Grown

variable {boundaries boundaries' : CheckpointBoundaries} (hgrows : Grows boundaries boundaries')
  (arithmetic : Arithmetic D) (signer : SignerRef) (time : D) (ledger : AuditLedgerRef)
  (position : Nat)

include hgrows

theorem resolveBound_grown (bound : Option Digest) :
    resolveBound ledger boundaries bound = some none ∨
      resolveBound ledger boundaries bound = resolveBound ledger boundaries' bound := by
  cases bound with
  | none => exact .inr rfl
  | some digest =>
      cases hlookup : boundaries.lookup digest with
      | none => exact .inl (by simp [resolveBound, hlookup])
      | some boundary => exact .inr (by simp [resolveBound, hlookup, hgrows digest _ hlookup])

theorem positionWithin_grown (validFrom validUntil : Option Digest) :
    (positionWithin validFrom validUntil ledger position boundaries).RefinedBy
      (positionWithin validFrom validUntil ledger position boundaries') := by
  simp only [positionWithin]
  -- a bound that decides has a size, and that size stays
  obtain hlower | hlower := resolveBound_grown hgrows ledger validFrom
  · obtain hupper | hupper := resolveBound_grown hgrows ledger validUntil
    · exact .inl (by simp [hlower, hupper])
    · rw [hlower, ← hupper]
      by_cases hbeyond : ((resolveBound ledger boundaries validUntil).join.any
        fun size => size < position) = true
      · exact .inr (by simp [hbeyond])
      · exact .inl (by simp [hbeyond])
  · obtain hupper | hupper := resolveBound_grown hgrows ledger validUntil
    · rw [hupper, ← hlower]
      by_cases hbefore : ((resolveBound ledger boundaries validFrom).join.any
        fun size => position ≤ size) = true
      · exact .inr (by simp [hbefore])
      · exact .inl (by simp [hbefore])
    · rw [← hlower, ← hupper]
      exact .refl _

end Grown

/-- A loop that has found an unresolved key does not come out outside. -/
theorem keyTrustLoop_ne_outside (arithmetic : Arithmetic D) (signer : SignerRef) (time : D)
    (ledger : AuditLedgerRef) (position : Nat) (boundaries : CheckpointBoundaries)
    (epoch : BoundStatus) (keys : List (HistoricalAuditKeyPolicy D)) :
    keyTrustLoop arithmetic signer time ledger position boundaries epoch .unresolved keys ≠
      .outside := by
  induction keys with
  | nil => nofun
  | cons key keys ih =>
      simp only [keyTrustLoop]
      split
      · exact ih
      · split
        · rename_i hwithin
          rw [hwithin]
          nofun
        · rw [ite_eq_right_iff.mpr id]
          exact ih

theorem keyTrustLoop_grown {boundaries boundaries' : CheckpointBoundaries}
    (hgrows : Grows boundaries boundaries') (arithmetic : Arithmetic D) (signer : SignerRef)
    (time : D) (ledger : AuditLedgerRef) (position : Nat) {epoch epoch' best best' : BoundStatus}
    (hepoch : epoch.RefinedBy epoch') (hbest : best.RefinedBy best')
    (keys : List (HistoricalAuditKeyPolicy D)) :
    (keyTrustLoop arithmetic signer time ledger position boundaries epoch best keys).RefinedBy
      (keyTrustLoop arithmetic signer time ledger position boundaries' epoch' best' keys) := by
  induction keys generalizing best best' with
  | nil => exact hbest
  | cons key keys ih =>
      by_cases hskips : key.signer ≠ signer ∨
          ¬ validAt arithmetic key.validFrom key.validUntil time = true
      · simp only [keyTrustLoop, if_pos hskips]
        exact ih hbest
      · simp only [keyTrustLoop, if_neg hskips]
        have hstatus := strictest_refined hepoch (positionWithin_grown hgrows ledger position
          key.validFromCheckpoint key.validUntilCheckpoint)
        revert hstatus
        generalize strictest epoch _ = status
        generalize strictest epoch' _ = status'
        intro hstatus
        obtain rfl | rfl := hstatus
        · by_cases hwithin : status' = .within
          · rw [if_pos hwithin, hwithin]
            have hfound := keyTrustLoop_ne_outside arithmetic signer time ledger position
              boundaries epoch keys
            simp only [reduceCtorEq, if_false, if_true]
            cases hresult : keyTrustLoop arithmetic signer time ledger position boundaries epoch
                .unresolved keys with
            | within => exact .refl _
            | unresolved => exact .inl rfl
            | outside => exact absurd hresult hfound
          · rw [if_neg hwithin]
            exact ih (.inl rfl)
        · cases status with
          | within => exact .refl _
          | unresolved => exact ih (.refl _)
          | outside => exact ih hbest

/-- The trust of overlapping keys under the bounds of their epoch. -/
theorem keyTrust_grown {boundaries boundaries' : CheckpointBoundaries}
    (hgrows : Grows boundaries boundaries') (arithmetic : Arithmetic D)
    (policy : AuditVerificationPolicy D) (signer : SignerRef) (time : D) (ledger : AuditLedgerRef)
    (position : Nat) :
    (recorderTrust arithmetic policy signer time ledger position boundaries).RefinedBy
      (recorderTrust arithmetic policy signer time ledger position boundaries') := by
  rw [recorderTrust, recorderTrust]
  cases policy.trustedLedgerEpochs.find? fun epoch => epoch.toAuditLedgerRef = ledger with
  | none => exact .refl _
  | some epoch =>
      exact keyTrustLoop_grown hgrows arithmetic signer time ledger position
        (positionWithin_grown hgrows ledger position _ _) (.refl _) _

theorem mem_reasonsOf {checks : List (Bool × AuditReasonCode)} {reason : AuditReasonCode} :
    reason ∈ reasonsOf checks ↔ (true, reason) ∈ checks := by
  simp [reasonsOf]

theorem verdictOf_eq_invalid {reasons : List AuditReasonCode} :
    verdictOf reasons = .invalid ↔ ∃ reason ∈ reasons, isIndeterminate reason = false := by
  rw [verdictOf]
  split_ifs with hnone hall
  · simp [hnone]
  · simpa using hall
  · simpa using hall

/-- Reasons that decide decide the same of `reasons'`. -/
structure Stands (reasons reasons' : List AuditReasonCode) : Prop where
  valid : reasons = [] → reasons' = []
  invalid : (∃ reason ∈ reasons, isIndeterminate reason = false) →
    ∃ reason ∈ reasons', isIndeterminate reason = false

namespace Stands

variable {reasons reasons' more more' : List AuditReasonCode}

theorem refl (reasons : List AuditReasonCode) : Stands reasons reasons := ⟨id, id⟩

theorem append (h : Stands reasons reasons') (hmore : Stands more more') :
    Stands (reasons ++ more) (reasons' ++ more') where
  valid hnone := by
    obtain ⟨hreasons, hmore'⟩ := List.append_eq_nil_iff.mp hnone
    rw [h.valid hreasons, hmore.valid hmore', List.append_nil]
  invalid hfound := by
    obtain ⟨reason, hmem, hdecides⟩ := hfound
    obtain hleft | hright := List.mem_append.mp hmem
    · obtain ⟨reason', hmem', hdecides'⟩ := h.invalid ⟨reason, hleft, hdecides⟩
      exact ⟨reason', List.mem_append_left _ hmem', hdecides'⟩
    · obtain ⟨reason', hmem', hdecides'⟩ := hmore.invalid ⟨reason, hright, hdecides⟩
      exact ⟨reason', List.mem_append_right _ hmem', hdecides'⟩

theorem verdict (h : Stands reasons reasons') (hdecided : verdictOf reasons ≠ .indeterminate) :
    verdictOf reasons' = verdictOf reasons := by
  cases hverdict : verdictOf reasons with
  | valid => exact verdictOf_eq_valid.mpr (h.valid (verdictOf_eq_valid.mp hverdict))
  | invalid => exact verdictOf_eq_invalid.mpr (h.invalid (verdictOf_eq_invalid.mp hverdict))
  | indeterminate => exact absurd hverdict hdecided

theorem checks (front : List (Bool × AuditReasonCode))
    {checks checks' : List (Bool × AuditReasonCode)}
    (h : Stands (reasonsOf checks) (reasonsOf checks')) (back : List (Bool × AuditReasonCode)) :
    Stands (reasonsOf (front ++ (checks ++ back))) (reasonsOf (front ++ (checks' ++ back))) := by
  simp only [reasonsOf, List.filter_append, List.map_append]
  exact (refl _).append (h.append (refl _))

/-- A key whose position is resolved adds no reason but that it is outside. -/
theorem trust {status refined : BoundStatus} (h : status.RefinedBy refined) :
    Stands (reasonsOf [(status = .outside, .untrustedRecorder),
        (status = .unresolved, .keyBoundaryUnresolved)])
      (reasonsOf [(refined = .outside, .untrustedRecorder),
        (refined = .unresolved, .keyBoundaryUnresolved)]) := by
  obtain rfl | rfl := h
  · refine ⟨?_, ?_⟩
    · simp
    · rintro ⟨reason, hmem, hdecides⟩
      simp only [mem_reasonsOf, List.mem_cons, Prod.mk.injEq, List.not_mem_nil, or_false] at hmem
      obtain ⟨hoff, -⟩ | ⟨-, rfl⟩ := hmem
      · cases hoff
      · cases hdecides
  · exact refl _

end Stands

namespace AuditArtifactVerifier

variable {verifier : AuditArtifactVerifier D} {policy : AuditVerificationPolicy D}
  {boundaries boundaries' : CheckpointBoundaries}

theorem verifyEntry_grown (hgrows : Grows boundaries boundaries') {entry : SignedAuditEntry D}
    {reasons : List AuditReasonCode}
    (h : verifier.verifyEntry entry policy boundaries = .ok reasons) :
    ∃ reasons', verifier.verifyEntry entry policy boundaries' = .ok reasons' ∧
      Stands reasons reasons' := by
  obtain ⟨eventDigest, hevent, h⟩ := bind_eq_ok.mp h
  obtain ⟨evidenceDigest, hevidence, h⟩ := bind_eq_ok.mp h
  obtain ⟨entryDigest, hentry, h⟩ := bind_eq_ok.mp h
  obtain ⟨signed, hsigned, h⟩ := bind_eq_ok.mp h
  cases h
  refine ⟨_, bind_eq_ok.mpr ⟨eventDigest, hevent, bind_eq_ok.mpr ⟨evidenceDigest, hevidence,
    bind_eq_ok.mpr ⟨entryDigest, hentry, bind_eq_ok.mpr ⟨signed, hsigned, rfl⟩⟩⟩⟩, ?_⟩
  exact Stands.checks [_, _] (.trust (keyTrust_grown hgrows verifier.arithmetic policy
    entry.core.recorder entry.core.recordedAt entry.core.toAuditLedgerRef
    (entry.core.sequence + 1))) [_, _, _, _, _]

/-- What two verifications of one list find, the second with more evidence. -/
structure SameFindings (found found' : EntryFindings D) : Prop where
  crypto : Stands found.cryptoReasons found'.cryptoReasons
  chain : found.chainReasons = found'.chainReasons
  entries : found.validatedEntries = found'.validatedEntries

theorem findEntries_grown (hgrows : Grows boundaries boundaries')
    {candidates : List (JsonValue D)} {found found' final : EntryFindings D}
    (hsame : SameFindings found found')
    (h : verifier.findEntries policy boundaries candidates found = .ok final) :
    ∃ final', verifier.findEntries policy boundaries' candidates found' = .ok final' ∧
      SameFindings final final' := by
  induction candidates generalizing found found' with
  | nil =>
      cases h
      exact ⟨found', rfl, hsame⟩
  | cons candidate rest ih =>
      cases hparsed : verifier.schemas.signedAuditEntrySchema candidate with
      | none =>
          simp only [findEntries, hparsed] at h ⊢
          refine ih ?_ h
          exact ⟨hsame.crypto.append (.refl _), by rw [hsame.chain], hsame.entries⟩
      | some entry =>
          simp only [findEntries, hparsed] at h ⊢
          obtain ⟨reasons, hreasons, h⟩ := bind_eq_ok.mp h
          obtain ⟨reasons', hreasons', hstands⟩ := verifyEntry_grown hgrows hreasons
          have hnext : SameFindings
              { cryptoReasons := found.cryptoReasons ++ reasons
                chainReasons := found.chainReasons ++ verifyChainPosition entry
                  found.validatedEntries.getLast? found.validatedEntries.length
                validatedEntries := found.validatedEntries ++ [entry] }
              { cryptoReasons := found'.cryptoReasons ++ reasons'
                chainReasons := found'.chainReasons ++ verifyChainPosition entry
                  found'.validatedEntries.getLast? found'.validatedEntries.length
                validatedEntries := found'.validatedEntries ++ [entry] } :=
            ⟨hsame.crypto.append hstands, by rw [hsame.chain, hsame.entries],
              by rw [hsame.entries]⟩
          obtain ⟨final', hfinal', hsame'⟩ := ih hnext h
          exact ⟨final', bind_eq_ok.mpr ⟨reasons', hreasons', hfinal'⟩, hsame'⟩

/-- The schema accepts the candidate as a checkpoint with this digest and boundary. -/
def Bounds (verifier : AuditArtifactVerifier D) (candidate : JsonValue D) (digest : Digest)
    (boundary : CheckpointBoundary) : Prop :=
  ∃ checkpoint, verifier.schemas.signedAuditCheckpointSchema candidate = some checkpoint ∧
    hashAuditValue verifier.numbers verifier.sha256 .checkpoint checkpoint.core.toJson =
      .ok digest ∧
    boundary = { checkpoint.core with }

/-- The candidate is no checkpoint, or one that `canonicalizeJson` takes: no lone surrogates
in its texts. -/
def Canonical (verifier : AuditArtifactVerifier D) (candidate : JsonValue D) : Prop :=
  ∀ checkpoint, verifier.schemas.signedAuditCheckpointSchema candidate = some checkpoint →
    checkpoint.core.toJson.Supported verifier.numbers

theorem mem_boundaries {candidates : List (JsonValue D)} {result final : CheckpointBoundaries}
    (h : verifier.boundaries candidates result = .ok final) (digest : Digest)
    (boundary : CheckpointBoundary) :
    (digest, boundary) ∈ final ↔
      (digest, boundary) ∈ result ∨
        ∃ candidate ∈ candidates, verifier.Bounds candidate digest boundary := by
  induction candidates generalizing result with
  | nil =>
      cases h
      simp
  | cons candidate rest ih =>
      simp only [List.exists_mem_cons_iff]
      cases hparsed : verifier.schemas.signedAuditCheckpointSchema candidate with
      | none =>
          simp only [AuditArtifactVerifier.boundaries, hparsed] at h
          rw [ih h]
          simp [Bounds, hparsed]
      | some checkpoint =>
          simp only [AuditArtifactVerifier.boundaries, hparsed] at h
          obtain ⟨own, hown, h⟩ := bind_eq_ok.mp h
          rw [ih h, List.mem_cons, or_comm (a := (digest, boundary) = _), or_assoc]
          refine or_congr_right (or_congr_left ?_)
          simp only [Bounds, hparsed, Option.some.injEq, exists_eq_left', hown, Except.ok.injEq,
            Prod.mk.injEq]
          exact and_congr_left fun _ => eq_comm

theorem boundaries_returns (hprints : verifier.numbers.Prints)
    (hhashes : ∀ bytes, ∃ digest, verifier.sha256 bytes = .ok digest)
    {candidates : List (JsonValue D)} {result : CheckpointBoundaries} :
    (∃ final, verifier.boundaries candidates result = .ok final) ↔
      ∀ candidate ∈ candidates, verifier.Canonical candidate := by
  induction candidates generalizing result with
  | nil => exact iff_of_true ⟨result, rfl⟩ nofun
  | cons candidate rest ih =>
      rw [List.forall_mem_cons]
      cases hparsed : verifier.schemas.signedAuditCheckpointSchema candidate with
      | none =>
          simp only [AuditArtifactVerifier.boundaries, hparsed]
          rw [ih]
          simp [Canonical, hparsed]
      | some checkpoint =>
          simp only [AuditArtifactVerifier.boundaries, hparsed]
          have hcanonical : verifier.Canonical candidate ↔ ∃ digest, hashAuditValue
              verifier.numbers verifier.sha256 .checkpoint checkpoint.core.toJson = .ok digest := by
            simp only [Canonical, hparsed, Option.some.injEq, forall_eq', hashAuditValue_eq_ok,
              ← canonicalizeJson_eq_ok hprints (wellFormed_checkpointCore checkpoint.core)]
            constructor
            · rintro ⟨text, htext⟩
              obtain ⟨digest, hdigest⟩ := hhashes _
              exact ⟨digest, text, htext, hdigest⟩
            · rintro ⟨-, text, htext, -⟩
              exact ⟨text, htext⟩
          rw [hcanonical]
          constructor
          · rintro ⟨final, h⟩
            obtain ⟨digest, hdigest, h⟩ := bind_eq_ok.mp h
            exact ⟨⟨digest, hdigest⟩, ih.mp ⟨final, h⟩⟩
          · rintro ⟨⟨digest, hdigest⟩, hrest⟩
            obtain ⟨final, h⟩ := ih.mpr hrest
            exact ⟨final, bind_eq_ok.mpr ⟨digest, hdigest, h⟩⟩

/-- A digest names one boundary. -/
theorem bounds_unique (hprints : verifier.numbers.Prints) (hinjective : Injective verifier.sha256)
    {candidate candidate' : JsonValue D} {digest : Digest} {boundary boundary' : CheckpointBoundary}
    (h : verifier.Bounds candidate digest boundary)
    (h' : verifier.Bounds candidate' digest boundary') : boundary = boundary' := by
  obtain ⟨checkpoint, -, hdigest, rfl⟩ := h
  obtain ⟨checkpoint', -, hdigest', rfl⟩ := h'
  have hagrees := AuditCheckpointCore.agrees_of_same (same_of_hashAuditValue hprints hinjective
    (wellFormed_checkpointCore _) (wellFormed_checkpointCore _) hdigest hdigest')
  rw [CheckpointBoundary.mk.injEq]
  exact ⟨hagrees.ledger, hagrees.treeSize⟩

theorem lookup_of_mem {boundaries : CheckpointBoundaries} {digest : Digest}
    {boundary : CheckpointBoundary} (h : (digest, boundary) ∈ boundaries)
    (hunique : ∀ other, (digest, other) ∈ boundaries → other = boundary) :
    boundaries.lookup digest = some boundary := by
  cases hlookup : boundaries.lookup digest with
  | none => exact absurd (List.lookup_eq_none_iff.mp hlookup _ h) (by simp)
  | some other =>
      obtain ⟨before, after, hlisted, -⟩ := List.lookup_eq_some_iff.mp hlookup
      rw [hunique other (by simp [hlisted])]

theorem boundaries_grow (hprints : verifier.numbers.Prints)
    (hinjective : Injective verifier.sha256) {first second : List (JsonValue D)}
    (hextends : first ⊆ second) (hfirst : verifier.boundaries first [] = .ok boundaries)
    (hsecond : verifier.boundaries second [] = .ok boundaries') : Grows boundaries boundaries' := by
  intro digest boundary hlookup
  obtain ⟨before, after, hlisted, -⟩ := List.lookup_eq_some_iff.mp hlookup
  have hmem : (digest, boundary) ∈ boundaries := by simp [hlisted]
  rw [mem_boundaries hfirst, or_iff_right List.not_mem_nil] at hmem
  obtain ⟨candidate, hcandidate, hbounds⟩ := hmem
  refine lookup_of_mem ((mem_boundaries hsecond _ _).mpr
    (.inr ⟨candidate, hextends hcandidate, hbounds⟩)) ?_
  intro other hother
  rw [mem_boundaries hsecond, or_iff_right List.not_mem_nil] at hother
  obtain ⟨candidate', -, hbounds'⟩ := hother
  exact bounds_unique hprints hinjective hbounds' hbounds

/-- The second verification reports what the first one decided exactly when every checkpoint
it is given has a canonical form. -/
theorem verifyEntries_grown (hprints : verifier.numbers.Prints)
    (hinjective : Injective verifier.sha256)
    (hhashes : ∀ bytes, ∃ digest, verifier.sha256 bytes = .ok digest)
    {first second : List (JsonValue D)} (hextends : first ⊆ second) {entries : List (JsonValue D)}
    {policy : JsonValue D} {report : AuditVerificationReport D}
    (hprofile : ∀ accepted, verifier.schemas.auditVerificationPolicySchema policy = some accepted →
      accepted.requiredAuditProfile = none)
    (hreport : verifier.verifyEntries entries policy first = .ok report)
    (hdecided : report.cryptographicIntegrity.verdict ≠ .indeterminate) :
    (∃ report', verifier.verifyEntries entries policy second = .ok report' ∧
        report'.cryptographicIntegrity.verdict = report.cryptographicIntegrity.verdict) ↔
      ((verifier.schemas.auditVerificationPolicySchema policy).isSome = true →
        ∀ candidate ∈ second, verifier.Canonical candidate) := by
  cases hparsed : verifier.schemas.auditVerificationPolicySchema policy with
  | none =>
      simp only [verifyEntries, hparsed] at hreport ⊢
      refine iff_of_true ⟨report, hreport, rfl⟩ fun hsome => ?_
      cases hsome
  | some accepted =>
      have hnone := hprofile accepted hparsed
      simp only [verifyEntries, hparsed, applyRequiredAuditProfile, hnone] at hreport ⊢
      obtain ⟨boundaries, hboundaries, hreport⟩ := bind_eq_ok.mp hreport
      obtain ⟨found, hfound, hreport⟩ := bind_eq_ok.mp hreport
      obtain ⟨dimensions, hdimensions, hreport⟩ := bind_eq_ok.mp hreport
      cases hreport
      simp only [Option.isSome_some, forall_const]
      rw [← boundaries_returns hprints hhashes]
      constructor
      · rintro ⟨report', hreport', -⟩
        obtain ⟨boundaries', hboundaries', -⟩ := bind_eq_ok.mp hreport'
        exact ⟨boundaries', hboundaries'⟩
      · rintro ⟨boundaries', hboundaries'⟩
        have hgrows := boundaries_grow hprints hinjective hextends hboundaries hboundaries'
        obtain ⟨found', hfound', hsame⟩ :=
          findEntries_grown hgrows ⟨.refl [], rfl, rfl⟩ hfound
        rw [hsame.entries] at hdimensions
        refine ⟨_, bind_eq_ok.mpr ⟨boundaries', hboundaries', bind_eq_ok.mpr ⟨found', hfound',
          bind_eq_ok.mpr ⟨dimensions, hdimensions, rfl⟩⟩⟩, ?_⟩
        simp only [verdict_reasoned] at hdecided ⊢
        split_ifs with hempty
        · rfl
        · rw [if_neg hempty] at hdecided
          exact hsame.crypto.verdict hdecided

end AuditArtifactVerifier

/-- `keyTrust` under the bounds of an epoch. -/
def boundedKeyTrust (arithmetic : Arithmetic D) (keys : List (HistoricalAuditKeyPolicy D))
    (signer : SignerRef) (time : D) (ledger : AuditLedgerRef) (position : Nat)
    (boundaries : CheckpointBoundaries) (validFrom validUntil : Option Digest) : BoundStatus :=
  keyTrustLoop arithmetic signer time ledger position boundaries
    (positionWithin validFrom validUntil ledger position boundaries) .outside keys

/-- What a verification decided stands with more checkpoints, as long as these have canonical
forms, and so does the position of a key. -/
theorem verdicts_stable {verifier : AuditArtifactVerifier D} (hprints : verifier.numbers.Prints)
    (hinjective : Injective verifier.sha256)
    (hhashes : ∀ bytes, ∃ digest, verifier.sha256 bytes = .ok digest)
    {first second : List (JsonValue D)} (hextends : first ⊆ second) :
    (∀ entries policy report,
      (∀ accepted, verifier.schemas.auditVerificationPolicySchema policy = some accepted →
        accepted.requiredAuditProfile = none) →
      verifier.verifyEntries entries policy first = .ok report →
      report.cryptographicIntegrity.verdict ≠ .indeterminate →
      ((∃ report', verifier.verifyEntries entries policy second = .ok report' ∧
          report'.cryptographicIntegrity.verdict = report.cryptographicIntegrity.verdict) ↔
        ((verifier.schemas.auditVerificationPolicySchema policy).isSome = true →
          ∀ candidate ∈ second, verifier.Canonical candidate))) ∧
    ∀ boundaries boundaries', verifier.boundaries first [] = .ok boundaries →
      verifier.boundaries second [] = .ok boundaries' →
      ∀ keys signer time ledger position validFrom validUntil,
        (boundedKeyTrust verifier.arithmetic keys signer time ledger position boundaries validFrom
            validUntil).RefinedBy
          (boundedKeyTrust verifier.arithmetic keys signer time ledger position boundaries'
            validFrom validUntil) := by
  constructor
  · intro entries policy report hprofile hreport hdecided
    exact AuditArtifactVerifier.verifyEntries_grown hprints hinjective hhashes hextends hprofile
      hreport hdecided
  · intro boundaries boundaries' hfirst hsecond keys signer time ledger position validFrom
      validUntil
    have hgrows := AuditArtifactVerifier.boundaries_grow hprints hinjective hextends hfirst hsecond
    exact keyTrustLoop_grown hgrows verifier.arithmetic signer time ledger position
      (positionWithin_grown hgrows ledger position validFrom validUntil) (.refl _) keys

def namedCheckpoint (checkpointId : JsString) : SignedAuditCheckpoint SampleDouble where
  core := {
    toAuditLedgerRef := sampleConfig.toAuditLedgerRef
    schema := js "checkpoint"
    checkpointId
    treeSize := 1
    firstSequence := 0
    lastSequence := 0
    rootDigest := js "root"
    headEntryDigest := js "head"
    previousCheckpointDigest := none
    createdAt := .zero
    issuer := sampleConfig.signer
    integritySuite := auditIntegritySuite }
  checkpointDigest := js "digest"
  jws := js "jws"

/-- The sample's verifier, with a schema that reads a text as the checkpoint of that name. -/
def contextVerifier : AuditArtifactVerifier SampleDouble :=
  { sampleArtifactVerifier with
    schemas := { sampleArtifactVerifier.schemas with
      signedAuditCheckpointSchema := fun candidate =>
        match candidate with
        | .string checkpointId => some (namedCheckpoint checkpointId)
        | _ => none } }

theorem verifyEntries_context : ∃ report,
    contextVerifier.verifyEntries [sampleGenesis.entry.toJson] samplePolicyValue [] = .ok report ∧
      report.cryptographicIntegrity.verdict = .valid := by
  have hfound : contextVerifier.findEntries samplePolicy [] [sampleGenesis.entry.toJson]
      { cryptoReasons := [], chainReasons := [] } = .ok ⟨[], [], [sampleGenesis.entry]⟩ :=
    bind_eq_ok.mpr ⟨[], verifyEntry_genesis [], rfl⟩
  exact ⟨_, bind_eq_ok.mpr ⟨[], rfl, bind_eq_ok.mpr ⟨_, hfound, rfl⟩⟩, rfl⟩

theorem sampleSha256_hashes (bytes : Bytes) : ∃ digest, sampleSha256 bytes = .ok digest :=
  ⟨_, rfl⟩

theorem verdicts_stable_sample : ∃ report,
    contextVerifier.verifyEntries [sampleGenesis.entry.toJson] samplePolicyValue
      [.string (js "c")] = .ok report ∧ report.cryptographicIntegrity.verdict = .valid := by
  obtain ⟨report, hreport, hvalid⟩ := verifyEntries_context
  have hcanonical : isCanonical sampleDoubles (namedCheckpoint (js "c")).core.toJson = true := by
    decide +kernel
  have hstable := (verdicts_stable (show contextVerifier.numbers.Prints from sampleDoubles_prints)
    sampleSha256_injective sampleSha256_hashes (List.nil_subset [.string (js "c")])).1
      [sampleGenesis.entry.toJson] samplePolicyValue report (by rintro accepted ⟨⟩; rfl) hreport
        (by rw [hvalid]; nofun)
  obtain ⟨report', hreport', hverdict⟩ := hstable.mpr (by
    rintro - candidate hcandidate
    obtain rfl := List.mem_singleton.mp hcandidate
    rintro checkpoint ⟨⟩
    exact (canonical_of_isCanonical _ hcanonical).2)
  exact ⟨report', hreport', hverdict.trans hvalid⟩

/-- A checkpoint whose name is a lone surrogate makes a valid list of entries unverifiable. -/
theorem verifyEntries_loneSurrogate : ∃ report,
    contextVerifier.verifyEntries [sampleGenesis.entry.toJson] samplePolicyValue [] = .ok report ∧
      report.cryptographicIntegrity.verdict = .valid ∧
      ∀ report', contextVerifier.verifyEntries [sampleGenesis.entry.toJson] samplePolicyValue
        [.string [0xD800]] ≠ .ok report' := by
  obtain ⟨report, hreport, hvalid⟩ := verifyEntries_context
  refine ⟨report, hreport, hvalid, ?_⟩
  intro report' hreport'
  obtain ⟨boundaries, hboundaries, -⟩ := bind_eq_ok.mp hreport'
  have hcanonical := (AuditArtifactVerifier.boundaries_returns
    (show contextVerifier.numbers.Prints from sampleDoubles_prints) sampleSha256_hashes).mp
      ⟨boundaries, hboundaries⟩ _ (List.mem_singleton_self _) _ rfl
  cases hcanonical with
  | object hnames hsupported =>
      have hname := hsupported (js "checkpointId", .string [0xD800]) (by simp [namedCheckpoint])
      cases hname with
      | string hlone => exact absurd hlone (by decide)

end KyaOs.Audit
