import KyaOs.Audit.Digests
import KyaOs.Audit.RecorderRuns

/-!
# Contracts of the recorder's functions

What each function of the recorder does, under any protocol whose requests are served as a
deployment serves them and whose reads disturb nobody. The claims about replicas instantiate
the protocol.
-/

namespace KyaOs.Audit

open Js Concurrency JsonValue

variable {D : Type}

/-- A decimal string of the schemas is shorter than 21 digits. -/
def maxSequence : Nat := 10 ^ 20

namespace Deployment

variable (dep : Deployment D)

/-- A core that the entry schema accepts: every field is of the kind it asks for. -/
structure Presentable (core : AuditEntryCore D) : Prop where
  schema : core.schema = auditEntrySchemaId
  suite : core.integritySuite = auditIntegritySuite
  replica : ∃ r, core.toAuditLedgerRef = (dep.configs r).toAuditLedgerRef ∧
    core.recorder = (dep.configs r).signer
  sequence : core.sequence < maxSequence
  time : dep.times core.recordedAt
  event : dep.runtime.auditProducerEventSchema core.event = true
  digests : ∀ digest ∈ core.eventDigest :: core.evidenceManifestDigest ::
    core.previousEntryDigest.toList, ∃ bytes, dep.runtime.sha256 bytes = .ok digest

/-- A deployment whose schemas accept what its configurations write. -/
structure Regular : Prop where
  prints : dep.runtime.numbers.Prints
  digests : ∀ bytes digest, dep.runtime.sha256 bytes = .ok digest →
    hasLoneSurrogate digest = false
  entrySchema : ∀ core, dep.Presentable core → dep.runtime.auditEntryCoreSchema core = true
  genesisSchema : ∀ r now, dep.times now →
    dep.runtime.auditProducerEventSchema (genesisEvent (dep.configs r) now) = true
  events : ∀ event, dep.runtime.auditProducerEventSchema event = true → event.WellFormed

/-- How requests are answered where every port does its work: nothing is rejected, the
predecessor is sealed, and a journal answers one of the heads asked of it. -/
def Working (heads : HeadUse → Option AuditHead → Prop) :
    (request : AuditRequest D) → Except AuditError request.Answer → Prop
  | .authorize .., answer => ∃ verdict, answer = .ok verdict
  | .hash .., answer => ∃ digest, answer = .ok digest
  | .sign .., answer => ∃ jws, answer = .ok jws
  | .getByIdempotencyKey .., answer => ∃ entry, answer = .ok entry
  | .getHead _ use, answer => ∃ head, answer = .ok head ∧ heads use head
  | .readFirst .., answer => ∃ entry, answer = .ok entry
  | .verifyAndSeal _, answer => answer = .ok true
  | .compareAndAppend .., answer => ∃ result, answer = .ok result ∧
      ∀ entry, result = .appended entry → entry.core.sequence + 1 < maxSequence
  | .initialized .., _ => True
  | .has .., _ => True
  | .putIfAbsent .., _ => True
  | .disposed .., _ => True

/-- A recorder that has committed nothing is not told `null` for the position of a producer
event. -/
def positionKnown (use : HeadUse) (head : Option AuditHead) : Prop :=
  use = .position false none → head ≠ none

abbrev Steady : (request : AuditRequest D) → Except AuditError request.Answer → Prop :=
  Working positionKnown

end Deployment

/-- The requests that a port doing its work always answers. -/
def AuditRequest.dependable : AuditRequest D → Bool
  | .initialized .. => false
  | .has .. => false
  | .putIfAbsent .. => false
  | .disposed .. => false
  | _ => true

theorem Deployment.Steady.ok {request : AuditRequest D} {answer : Except AuditError request.Answer}
    (h : Steady request answer) (hdependable : request.dependable = true) :
    ∃ value, answer = .ok value := by
  cases request with
  | getHead | compareAndAppend =>
      obtain ⟨value, hok, -⟩ := h
      exact ⟨value, hok⟩
  | initialized | has | putIfAbsent | disposed => cases hdependable
  | verifyAndSeal => exact ⟨true, h⟩
  | _ => exact h

namespace Deployment

variable (dep : Deployment D)

/-- A protocol for the calls of a deployment; where it is `calm`, ports do their work. -/
structure Hosts {γ : Type} (calm : Prop)
    (P : Protocol (recorderSetting D) (SubmitCall D) γ) : Prop where
  refl : ∀ c w, P.rely c w w
  trans : ∀ c w w' w'', P.rely c w w' → P.rely c w' w'' → P.rely c w w''
  served : ∀ c request s answer s', P.serves c request s answer s' →
    ∃ s'', dep.Serves request s answer s''
  observes : ∀ c request asked answer s', request.reads = true → P.inv asked →
    P.serves c request asked.1 answer s' →
    ∃ g', P.inv (s', g') ∧ P.guarantee c asked (s', g') ∧ P.rely c asked (s', g')
  steady : calm → ∀ c request s answer s', P.serves c request s answer s' →
    Steady request answer
  regular : calm → dep.Regular
  clock : ∀ w, P.inv w → ∀ r, dep.times (w.1.clock r)

end Deployment

section Contracts

variable {dep : Deployment D} {γ α : Type} {calm : Prop}
  {P : Protocol (recorderSetting D) (SubmitCall D) γ} {c : SubmitCall D}
  {pre : AuditWorld D × γ → Prop} {post : Except AuditError α → AuditWorld D × γ → Prop}

namespace Deployment.Hosts

variable (H : dep.Hosts calm P)
include H

theorem guarantee_refl (w : AuditWorld D × γ) : P.guarantee c w w :=
  fun other _ => H.refl other w

/-- A request that returned was not rejected. -/
theorem served_ok {request : AuditRequest D} {s s' : AuditWorld D} {answer : request.Answer}
    (h : P.serves c request s (.ok answer) s') : ∃ s'', dep.served request s (.ok answer) s'' := by
  obtain ⟨s'', hserved | ⟨_, _, _, herror⟩⟩ := H.served c request s _ s' h
  · exact ⟨s'', hserved⟩
  · cases herror

/-- Awaiting a request that changes nothing. -/
theorem observe {request : AuditRequest D} {next : request.Answer → RecorderM D α}
    (hreads : request.reads = true) (hstable : P.Stable c pre)
    (hnext : ∀ answer asked s', P.inv asked → pre asked →
      P.serves c request asked.1 (.ok answer) s' →
      P.Contract c (fun w => pre w ∧ P.rely c asked w) (next answer) post)
    (herror : ∀ e s s' w, P.serves c request s (.error e) s' → P.inv w → pre w →
      post (.error e) w) :
    P.Contract c pre (reply request >>= next) post := by
  apply Protocol.Contract.observe H.guarantee_refl (H.trans c) _ hstable hnext
  · intro e asked s' w _ _ hserves hw hpre _
    exact herror e asked.1 s' w hserves hw hpre
  · intro asked answer s' hasked hserves
    exact H.observes c request asked answer s' hreads hasked hserves

/-- Awaiting a request that changes nothing, whatever the answer. -/
theorem reads {request : AuditRequest D} (hreads : request.reads = true)
    (hstable : P.Stable c pre) : P.Contract c pre (reply request) fun _ w => pre w := by
  apply Protocol.Contract.ask _ H.guarantee_refl
  intro w asked hw hpre hasked hrely answer s' hserves
  have hpre' := hstable w asked hpre hw hasked hrely
  obtain ⟨g', hinv', hguarantee', hrely'⟩ :=
    H.observes c request asked answer s' hreads hasked hserves
  refine ⟨g', hinv', hguarantee', ?_⟩
  intro resumed hresumed hresumedRely
  exact hstable asked resumed hpre' hasked hresumed (H.trans c _ _ _ hrely' hresumedRely)

/-- Awaiting a request that changes nothing, of which only the answer matters. -/
theorem read {request : AuditRequest D} {next : request.Answer → RecorderM D α}
    (hreads : request.reads = true) (hdependable : request.dependable = true)
    (hstable : P.Stable c pre)
    (hnext : ∀ answer s s', dep.served request s (.ok answer) s' →
      (calm → Steady request (.ok answer)) → P.Contract c pre (next answer) post)
    (herror : ∀ e s s' w, dep.Serves request s (.error e) s' → ¬ calm → P.inv w → pre w →
      post (.error e) w) :
    P.Contract c pre (reply request >>= next) post := by
  apply H.observe hreads hstable
  · intro answer asked s' _ _ hserves
    obtain ⟨s'', hserved⟩ := H.served_ok hserves
    apply (hnext answer asked.1 s'' hserved fun hcalm => H.steady hcalm c _ _ _ _ hserves).mono_pre
    intro w _ hpre
    exact hpre.1
  · intro e s s' w hserves hw hpre
    obtain ⟨s'', hserved⟩ := H.served c request s _ s' hserves
    apply herror e s s'' w hserved _ hw hpre
    intro hcalm
    obtain ⟨_, hok⟩ := (H.steady hcalm c _ _ _ _ hserves).ok hdependable
    cases hok

end Deployment.Hosts

/-- The digests that identify an event, from the producer that submits it. -/
structure Deployment.Identifies (dep : Deployment D) (ledgerId producerAuthority : JsString)
    (event : AuditProducerEvent D) (identity : EventIdentity) : Prop where
  eventDigest : dep.digestOfEvent event = .ok identity.eventDigest
  idempotencyKey : dep.keyOfEvent ledgerId producerAuthority event = .ok identity.idempotencyKey

theorem orOther_eq_ok {result : Except Error α} {a : α} :
    orOther result = .ok a ↔ result = .ok a := by
  cases result <;> simp [orOther, Except.mapError]

theorem identifyEvent_contract (H : dep.Hosts calm P) (hstable : P.Stable c pre)
    (config : AuditRecorderServiceConfig D) (event : AuditProducerEvent D)
    (context : AuthenticatedAuditSubmissionContext D) :
    P.Contract c pre (identifyEvent config event context) fun result w => pre w ∧
      match result with
      | .ok identity => dep.Identifies config.ledgerId context.producerAuthority event identity
      | .error e => ¬ calm ∧ (dep.Rejected e ∨ ∀ identity,
          ¬ dep.Identifies config.ledgerId context.producerAuthority event identity) := by
  apply H.read rfl rfl hstable
  · intro eventDigest s s' hevent _
    apply H.read rfl rfl hstable
    · intro idempotencyKey t t' hkey _
      apply Protocol.Contract.pure
      intro w _ hpre
      exact ⟨hpre, orOther_eq_ok.mp hevent.2.symm, orOther_eq_ok.mp hkey.2.symm⟩
    · intro e s s' w hserves hcalm _ hpre
      refine ⟨hpre, hcalm, ?_⟩
      rcases hserves with ⟨-, hkey⟩ | ⟨-, hrejected⟩
      · refine .inr fun identity h => ?_
        have hok := orOther_eq_ok.mpr h.idempotencyKey
        exact absurd (hkey.trans hok) nofun
      · exact .inl (.of_serves hrejected)
  · intro e s s' w hserves hcalm _ hpre
    refine ⟨hpre, hcalm, ?_⟩
    rcases hserves with ⟨-, hevent⟩ | ⟨-, hrejected⟩
    · refine .inr fun identity h => ?_
      have hok := orOther_eq_ok.mpr h.eventDigest
      exact absurd (hevent.trans hok) nofun
    · exact .inl (.of_serves hrejected)

/-- An entry built on a head. -/
structure Deployment.Candidate (dep : Deployment D) (config : AuditRecorderServiceConfig D)
    (event : AuditProducerEvent D) (head : Option AuditHead) (entry : SignedAuditEntry D) :
    Prop where
  ledger : entry.core.toAuditLedgerRef = config.toAuditLedgerRef
  recorder : entry.core.recorder = config.signer
  event : entry.core.event = event
  attested : dep.Attested entry
  sequence : entry.core.sequence = nextSequence head
  previous : entry.core.previousEntryDigest = head.map (·.entryDigest)

/-- An entry built on the journal's head is appendable to it. -/
theorem Deployment.Candidate.appendable {r : Nat} {log : List (Commit D)} {key : Digest}
    {event : AuditProducerEvent D} {head : Option AuditHead} {entry : SignedAuditEntry D}
    (h : dep.Candidate (dep.configs r) event head entry)
    (hfresh : lookup log (idempotencyKey (dep.ledger r).ledgerId key) = none)
    (hhead : head = (replay log).getHead (dep.ledger r)) :
    Appendable log ⟨dep.ledger r, key, entry⟩ := by
  refine ⟨hfresh, h.ledger, ?_⟩
  rw [getHead_replay] at hhead
  have hsequence := h.sequence
  have hprevious := h.previous
  rw [hhead] at hsequence hprevious
  simp only [Commit.ledgerKey, List.getLast?_map]
  cases hcommits : (commitsAt log (ledgerKey (dep.ledger r))).getLast? with
  | none =>
      rw [hcommits] at hsequence hprevious
      exact ⟨hsequence, hprevious⟩
  | some last =>
      rw [hcommits] at hsequence hprevious
      exact ⟨hsequence, hprevious⟩

/-- What makes a core of an event on a head one the schema accepts. -/
structure Deployment.Fitting (dep : Deployment D) (event : AuditProducerEvent D)
    (head : Option AuditHead) : Prop where
  schema : dep.runtime.auditProducerEventSchema event = true
  sequence : ∀ known ∈ head, known.sequence + 1 < maxSequence
  digest : ∀ known ∈ head, ∃ bytes, dep.runtime.sha256 bytes = .ok known.entryDigest

theorem parseAuditProducerEvent_eq_ok {runtime : AuditRuntime D}
    {event parsed : AuditProducerEvent D} : parseAuditProducerEvent runtime event = .ok parsed ↔
      runtime.auditProducerEventSchema event = true ∧ parsed = event := by
  unfold parseAuditProducerEvent
  by_cases hschema : runtime.auditProducerEventSchema event = true
  · simp [hschema, eq_comm]
  · simp [hschema]

theorem parseAuditEntryCore_eq_ok {runtime : AuditRuntime D} {core parsed : AuditEntryCore D} :
    parseAuditEntryCore runtime core = .ok parsed ↔
      runtime.auditEntryCoreSchema core = true ∧ parsed = core := by
  unfold parseAuditEntryCore
  by_cases hschema : runtime.auditEntryCoreSchema core = true
  · simp [hschema, eq_comm]
  · simp [hschema]

theorem validateExistingGenesis_eq_ok {runtime : AuditRuntime D}
    {config : AuditRecorderServiceConfig D} {entry valid : SignedAuditEntry D} :
    validateExistingGenesis runtime config entry = .ok valid ↔
      (runtime.signedAuditEntrySchema entry = true ∧
        isOwnGenesis runtime config entry = .ok true) ∧ valid = entry := by
  unfold validateExistingGenesis
  by_cases hvalid : runtime.signedAuditEntrySchema entry = true ∧
      isOwnGenesis runtime config entry = .ok true
  · simp [hvalid, eq_comm]
  · simp [hvalid, auditFailure]

/-- In a regular deployment the receipt of a hashed core is canonical. -/
theorem Deployment.Regular.receipt (hregular : dep.Regular) {core : AuditEntryCore D}
    {entryDigest : Digest} (hevent : core.event.WellFormed)
    (hentry : digestAuditEntry dep.runtime.numbers dep.runtime.sha256 core = .ok entryDigest) :
    ∃ text, orOther (canonicalizeJson dep.runtime.numbers
      (buildAuditRecorderReceiptCore core entryDigest).toJson) = .ok text := by
  obtain ⟨text, htext, hdigest⟩ := hashAuditValue_eq_ok.mp hentry
  have hcore := (canonicalizeJson_eq_ok hregular.prints (wellFormed_core hevent)).mp ⟨text, htext⟩
  obtain ⟨receipt, hreceipt⟩ :=
    (canonicalizeJson_eq_ok hregular.prints (wellFormed_receiptCore _)).mpr
      (supported_receiptCore hcore (hregular.digests _ _ hdigest))
  exact ⟨receipt, orOther_eq_ok.mpr hreceipt⟩

theorem buildCandidate_contract (H : dep.Hosts calm P) (hstable : P.Stable c pre) (r : Nat)
    {event : AuditProducerEvent D} {eventDigest : Digest}
    (hevent : dep.digestOfEvent event = .ok eventDigest) (head : Option AuditHead)
    (genesis : Bool) :
    P.Contract c pre (buildCandidate dep.runtime (dep.configs r) r event eventDigest head genesis)
      fun result w => pre w ∧
        match result with
        | .ok entry => dep.Candidate (dep.configs r) event head entry ∧
            genesis = decide (nextSequence head = 0)
        | .error _ => calm → dep.Fitting event head → genesis ≠ decide (nextSequence head = 0) := by
  unfold buildCandidate
  by_cases hgenesis : genesis ≠ decide (nextSequence head = 0)
  · rw [if_pos hgenesis]
    apply Protocol.Contract.ofExcept
    intro w _ hpre
    exact ⟨hpre, fun _ _ => hgenesis⟩
  rw [if_neg hgenesis]
  rw [ne_eq, Decidable.not_not] at hgenesis
  apply Protocol.Contract.state
  intro s
  have htimes : ∀ w, P.inv w → w.1 = s ∧ pre w → dep.times (s.clock r) := by
    rintro w hw ⟨rfl, -⟩
    exact H.clock w hw r
  apply Protocol.Contract.of_pre htimes
  intro htime
  apply Protocol.Contract.of_weaker pre _ fun _ _ h => h.2
  apply H.read rfl rfl hstable
  · intro evidenceManifestDigest t t' hmanifest _
    apply Protocol.Contract.check
    · intro core hcore
      apply H.read rfl rfl hstable
      · intro entryDigest u u' hentry _
        apply Protocol.Contract.check
        · intro payload _
          apply H.read rfl rfl hstable
          · intro jws _ _ _ _
            apply Protocol.Contract.pure
            intro w _ hpre
            obtain ⟨-, rfl⟩ := parseAuditEntryCore_eq_ok.mp hcore
            refine ⟨hpre, ⟨rfl, rfl, rfl, ⟨hevent, rfl, ?_⟩, rfl, rfl⟩, hgenesis⟩
            exact orOther_eq_ok.mp hentry.2.symm
          · intro e _ _ w _ hcalm _ hpre
            exact ⟨hpre, fun h => absurd h hcalm⟩
        · intro e w herror _ hpre
          refine ⟨hpre, fun hcalm hfitting => ?_⟩
          obtain ⟨-, rfl⟩ := parseAuditEntryCore_eq_ok.mp hcore
          obtain ⟨text, hok⟩ := (H.regular hcalm).receipt
            ((H.regular hcalm).events _ hfitting.schema) (orOther_eq_ok.mp hentry.2.symm)
          rw [hok] at herror
          cases herror
      · intro e _ _ w _ hcalm _ hpre
        exact ⟨hpre, fun h => absurd h hcalm⟩
    · intro e w herror _ hpre
      refine ⟨hpre, fun hcalm hfitting => ?_⟩
      have hmanifest' := hashAuditValue_eq_ok.mp (orOther_eq_ok.mp hmanifest.2.symm)
      have hevent' := hashAuditValue_eq_ok.mp hevent
      obtain ⟨_, -, hmanifest'⟩ := hmanifest'
      obtain ⟨_, -, hevent'⟩ := hevent'
      rw [parseAuditEntryCore_eq_ok.mpr ⟨(H.regular hcalm).entrySchema _ ?_, rfl⟩] at herror
      · cases herror
      refine ⟨rfl, rfl, ⟨r, rfl, rfl⟩, ?_, htime, hfitting.schema, ?_⟩
      · cases head with
        | none => exact Nat.pow_pos (by omega : 0 < 10)
        | some known => exact hfitting.sequence known rfl
      · intro digest hdigest
        simp only [List.mem_cons, Option.mem_toList, Option.map_eq_some_iff] at hdigest
        rcases hdigest with rfl | rfl | ⟨known, hknown, rfl⟩
        · exact ⟨_, hevent'⟩
        · exact ⟨_, hmanifest'⟩
        · exact hfitting.digest known hknown
  · intro e _ _ w _ hcalm _ hpre
    exact ⟨hpre, fun h => absurd h hcalm⟩

theorem sealPredecessor_contract (H : dep.Hosts calm P) (hstable : P.Stable c pre)
    (config : AuditRecorderServiceConfig D) (r : Nat) :
    P.Contract c pre (sealPredecessor config r) fun result w => pre w ∧
      match result with
      | .ok _ => True
      | .error _ => ¬ calm := by
  unfold sealPredecessor
  cases config.previousEpoch with
  | none =>
      apply Protocol.Contract.pure
      intro w _ hpre
      exact ⟨hpre, trivial⟩
  | some _ =>
      apply H.read rfl rfl hstable
      · intro verdict s s' _ hsteady
        cases verdict with
        | true =>
            apply Protocol.Contract.pure
            intro w _ hpre
            exact ⟨hpre, trivial⟩
        | false =>
            apply Protocol.Contract.ofExcept
            intro w _ hpre
            refine ⟨hpre, fun hcalm => ?_⟩
            cases hsteady hcalm
      · intro e _ _ w _ hcalm _ hpre
        exact ⟨hpre, hcalm⟩

end Contracts

end KyaOs.Audit
