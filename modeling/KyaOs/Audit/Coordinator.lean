import KyaOs.Audit.ObserverRuns
import KyaOs.Audit.Recorder
import KyaOs.Audit.ReplayBundle
import KyaOs.Concurrency.History
import Mathlib.Data.List.FinRange

/-!
# Publication of checkpoints

`AuditCheckpointCoordinator.createAndPublish` from the signed checkpoint on. The observers are
asked all at once, then the anchors, each up to a number of attempts; what they gave is collected
in the order in which they ended, sorted, and held against what was required.
-/

namespace KyaOs.Audit

open Js Concurrency

variable {D R : Type}

inductive PublicationRole where
  | observer
  | anchor
  deriving DecidableEq

def PublicationRole.text : PublicationRole → JsString
  | .observer => js "observer"
  | .anchor => js "anchor"

/-- What the last attempt threw, together with what its backoff threw. -/
inductive PublicationError where
  | thrown (error : AuditError)
  | aggregate (error backoffError : AuditError)

structure AuditCheckpointPublicationFailure where
  role : PublicationRole
  providerIndex : Nat
  kind : Option AnchorKind
  attempts : Nat
  error : PublicationError

structure AuditCheckpointPublicationResult (D : Type) where
  checkpoint : SignedAuditCheckpoint D
  observations : List (AuditObservationReceipt D)
  anchors : List (AuditAnchorReceipt D)
  failures : List AuditCheckpointPublicationFailure

structure PublicationRequirements where
  minimumObservers : Nat
  requiredAnchorKinds : List AnchorKind

/-- Options that the constructor accepts: how many observers there are, and the kinds of the
anchors. -/
structure AuditCheckpointCoordinatorOptions where
  observers : Nat
  anchors : List AnchorKind
  requirements : Option PublicationRequirements
  maxPublishAttempts : Nat
  maxPublishAttempts_pos : 0 < maxPublishAttempts
  localeCompare : JsString → JsString → Int

inductive PublicationRequest where
  | publish
  | backoff (attempt : Nat) (error : AuditError)

@[reducible] def PublicationRequest.Answer (R : Type) : PublicationRequest → Type
  | .publish => R
  | .backoff .. => Unit

abbrev publicationSetting (R : Type) : Setting where
  State := Unit
  Error := AuditError
  Request := PublicationRequest
  Answer := PublicationRequest.Answer R

abbrev PublicationM (R α : Type) := Async (publicationSetting R) α

/-- A receipt, or the failure reported instead. -/
abbrev PublicationOutcome (R : Type) := Except AuditCheckpointPublicationFailure R

/-- `await` of a provider, or of the backoff. -/
def publicationReply (request : PublicationRequest) : PublicationM R (request.Answer R) :=
  Async.ask (I := publicationSetting R) request

/-- How a failure names its provider. -/
structure PublicationProvider where
  role : PublicationRole
  providerIndex : Nat
  kind : Option AnchorKind

def PublicationProvider.failure (provider : PublicationProvider) (attempts : Nat)
    (error : PublicationError) : AuditCheckpointPublicationFailure where
  role := provider.role
  providerIndex := provider.providerIndex
  kind := provider.kind
  attempts
  error

/-- The loop of `publishWithRetry`: one attempt, and as many as may follow it. -/
def publishFrom (provider : PublicationProvider) :
    Nat → Nat → PublicationM R (PublicationOutcome R)
  | attempt, 0 => do
    let published ← (publicationReply .publish).outcome
    match published with
    | .ok receipt => return .ok receipt
    | .error error => return .error (provider.failure attempt (.thrown error))
  | attempt, following + 1 => do
    let published ← (publicationReply .publish).outcome
    match published with
    | .ok receipt => return .ok receipt
    | .error error => do
      let waited ← (publicationReply (.backoff attempt error)).outcome
      match waited with
      | .ok () => publishFrom provider (attempt + 1) following
      | .error backoffError =>
        return .error (provider.failure attempt (.aggregate error backoffError))

section Options

variable (options : AuditCheckpointCoordinatorOptions)

def publishWithRetry (provider : PublicationProvider) : PublicationM R (PublicationOutcome R) :=
  publishFrom provider 1 (options.maxPublishAttempts - 1)

def receiptsOf (outcomes : List (PublicationOutcome R)) : List R :=
  outcomes.filterMap Except.toOption

def failuresOf (outcomes : List (PublicationOutcome R)) : List AuditCheckpointPublicationFailure :=
  outcomes.filterMap fun
    | .ok _ => none
    | .error failure => some failure

section Outcomes

variable {receipt : R} {failure : AuditCheckpointPublicationFailure}
  {outcomes : List (PublicationOutcome R)}

theorem receiptsOf_ok : receiptsOf (.ok receipt :: outcomes) = receipt :: receiptsOf outcomes := rfl

theorem receiptsOf_error : receiptsOf (.error failure :: outcomes) = receiptsOf outcomes := rfl

theorem failuresOf_ok : failuresOf (.ok receipt :: outcomes) = failuresOf outcomes := rfl

theorem failuresOf_error :
    failuresOf (.error failure :: outcomes) = failure :: failuresOf outcomes := rfl

end Outcomes

/-- `first || second` of two comparisons. -/
def orElseCompare (first second : Int) : Int := if first ≠ 0 then first else second

def AnchorKind.text : AnchorKind → JsString
  | .worm => js "worm"
  | .rfc3161 => js "rfc3161"
  | .scitt => js "scitt"

/-- What `createAndPublish` collects from the outcomes, each list in the order in which its
providers ended. -/
def publicationResult (checkpoint : SignedAuditCheckpoint D)
    (observed : List (PublicationOutcome (AuditObservationReceipt D)))
    (anchored : List (PublicationOutcome (AuditAnchorReceipt D))) :
    AuditCheckpointPublicationResult D where
  checkpoint
  observations := (receiptsOf observed).mergeSort fun left right =>
    options.localeCompare left.core.observerId right.core.observerId ≤ 0
  anchors := (receiptsOf anchored).mergeSort fun left right =>
    orElseCompare (options.localeCompare left.kind.text right.kind.text)
      (options.localeCompare left.providerId right.providerId) ≤ 0
  failures := (failuresOf observed ++ failuresOf anchored).mergeSort fun left right =>
    orElseCompare (options.localeCompare left.role.text right.role.text)
      ((left.providerIndex : Int) - right.providerIndex) ≤ 0

def assertRequirements (result : AuditCheckpointPublicationResult D) : Except AuditError Unit :=
  match options.requirements with
  | none => .ok ()
  | some requirements =>
    let missingKinds := requirements.requiredAnchorKinds.eraseDups.filter fun kind =>
      !result.anchors.any (·.kind = kind)
    if result.observations.length < requirements.minimumObservers ∨ missingKinds.length > 0 then
      auditFailure .CHECKPOINT_PUBLICATION_FAILED
        "Signed checkpoint did not obtain the required external publication evidence"
    else .ok ()

/-- `createAndPublish` once all providers have ended, with what `onPublished` came to. -/
def createAndPublish (checkpoint : SignedAuditCheckpoint D)
    (observed : List (PublicationOutcome (AuditObservationReceipt D)))
    (anchored : List (PublicationOutcome (AuditAnchorReceipt D)))
    (onPublished : Except AuditError Unit) :
    Except AuditError (AuditCheckpointPublicationResult D) := do
  let result := publicationResult options checkpoint observed anchored
  assertRequirements options result
  onPublished
  return result

def observerProviders (index : Fin options.observers) : PublicationProvider :=
  ⟨.observer, index, none⟩

def anchorProviders (index : Fin options.anchors.length) : PublicationProvider :=
  ⟨.anchor, index, some (options.anchors.get index)⟩

/-- Providers asked at once; they answer as they like. -/
def publicationProgram {n : Nat} (providers : Fin n → PublicationProvider) :
    Program (publicationSetting R) (Fin n) (PublicationOutcome R) where
  code index := publishWithRetry options (providers index)
  serves _ _ _ _ _ := True
  environment _ _ := True

/-- `Promise.all` of the providers: in some run all have ended, in some order. -/
structure Round {n : Nat} (providers : Fin n → PublicationProvider)
    (history : History (publicationSetting R) (Fin n))
    (final : Config (publicationSetting R) (Fin n) (PublicationOutcome R))
    (outcomes : Fin n → PublicationOutcome R) (completed : List (PublicationOutcome R)) :
    Prop where
  records : (publicationProgram options providers).Records (Program.initial ()) history final
  ended : ∀ index, final.calls index = some ⟨(), .finished (.ok (outcomes index))⟩
  completed : ∃ order : List (Fin n), order.Perm (List.finRange n) ∧
    completed = order.map outcomes

end Options

def attemptsIn (log : List (Exchange (publicationSetting R))) : Nat :=
  log.countP fun exchange =>
    match exchange.request with
    | .publish => true
    | .backoff .. => false

def receiptsIn (log : List (Exchange (publicationSetting R))) : List R :=
  log.filterMap fun exchange =>
    match exchange with
    | ⟨.publish, .ok receipt⟩ => some receipt
    | _ => none

/-- What comes of the attempts after the first ones: a receipt ends them, and a failure counts
them all. -/
structure Tried (provider : PublicationProvider) (before following : Nat)
    (log : List (Exchange (publicationSetting R))) (outcome : PublicationOutcome R) : Prop where
  attempted : 0 < attemptsIn log
  bounded : attemptsIn log ≤ following + 1
  accepted : ∀ receipt, outcome = .ok receipt → receiptsIn log = [receipt]
  refused : ∀ failure, outcome = .error failure → receiptsIn log = [] ∧
    failure = provider.failure (before + attemptsIn log) failure.error
  exhausted : ∀ failure error, outcome = .error failure → failure.error = .thrown error →
    attemptsIn log = following + 1

section Tried

variable {provider : PublicationProvider} {before following : Nat}
  {log : List (Exchange (publicationSetting R))} {outcome : PublicationOutcome R}
  {error backoffError : AuditError}

theorem tried_accepted {receipt : R} :
    Tried provider before following [⟨.publish, .ok receipt⟩] (.ok receipt) where
  attempted := by simp [attemptsIn]
  bounded := by simp [attemptsIn]
  accepted := by
    rintro _ ⟨⟩
    rfl
  refused _ hfailed := by cases hfailed
  exhausted _ _ hfailed _ := by cases hfailed

theorem tried_last : Tried (R := R) provider before 0 [⟨.publish, .error error⟩]
    (.error (provider.failure (before + 1) (.thrown error))) where
  attempted := by simp [attemptsIn]
  bounded := by simp [attemptsIn]
  accepted _ hfailed := by cases hfailed
  refused := by
    rintro _ ⟨⟩
    exact ⟨rfl, rfl⟩
  exhausted _ _ _ _ := rfl

theorem tried_stopped : Tried (R := R) provider before (following + 1)
    [⟨.publish, .error error⟩, ⟨.backoff (before + 1) error, .error backoffError⟩]
    (.error (provider.failure (before + 1) (.aggregate error backoffError))) where
  attempted := by simp [attemptsIn]
  bounded := by simp [attemptsIn]
  accepted _ hfailed := by cases hfailed
  refused := by
    rintro _ ⟨⟩
    exact ⟨rfl, rfl⟩
  exhausted := by
    rintro _ _ ⟨⟩ ⟨⟩

theorem attemptsIn_again : attemptsIn (R := R) (⟨.publish, .error error⟩ ::
    ⟨.backoff (before + 1) error, .ok ()⟩ :: log) = attemptsIn log + 1 := by
  simp [attemptsIn]

theorem Tried.again (h : Tried provider (before + 1) following log outcome) :
    Tried provider before (following + 1)
      (⟨.publish, .error error⟩ :: ⟨.backoff (before + 1) error, .ok ()⟩ :: log) outcome where
  attempted := by
    rw [attemptsIn_again]
    exact Nat.succ_pos _
  bounded := by
    rw [attemptsIn_again]
    exact Nat.succ_le_succ h.bounded
  accepted := h.accepted
  refused failure hfailed := by
    obtain ⟨hnone, hfailure⟩ := h.refused failure hfailed
    refine ⟨hnone, ?_⟩
    rwa [attemptsIn_again, ← Nat.add_assoc, Nat.add_right_comm]
  exhausted failure thrown hfailed hthrown := by
    rw [attemptsIn_again, h.exhausted failure thrown hfailed hthrown]

/-- By induction on the attempts that may follow. -/
theorem publishFrom_runs {result : Except AuditError (PublicationOutcome R)}
    (h : (publishFrom provider (before + 1) following : PublicationM R _).Runs log result) :
    ∃ outcome, result = .ok outcome ∧ Tried provider before following log outcome := by
  induction following generalizing before log with
  | zero =>
      obtain ⟨published, rest, rfl, hrest⟩ := Async.runs_outcome_ask_bind.mp h
      cases published with
      | ok receipt =>
          obtain ⟨rfl, rfl⟩ := Async.runs_pure.mp hrest
          exact ⟨_, rfl, tried_accepted⟩
      | error error =>
          obtain ⟨rfl, rfl⟩ := Async.runs_pure.mp hrest
          exact ⟨_, rfl, tried_last⟩
  | succ following ih =>
      obtain ⟨published, rest, rfl, hrest⟩ := Async.runs_outcome_ask_bind.mp h
      cases published with
      | ok receipt =>
          obtain ⟨rfl, rfl⟩ := Async.runs_pure.mp hrest
          exact ⟨_, rfl, tried_accepted⟩
      | error error =>
          obtain ⟨waited, later, rfl, hlater⟩ := Async.runs_outcome_ask_bind.mp hrest
          cases waited with
          | ok =>
              obtain ⟨outcome, rfl, htried⟩ := ih hlater
              exact ⟨outcome, rfl, htried.again⟩
          | error backoffError =>
              obtain ⟨rfl, rfl⟩ := Async.runs_pure.mp hlater
              exact ⟨_, rfl, tried_stopped⟩

end Tried

section Rounds

variable {options : AuditCheckpointCoordinatorOptions} {n : Nat}
  {providers : Fin n → PublicationProvider} {history : History (publicationSetting R) (Fin n)}
  {final : Config (publicationSetting R) (Fin n) (PublicationOutcome R)}
  {outcomes : Fin n → PublicationOutcome R} {completed : List (PublicationOutcome R)}

theorem Round.tried (h : Round options providers history final outcomes completed)
    (index : Fin n) : Tried (providers index) 0 (options.maxPublishAttempts - 1)
      (history.of index) (outcomes index) := by
  have hcame := h.records.cameFrom index
  rw [h.ended index] at hcame
  obtain ⟨outcome, hresult, htried⟩ := publishFrom_runs (Async.Follows.runs hcame)
  obtain rfl : outcomes index = outcome := Except.ok.inj hresult
  exact htried

theorem Round.perm (h : Round options providers history final outcomes completed) :
    completed.Perm (List.ofFn outcomes) := by
  obtain ⟨order, horder, rfl⟩ := h.completed
  rw [List.ofFn_eq_map]
  exact horder.map outcomes

theorem length_receiptsOf_add (outcomes : List (PublicationOutcome R)) :
    (receiptsOf outcomes).length + (failuresOf outcomes).length = outcomes.length := by
  induction outcomes with
  | nil => rfl
  | cons outcome outcomes ih =>
      cases outcome with
      | ok receipt =>
          rw [receiptsOf_ok, failuresOf_ok, List.length_cons, List.length_cons]
          omega
      | error failure =>
          rw [receiptsOf_error, failuresOf_error, List.length_cons, List.length_cons]
          omega

end Rounds

section Evidence

/-- The external evidence that the options ask for. -/
def Meets (options : AuditCheckpointCoordinatorOptions)
    (result : AuditCheckpointPublicationResult D) : Prop :=
  ∀ requirements ∈ options.requirements,
    requirements.minimumObservers ≤ result.observations.length ∧
      ∀ kind ∈ requirements.requiredAnchorKinds, ∃ receipt ∈ result.anchors, receipt.kind = kind

variable (options : AuditCheckpointCoordinatorOptions)

theorem assertRequirements_cases (result : AuditCheckpointPublicationResult D) :
    assertRequirements options result = .ok () ∧ Meets options result ∨
      assertRequirements options result = auditFailure .CHECKPOINT_PUBLICATION_FAILED
        "Signed checkpoint did not obtain the required external publication evidence" ∧
        ¬ Meets options result := by
  rw [assertRequirements]
  cases hrequirements : options.requirements with
  | none => exact .inl ⟨rfl, by simp [Meets, hrequirements]⟩
  | some requirements =>
      have hmeets : Meets options result ↔ ¬ (result.observations.length <
          requirements.minimumObservers ∨
        (requirements.requiredAnchorKinds.eraseDups.filter fun kind =>
          !result.anchors.any (·.kind = kind)).length > 0) := by
        simp [Meets, hrequirements, List.length_pos_iff, List.filter_eq_nil_iff]
      dsimp only
      split_ifs with hmissing
      · exact .inr ⟨rfl, fun h => hmeets.mp h hmissing⟩
      · exact .inl ⟨rfl, hmeets.mpr hmissing⟩

variable (checkpoint : SignedAuditCheckpoint D)
  (observations : List (PublicationOutcome (AuditObservationReceipt D)))
  (anchors : List (PublicationOutcome (AuditAnchorReceipt D)))

theorem publicationResult_perm :
    (publicationResult options checkpoint observations anchors).observations.Perm
        (receiptsOf observations) ∧
      (publicationResult options checkpoint observations anchors).anchors.Perm
        (receiptsOf anchors) ∧
      (publicationResult options checkpoint observations anchors).failures.Perm
        (failuresOf observations ++ failuresOf anchors) :=
  ⟨List.mergeSort_perm _ _, List.mergeSort_perm _ _, List.mergeSort_perm _ _⟩

theorem createAndPublish_cases (onPublished : Except AuditError Unit) :
    Meets options (publicationResult options checkpoint observations anchors) ∧
        createAndPublish options checkpoint observations anchors onPublished =
          onPublished.map (fun _ => publicationResult options checkpoint observations anchors) ∨
      ¬ Meets options (publicationResult options checkpoint observations anchors) ∧
        createAndPublish options checkpoint observations anchors onPublished =
          auditFailure .CHECKPOINT_PUBLICATION_FAILED
            "Signed checkpoint did not obtain the required external publication evidence" := by
  obtain ⟨hasserted, hmeets⟩ | ⟨hrefused, hunmet⟩ := assertRequirements_cases options
    (publicationResult options checkpoint observations anchors)
  · refine .inl ⟨hmeets, ?_⟩
    rw [createAndPublish, hasserted]
    cases onPublished <;> rfl
  · refine .inr ⟨hunmet, ?_⟩
    rw [createAndPublish, hrefused]
    rfl

/-- Each provider is tried up to the bound and no further than its receipt, its outcome is reported
once, and a result is returned only with the evidence required. -/
theorem createAndPublish_evidence (options : AuditCheckpointCoordinatorOptions)
    (checkpoint : SignedAuditCheckpoint D)
    (observing : History (publicationSetting (AuditObservationReceipt D)) (Fin options.observers))
    (observersEnd : Config (publicationSetting (AuditObservationReceipt D)) (Fin options.observers)
      (PublicationOutcome (AuditObservationReceipt D)))
    (observed : Fin options.observers → PublicationOutcome (AuditObservationReceipt D))
    (observations : List (PublicationOutcome (AuditObservationReceipt D)))
    (hobserved : Round options (observerProviders options) observing observersEnd observed
      observations)
    (anchoring : History (publicationSetting (AuditAnchorReceipt D)) (Fin options.anchors.length))
    (anchorsEnd : Config (publicationSetting (AuditAnchorReceipt D)) (Fin options.anchors.length)
      (PublicationOutcome (AuditAnchorReceipt D)))
    (anchored : Fin options.anchors.length → PublicationOutcome (AuditAnchorReceipt D))
    (anchors : List (PublicationOutcome (AuditAnchorReceipt D)))
    (hanchored : Round options (anchorProviders options) anchoring anchorsEnd anchored anchors)
    (onPublished : Except AuditError Unit) :
    (∀ index, Tried (observerProviders options index) 0 (options.maxPublishAttempts - 1)
      (observing.of index) (observed index)) ∧
    (∀ index, Tried (anchorProviders options index) 0 (options.maxPublishAttempts - 1)
      (anchoring.of index) (anchored index)) ∧
    (∀ error, createAndPublish options checkpoint observations anchors onPublished =
        .error error →
      ¬ Meets options (publicationResult options checkpoint observations anchors) ∨
        onPublished = .error error) ∧
    ∀ result, createAndPublish options checkpoint observations anchors onPublished = .ok result →
      result.checkpoint = checkpoint ∧ Meets options result ∧
        result.observations.Perm (receiptsOf (List.ofFn observed)) ∧
        result.anchors.Perm (receiptsOf (List.ofFn anchored)) ∧
        result.failures.Perm (failuresOf (List.ofFn observed) ++
          failuresOf (List.ofFn anchored)) ∧
        result.observations.length + result.anchors.length + result.failures.length =
          options.observers + options.anchors.length := by
  refine ⟨hobserved.tried, hanchored.tried, ?_, ?_⟩
  · intro error hthrown
    obtain ⟨-, hpublished⟩ | ⟨hunmet, -⟩ := createAndPublish_cases options
      checkpoint observations anchors onPublished
    · rw [hpublished] at hthrown
      cases onPublished with
      | ok => cases hthrown
      | error thrown => exact .inr (congrArg Except.error (Except.error.inj hthrown))
    · exact .inl hunmet
  · intro result hreturned
    obtain ⟨hmeets, hpublished⟩ | ⟨-, hrefused⟩ := createAndPublish_cases options
      checkpoint observations anchors onPublished
    · rw [hpublished] at hreturned
      cases onPublished with
      | error => cases hreturned
      | ok =>
          obtain rfl := Except.ok.inj hreturned
          obtain ⟨hobservations, hreceipts, hfailures⟩ :=
            publicationResult_perm options checkpoint observations anchors
          replace hobservations := hobservations.trans (hobserved.perm.filterMap _)
          replace hreceipts := hreceipts.trans (hanchored.perm.filterMap _)
          replace hfailures := hfailures.trans
            ((hobserved.perm.filterMap _).append (hanchored.perm.filterMap _))
          refine ⟨rfl, hmeets, hobservations, hreceipts, hfailures, ?_⟩
          have hobservers := length_receiptsOf_add (List.ofFn observed)
          have hanchors := length_receiptsOf_add (List.ofFn anchored)
          rw [List.length_ofFn] at hobservers hanchors
          rw [hobservations.length_eq, hreceipts.length_eq, hfailures.length_eq, List.length_append]
          change (receiptsOf _).length + (receiptsOf _).length +
            ((failuresOf _).length + (failuresOf _).length) = _
          omega
    · rw [hrefused] at hreturned
      cases hreturned

end Evidence

section Sample

open Async.Leads

def sampleCoordinator : AuditCheckpointCoordinatorOptions where
  observers := 1
  anchors := []
  requirements := some ⟨1, []⟩
  maxPublishAttempts := 2
  maxPublishAttempts_pos := by decide
  localeCompare _ _ := 0

abbrev samplePublishing : Program (publicationSetting (AuditObservationReceipt SampleDouble))
    (Fin 1) (PublicationOutcome (AuditObservationReceipt SampleDouble)) :=
  publicationProgram sampleCoordinator (observerProviders sampleCoordinator)

theorem publishWithRetry_leads : (samplePublishing.code 0).Leads (samplePublishing.serves 0) () ()
    (.finished (.ok (.ok (sampleReceipt none false)))) := by
  have hfailed : (publicationReply .publish : PublicationM _ _).outcome.Leads
      (samplePublishing.serves 0) () ()
      (.finished (.ok (.error (.protocol .JOURNAL_FAILURE [])))) :=
    andThen (ask trivial) .done
  have hwaited : (publicationReply (.backoff 1 (.protocol .JOURNAL_FAILURE [])) :
      PublicationM _ _).outcome.Leads (samplePublishing.serves 0) () ()
      (.finished (.ok (.ok ()))) :=
    andThen (ask trivial) .done
  have hpublished : (publicationReply .publish : PublicationM _ _).outcome.Leads
      (samplePublishing.serves 0) () () (.finished (.ok (.ok (sampleReceipt none false)))) :=
    andThen (ask trivial) .done
  exact bind hfailed (bind hwaited (bind hpublished .done))

theorem createAndPublish_evidence_sample : ∃ result,
    createAndPublish sampleCoordinator (samplePublications false)
        [.ok (sampleReceipt none false)] [] (.ok ()) = .ok result ∧
      Meets sampleCoordinator result ∧
      result.observations.length + result.anchors.length + result.failures.length = 1 := by
  obtain ⟨final, hreaches, -, hended⟩ := publishWithRetry_leads.run
  obtain ⟨history, hrecords⟩ := hreaches.records
  have hobserved : Round sampleCoordinator (observerProviders sampleCoordinator) history final
      (fun _ => .ok (sampleReceipt none false)) [.ok (sampleReceipt none false)] :=
    ⟨hrecords, fun index => Subsingleton.elim (0 : Fin 1) index ▸ hended, [(0 : Fin 1)], .refl _,
      rfl⟩
  have hanchored : Round sampleCoordinator (anchorProviders sampleCoordinator) []
      (Program.initial ()) (fun index => index.elim0)
      ([] : List (PublicationOutcome (AuditAnchorReceipt SampleDouble))) :=
    ⟨.refl, fun index => index.elim0, [], .refl _, rfl⟩
  obtain ⟨-, -, -, hreturned⟩ := createAndPublish_evidence sampleCoordinator
    (samplePublications false) history final _ _ hobserved [] _ _ _ hanchored (.ok ())
  obtain ⟨-, hpublished⟩ | ⟨hunmet, -⟩ := createAndPublish_cases sampleCoordinator
    (samplePublications false) [.ok (sampleReceipt none false)] [] (.ok ())
  · obtain ⟨-, hmeets, -, -, -, hcounts⟩ := hreturned _ hpublished
    exact ⟨_, hpublished, hmeets, hcounts⟩
  · refine absurd ?_ hunmet
    rintro _ ⟨⟩
    obtain ⟨hobservations, -⟩ := publicationResult_perm sampleCoordinator
      (samplePublications false) [.ok (sampleReceipt none false)] []
    refine ⟨hobservations.length_eq.ge, ?_⟩
    intro _ hrequired
    cases hrequired

end Sample

end KyaOs.Audit
