import KyaOs.Audit.LedgerRuns
import KyaOs.Audit.SubmissionContracts

/-!
# Submissions keep the ledger

The rest of the recorder under the protocol of `LedgerRuns`: opening an epoch, storing and
disposing evidence, and a whole submission.
-/

namespace KyaOs.Audit

open Js Concurrency HashChain JsonValue

variable {D : Type} {dep : Deployment D} {calm : Prop} {c : SubmitCall D} {r : Nat}
  {log log' since : List (Commit D)} {Q : List (Commit D) → Prop}

theorem Deployment.LedgerInv.kept {s s' : AuditWorld D} (h : dep.LedgerInv calm since (s, log))
    (hkept : s'.journal = s.journal ∧ s'.recorders = s.recorders ∧ s'.clock = s.clock) :
    dep.LedgerInv calm since (s', log) := by
  obtain ⟨hjournal, hrecorders, hclock⟩ := hkept
  refine ⟨hjournal.trans h.journal, h.since, h.recorded, h.short, ?_, ?_⟩
  · exact hrecorders ▸ h.recorders
  · exact hclock ▸ h.clock

theorem ask_kept (hgrows : dep.Grows Q) {request : AuditRequest D}
    (happends : request.appends = false) :
    (dep.ledgerProtocol calm since).Contract c (fun w => Q w.2) (reply request)
      fun _ w => Q w.2 := by
  apply Protocol.Contract.ask _ fun _ _ _ => List.prefix_refl _
  intro w asked hw hQ hasked hlog answer s' hserves
  refine ⟨asked.2, hasked.kept (hserves.1.kept happends), fun _ _ => List.prefix_refl _, ?_⟩
  intro resumed hresumed hgrown
  exact hgrows _ _ hresumed.recorded (hlog.trans hgrown) hQ

/-- The compensation leaves the log alone. -/
theorem disposeUncommittedEvidence_kept (hgrows : dep.Grows Q)
    (config : AuditRecorderServiceConfig D) (r : Nat) (stored : List (EncryptedEvidenceInput D))
    (identity : EventIdentity) :
    (dep.ledgerProtocol calm since).Contract c (fun w => Q w.2)
      (disposeUncommittedEvidence config r stored identity)
      fun result w => Q w.2 ∧ result = .ok () := by
  apply disposeUncommittedEvidence_contract
    ((ask_kept hgrows rfl).mono_post fun _ _ _ hQ => ⟨hQ, fun _ => hQ⟩)
  apply disposeStored_contract fun _ => ask_kept hgrows
  intro item _
  refine Protocol.Contract.update ledgerProtocol_trans ?_ (.pure fun _ _ hQ => hQ)
  rintro w hw ⟨hQ, -⟩
  exact ⟨w.2, hw.kept ⟨rfl, rfl, rfl⟩, fun _ _ => List.prefix_refl _, hQ⟩

section Append

variable {genesis : Bool} {producerAuthority : JsString} {event : AuditProducerEvent D}
  {identity : EventIdentity}

theorem appendIdentified_contract (H : dep.Hosts calm (dep.ledgerProtocol calm since))
    (happends : dep.Appends calm r genesis producerAuthority event identity) :
    (dep.ledgerProtocol calm since).Contract c (fun w => genesis = false → dep.Opened r w.2)
      (appendIdentified dep.runtime (dep.configs r) r event genesis identity)
      fun result w => dep.Appended calm r genesis identity result w.2 := by
  have hgrows : dep.Grows fun log => genesis = false → dep.Opened r log :=
    fun _ _ _ hlog h hfalse => (h hfalse).mono hlog
  unfold appendIdentified
  apply H.observe rfl hgrows.stable
  · intro found asked s' hasked _ hserves
    cases found with
    | some existing =>
        apply Protocol.Contract.ofExcept
        intro w hw h
        obtain ⟨-, hstays⟩ := lookup_answered hasked hw h.2 hserves
        exact resolveExisting_appended happends hw.recorded (hstays existing rfl)
    | none =>
        apply (appendAttempts_contract H happends _).mono_pre
        intro w _ h
        exact h.1
  · intro e s s' w hserves _ _ hcalm
    obtain ⟨_, hok⟩ := hserves.2 hcalm
    cases hok

end Append

theorem Deployment.opened_of_accepts (hrecorded : Recorded dep.Admits log) {commit : Commit D}
    (hcommit : commit ∈ log) (haccepts : dep.Accepts r commit.entry) : dep.Opened r log :=
  ⟨commit, hcommit, (hrecorded.ledger hcommit).symm.trans haccepts.own.1⟩

/-- What a replica's initialization came to. -/
def Deployment.Initialized (dep : Deployment D) (calm : Prop) (r : Nat)
    (result : Except AuditError (SignedAuditEntry D)) (log : List (Commit D)) : Prop :=
  match result with
  | .ok _ => dep.Opened r log
  | .error error => calm → ∃ identity, dep.Expected r true identity log error

theorem appendGenesis_contract (H : dep.Hosts calm (dep.ledgerProtocol calm since)) {now : D}
    (hschema : dep.runtime.auditProducerEventSchema (genesisEvent (dep.configs r) now) = true) :
    (dep.ledgerProtocol calm since).Contract c (fun _ => True)
      (appendGenesis dep.runtime (dep.configs r) r (genesisEvent (dep.configs r) now))
      fun result w => dep.Initialized calm r result w.2 := by
  apply Protocol.Contract.bind
    (identifyEvent_contract H (fun _ _ _ _ _ _ => trivial) (dep.configs r) _ _)
  · intro identity
    apply Protocol.Contract.of_pre fun _ _ h => h.2
    intro hidentifies
    have happends : dep.Appends calm r true (dep.configs r).signer.did
        (genesisEvent (dep.configs r) now) identity :=
      ⟨hidentifies, fun _ => ⟨⟨now, rfl⟩, rfl⟩, hschema⟩
    apply (appendIdentified_contract H happends).consequence
    · intro _ _ _ hfalse
      cases hfalse
    · intro result w _ h
      cases result with
      | ok entry => exact h.2.2 rfl
      | error e => exact fun hcalm => ⟨identity, h hcalm⟩
  · intro e w _ h hcalm
    exact absurd hcalm h.2.1

/-- Awaiting the promise of an initialization. -/
theorem initialized_contract (H : dep.Hosts calm (dep.ledgerProtocol calm since)) (promise : Nat) :
    (dep.ledgerProtocol calm since).Contract c (fun _ => True)
      (reply (.initialized r promise)) fun result w => dep.Initialized calm r result w.2 := by
  apply Protocol.Contract.ask _ H.guarantee_refl
  intro w asked _ _ hasked _ answer s' hserves
  obtain rfl := hserves.1.unchanged rfl
  refine ⟨asked.2, hasked, H.guarantee_refl _, ?_⟩
  intro resumed hresumed hgrown
  rcases hserves.1 with ⟨-, hsettled⟩ | ⟨-, _, hrejects, -⟩
  · cases answer with
    | ok entry => exact ((hasked.recorders r).initialized promise entry hsettled).mono hgrown
    | error e =>
        intro hcalm
        obtain ⟨identity, hexpected⟩ := (hasked.recorders r).failed promise e hsettled hcalm
        exact ⟨identity, hexpected.mono hresumed.recorded hgrown⟩
  · cases hrejects.1

theorem awaitInitialization_contract (H : dep.Hosts calm (dep.ledgerProtocol calm since)) :
    (dep.ledgerProtocol calm since).Contract c (fun _ => True)
      (awaitInitialization dep.runtime (dep.configs r) r)
      fun result w => dep.Initialized calm r result w.2 := by
  unfold awaitInitialization
  apply Protocol.Contract.state
  intro s
  have htimes : ∀ w, (dep.ledgerProtocol calm since).inv w → w.1 = s ∧ True →
      dep.times (s.clock r) := by
    rintro w hw ⟨rfl, -⟩
    exact hw.clock r
  apply Protocol.Contract.of_pre htimes
  intro htime
  apply Protocol.Contract.of_weaker (fun _ => True) _ fun _ _ _ => trivial
  cases (s.recorders r).initialization with
  | some promise => exact initialized_contract H promise
  | none =>
      apply Protocol.Contract.check
      · intro event hevent
        obtain ⟨hschema, rfl⟩ := parseAuditProducerEvent_eq_ok.mp hevent
        apply update_contract fun _ _ _ _ => trivial
        · intro recorder w _ _ hsound
          exact ⟨hsound.committed, hsound.reported, hsound.initialized, hsound.failed⟩
        · apply Protocol.Contract.andThen (appendGenesis_contract H hschema)
          intro result
          apply update_contract fun _ _ _ h => h
          · intro recorder w _ h hsound
            refine ⟨hsound.committed, hsound.reported, ?_, ?_⟩
            · intro promise entry hsettled
              simp only [RecorderState.endInitialization, Function.update_apply] at hsettled
              split at hsettled
              · cases hsettled
                exact h
              · exact hsound.initialized promise entry hsettled
            · intro promise error hsettled
              simp only [RecorderState.endInitialization, Function.update_apply] at hsettled
              split at hsettled
              · cases hsettled
                exact h
              · exact hsound.failed promise error hsettled
          · exact (initialized_contract H _).mono_pre fun _ _ _ => trivial
      · intro e w herror _ _ hcalm
        rw [parseAuditProducerEvent_eq_ok.mpr
          ⟨(H.regular hcalm).genesisSchema r _ htime, rfl⟩] at herror
        cases herror

/-- An entry before a head is the first of the ledger. -/
theorem readFirst_answered {asked : AuditWorld D × List (Commit D)} {s' : AuditWorld D}
    {ledger : AuditLedgerRef} {found : Option (SignedAuditEntry D)}
    (hasked : dep.LedgerInv calm since asked)
    (hserves :
      (dep.ledgerProtocol calm since).serves c (.readFirst ledger) asked.1 (.ok found) s') :
    found = (commitsAt asked.2 (ledgerKey ledger)).head?.map (·.entry) := by
  rcases hserves.1 with ⟨-, hanswer⟩ | ⟨-, _, -, herror⟩
  · rw [Except.ok.inj hanswer, hasked.journal, readFirst_replay]
  · cases herror

theorem ensureInitialized_contract (H : dep.Hosts calm (dep.ledgerProtocol calm since)) :
    (dep.ledgerProtocol calm since).Contract c (fun _ => True)
      (ensureInitialized dep.runtime (dep.configs r) r)
      fun result w => dep.Initialized calm r result w.2 := by
  unfold ensureInitialized
  have hsteady : ∀ {request : AuditRequest D} {e s s'},
      (dep.ledgerProtocol calm since).serves c request s (.error e) s' →
      request.dependable = true → ¬ calm := by
    intro request e s s' hserves hdependable hcalm
    obtain ⟨_, hok⟩ := (hserves.2 hcalm).ok hdependable
    cases hok
  apply H.observe rfl fun _ _ _ _ _ _ => trivial
  · intro existingHead asked s' hasked _ hserves
    cases existingHead with
    | some head =>
        have hknown : Known (dep.ledger r) (some head) asked.2 := by
          rcases hserves.1 with ⟨-, known, hearlier, hanswer⟩ | ⟨-, _, -, herror⟩
          · rw [← Except.ok.inj hanswer, hasked.journal] at hearlier
            exact .earlier hasked.recorded hearlier
          · cases herror
        apply Protocol.Contract.of_weaker (fun w => Known (dep.ledger r) (some head) w.2)
        · apply H.observe rfl fun _ _ h _ _ hlog => h.mono hlog
          · intro first asked s' hasked hknown hserves
            have hfirst := readFirst_answered hasked hserves
            cases first with
            | some entry =>
                obtain ⟨commit, hcommit, rfl⟩ := Option.map_eq_some_iff.mp hfirst.symm
                apply Protocol.Contract.ofExcept
                intro w hw h
                cases hvalid : validateExistingGenesis dep.runtime (dep.configs r)
                  commit.entry with
                | ok valid =>
                    obtain ⟨-, rfl⟩ := validateExistingGenesis_eq_ok.mp hvalid
                    exact Deployment.opened_of_accepts hw.recorded
                      (h.2.subset (mem_commitsAt.mp (List.mem_of_head? hcommit)).1) hvalid
                | error e =>
                    intro _
                    -- no identity was asked for: any will do
                    refine ⟨⟨[], []⟩, .inr (.inr ⟨rfl, .inr ⟨commit,
                      Deployment.head?_mono hcommit (commitsAt_mono h.2), fun haccepts => ?_⟩⟩)⟩
                    rw [Deployment.Accepts, hvalid] at haccepts
                    cases haccepts
            | none =>
                exact absurd (List.head?_eq_none_iff.mp (Option.map_eq_none_iff.mp hfirst.symm))
                  (hknown.commits (Option.some_ne_none head))
          · intro e s s' w hserves _ _ hcalm
            exact absurd hcalm (hsteady hserves rfl)
        · intro w _ h
          exact hknown.mono h.2
    | none =>
        apply Protocol.Contract.of_weaker (fun _ => True) _ fun _ _ _ => trivial
        apply Protocol.Contract.bind
          (sealPredecessor_contract H (fun _ _ _ _ _ _ => trivial) (dep.configs r) r)
        · intro _
          exact (awaitInitialization_contract H).mono_pre fun _ _ _ => trivial
        · intro e w _ h hcalm
          exact absurd hcalm h.2
  · intro e s s' w hserves _ _ hcalm
    exact absurd hcalm (hsteady hserves rfl)

/-- What a submission with an identity came to. -/
def Deployment.Submitted (dep : Deployment D) (calm : Prop) (r : Nat)
    (submission : AuditRecorderSubmission D) (identity : EventIdentity)
    (result : Except AuditError (SignedAuditEntry D)) (log : List (Commit D)) : Prop :=
  match result with
  | .ok entry =>
      lookup log (idempotencyKey (dep.ledger r).ledgerId identity.idempotencyKey) = some entry ∧
        entry.eventDigest = identity.eventDigest
  | .error error => calm → submission.encryptedEvidence = [] →
      submission.expectedLedgerEpochId.any (· ≠ (dep.ledger r).ledgerEpochId) = false →
      dep.Expected r false identity log error ∨
        ∃ other, dep.Expected r true other log error

section Submit

variable {producerAuthority : JsString} {event : AuditProducerEvent D}
  {identity : EventIdentity} {submission : AuditRecorderSubmission D}

theorem Deployment.Opened.grows : dep.Grows (dep.Opened r) :=
  fun _ _ _ hlog h => h.mono hlog

theorem appendWithEvidence_contract (H : dep.Hosts calm (dep.ledgerProtocol calm since))
    (happends : dep.Appends calm r false producerAuthority event identity) :
    (dep.ledgerProtocol calm since).Contract c (fun w => dep.Opened r w.2)
      (appendWithEvidence dep.runtime (dep.configs r) r submission event identity)
      fun result w => dep.Submitted calm r submission identity result w.2 := by
  unfold appendWithEvidence
  apply Protocol.Contract.bind (persistSubmittedEvidence_contract
    (fun _ => ask_kept Deployment.Opened.grows) (dep.configs r) submission.encryptedEvidence event)
  · intro stored
    have happend : (dep.ledgerProtocol calm since).Contract c (fun w => dep.Opened r w.2)
        (appendIdentified dep.runtime (dep.configs r) r event false identity)
        fun result w => dep.Appended calm r false identity result w.2 :=
      (appendIdentified_contract H happends).mono_pre fun _ _ h _ => h
    apply Protocol.Contract.of_weaker (fun w => dep.Opened r w.2) _ fun _ _ h => h.1
    apply Protocol.Contract.tryCatch happend
    · exact fun _ _ _ h => ⟨h.1, h.2.1 rfl⟩
    · intro e
      have hgrows : dep.Grows fun log => calm → dep.Expected r false identity log e :=
        fun _ _ hrecorded hlog h hcalm => (h hcalm).mono hrecorded hlog
      apply Protocol.Contract.bind
        (disposeUncommittedEvidence_kept hgrows (dep.configs r) r stored identity)
      · intro _
        exact .throw fun _ _ h hcalm _ _ => .inl (h.1 hcalm)
      · rintro _ _ _ ⟨-, hok⟩
        cases hok
  · exact fun e _ _ h _ hnone _ => absurd hnone (h.2 e rfl)

theorem submitNew_contract (H : dep.Hosts calm (dep.ledgerProtocol calm since))
    (happends : dep.Appends calm r false producerAuthority event identity) :
    (dep.ledgerProtocol calm since).Contract c (fun _ => True)
      (submitNew dep.runtime (dep.configs r) r submission event identity)
      fun result w => dep.Submitted calm r submission identity result w.2 := by
  unfold submitNew
  split
  · rename_i hepoch
    refine .ofExcept fun _ _ _ _ _ hsame => ?_
    rw [Deployment.ledger, hepoch] at hsame
    cases hsame
  · apply Protocol.Contract.bind (ensureInitialized_contract H)
    · intro _
      apply update_contract fun _ _ _ h => h
      · exact fun _ _ _ _ hsound =>
          ⟨hsound.committed, hsound.reported, hsound.initialized, hsound.failed⟩
      · apply Protocol.Contract.finally_ ledgerProtocol_trans
          ((appendWithEvidence_contract H happends).mono_pre fun _ _ h => h)
        intro result w hw h
        refine ⟨w.2, hw.update fun hsound => ?_, H.guarantee_refl _, h⟩
        exact ⟨hsound.committed, hsound.reported, hsound.initialized, hsound.failed⟩
    · exact fun _ _ _ h hcalm _ _ => .inr (h hcalm)

end Submit

namespace Deployment

variable (dep : Deployment D) (c : SubmitCall D)

/-- The checks of a submission that await nothing. -/
def admission : Except AuditError (AuditProducerEvent D) := do
  validateSubmissionEnvelope (dep.configs c.recorder) c.submission c.context
  let producerEvent ← parseAuditProducerEvent dep.runtime c.submission.producerEvent
  validateEventAuthority dep.runtime (dep.configs c.recorder) producerEvent c.context
  return producerEvent

/-- The journal holds an entry for the call's identity, and the entry binds its event. -/
def Bound (entry : SignedAuditEntry D) (journal : MemoryAuditJournal D) : Prop :=
  ∃ identity, dep.Identifies (dep.ledger c.recorder).ledgerId c.context.producerAuthority
      c.submission.producerEvent identity ∧
    journal.getByIdempotencyKey (dep.ledger c.recorder).ledgerId identity.idempotencyKey =
      some entry ∧
    entry.eventDigest = identity.eventDigest

/-- The authorizer refuses the call. -/
def Denied (error : AuditError) : Prop :=
  (dep.configs c.recorder).hasAuthorizer = true ∧
    error = .protocol .UNAUTHORIZED_SUBMISSION
      (js "Audit producer is not authorized for this ledger")

/-- Why a call may fail whatever the journal holds. -/
inductive Refused (error : AuditError) : Prop
  | checked : dep.admission c = .error error → Refused error
  | denied : dep.Denied c error → Refused error
  | rejected : dep.Rejected error → Refused error

/-- The call's identity was used for an event of other content. -/
def Reuses (journal : MemoryAuditJournal D) : Prop :=
  ∃ identity existing, dep.Identifies (dep.ledger c.recorder).ledgerId
      c.context.producerAuthority c.submission.producerEvent identity ∧
    journal.getByIdempotencyKey (dep.ledger c.recorder).ledgerId identity.idempotencyKey =
      some existing ∧
    existing.eventDigest ≠ identity.eventDigest

/-- The conflicts a call may end in. -/
def Contended (error : AuditError) (journal : MemoryAuditJournal D) : Prop :=
  (∃ message, error = .protocol .EVENT_ID_CONFLICT message ∧ dep.Reuses c journal) ∨
    ∃ message, error = .protocol .APPEND_CONFLICT_EXHAUSTED message

/-- A submission to the replica's own epoch, without evidence, that passes the checks. -/
structure Plain : Prop where
  admitted : dep.admission c = .ok c.submission.producerEvent
  noEvidence : c.submission.encryptedEvidence = []
  epoch : c.submission.expectedLedgerEpochId.any (· ≠ (dep.ledger c.recorder).ledgerEpochId) =
    false

/-- The epoch of replica `r` was opened by a genesis it accepts. -/
def Begun (r : Nat) (journal : MemoryAuditJournal D) : Prop :=
  ∃ first, (journal.snapshot (dep.ledger r)).head? = some first ∧ dep.Accepts r first

/-- What a call came to that was made when the journal was `born`. -/
structure Outcome (calm : Prop) (born : MemoryAuditJournal D)
    (result : Except AuditError (SignedAuditEntry D)) (journal : MemoryAuditJournal D) :
    Prop where
  bound : ∀ entry, result = .ok entry → dep.Bound c entry journal
  again : ∀ error entry, result = .error error → dep.Bound c entry born → dep.Refused c error
  alarm : ∀ error, result = .error error → calm → dep.Plain c → dep.Begun c.recorder born →
    dep.Contended c error journal ∨ dep.Denied c error

variable {dep c}

theorem begun_replay : dep.Begun r (replay log) ↔ dep.Matched r log := by
  simp only [Begun, Matched, MemoryAuditJournal.snapshot, entriesByLedger_replay, List.head?_map,
    Option.map_eq_some_iff]
  constructor
  · rintro ⟨_, ⟨first, hfirst, rfl⟩, haccepts⟩
    exact ⟨first, hfirst, haccepts⟩
  · rintro ⟨first, hfirst, haccepts⟩
    exact ⟨first.entry, ⟨first, hfirst, rfl⟩, haccepts⟩

theorem Identifies.eq {ledgerId producerAuthority : JsString} {event : AuditProducerEvent D}
    {left right : EventIdentity} (h : dep.Identifies ledgerId producerAuthority event left)
    (h' : dep.Identifies ledgerId producerAuthority event right) : left = right := by
  obtain ⟨hdigest, hkey⟩ := h
  rw [h'.eventDigest, Except.ok.injEq] at hdigest
  rw [h'.idempotencyKey, Except.ok.injEq] at hkey
  cases left
  cases right
  exact congrArg₂ EventIdentity.mk hdigest.symm hkey.symm

theorem Bound.mono {entry : SignedAuditEntry D} (h : dep.Bound c entry (replay log))
    (hrecorded : Recorded dep.Admits log') (hlog : log <+: log') :
    dep.Bound c entry (replay log') := by
  obtain ⟨identity, hidentifies, hlookup, hdigest⟩ := h
  exact ⟨identity, hidentifies, hrecorded.lookup_mono hlog hlookup, hdigest⟩

theorem Contended.mono {error : AuditError} (h : dep.Contended c error (replay log))
    (hrecorded : Recorded dep.Admits log') (hlog : log <+: log') :
    dep.Contended c error (replay log') := by
  rcases h with ⟨message, herror, identity, existing, hidentifies, hlookup, hdigest⟩ | h
  · exact .inl ⟨message, herror, identity, existing, hidentifies,
      hrecorded.lookup_mono hlog hlookup, hdigest⟩
  · exact .inr h

theorem Outcome.mono {calm : Prop} {born : MemoryAuditJournal D}
    {result : Except AuditError (SignedAuditEntry D)}
    (h : dep.Outcome c calm born result (replay log)) (hrecorded : Recorded dep.Admits log')
    (hlog : log <+: log') : dep.Outcome c calm born result (replay log') where
  bound entry hentry := (h.bound entry hentry).mono hrecorded hlog
  again := h.again
  alarm error herror hcalm hplain hbegun :=
    (h.alarm error herror hcalm hplain hbegun).imp_left fun h => h.mono hrecorded hlog

/-- Only one entry is bound. -/
theorem Bound.eq {left right : SignedAuditEntry D} {journal : MemoryAuditJournal D}
    (h : dep.Bound c left journal) (h' : dep.Bound c right journal) : left = right := by
  obtain ⟨identity, hidentifies, hlookup, -⟩ := h
  obtain ⟨_, hidentifies', hlookup', -⟩ := h'
  rw [hidentifies'.eq hidentifies, hlookup] at hlookup'
  exact Option.some.inj hlookup'

end Deployment

theorem submitAuthorized_contract (H : dep.Hosts calm (dep.ledgerProtocol calm since))
    (hschema : dep.runtime.auditProducerEventSchema c.submission.producerEvent = true) :
    (dep.ledgerProtocol calm since).Contract c (fun _ => True)
      (submitAuthorized dep.runtime (dep.configs c.recorder) c.recorder c.submission c.context
        c.submission.producerEvent)
      fun result w => dep.Outcome c calm (replay since) result (replay w.2) := by
  unfold submitAuthorized
  apply Protocol.Contract.bind (identifyEvent_contract H (fun _ _ _ _ _ _ => trivial)
    (dep.configs c.recorder) c.submission.producerEvent c.context)
  · intro identity
    apply Protocol.Contract.of_pre fun _ _ h => h.2
    intro hidentifies
    have happends : dep.Appends calm c.recorder false c.context.producerAuthority
        c.submission.producerEvent identity := ⟨hidentifies, nofun, hschema⟩
    apply H.observe rfl
    · exact fun _ _ _ _ _ _ => ⟨trivial, hidentifies⟩
    · intro found asked s' hasked _ hserves
      cases found with
      | some existing =>
          apply Protocol.Contract.ofExcept
          intro w hw h
          obtain ⟨-, hstays⟩ := lookup_answered hasked hw h.2 hserves
          have hlookup := hstays existing rfl
          unfold resolveDuplicate
          by_cases hdigest : existing.eventDigest = identity.eventDigest
          · rw [if_neg (by simp [hdigest])]
            refine ⟨?_, nofun, nofun⟩
            rintro entry hentry
            obtain rfl := Except.ok.inj hentry
            exact ⟨identity, hidentifies, hlookup, hdigest⟩
          · rw [if_pos hdigest]
            refine ⟨nofun, ?_, ?_⟩
            · intro error entry _ hbound
              obtain ⟨identity', hidentifies', hlookup', hdigest'⟩ :=
                hbound.mono hw.recorded hw.since
              obtain rfl := hidentifies.eq hidentifies'
              have hsame : existing = entry := Option.some.inj (hlookup.symm.trans hlookup')
              exact absurd (hsame ▸ hdigest') hdigest
            · rintro error herror _ _ _
              cases herror
              exact .inl (.inl ⟨_, rfl, identity, existing, hidentifies, hlookup, hdigest⟩)
      | none =>
          have hfresh : ∀ entry, ¬ dep.Bound c entry (replay since) := by
            intro entry hbound
            obtain ⟨identity', hidentifies', hlookup', -⟩ :=
              hbound.mono hasked.recorded hasked.since
            obtain rfl := hidentifies.eq hidentifies'
            obtain ⟨hfound, -⟩ :=
              lookup_answered hasked hasked (List.prefix_refl _) hserves
            exact absurd (hfound.trans hlookup') nofun
          apply (submitNew_contract H happends).consequence
          · exact fun _ _ _ => trivial
          · intro result w hw h
            refine ⟨?_, ?_, ?_⟩
            · rintro entry rfl
              exact ⟨identity, hidentifies, h.1, h.2⟩
            · exact fun _ entry _ hbound => absurd hbound (hfresh entry)
            · rintro error rfl hcalm hplain hbegun
              have hmatched := (Deployment.begun_replay.mp hbegun).mono hw.since
              rcases h hcalm hplain.noEvidence hplain.epoch with hexpected | ⟨_, hexpected⟩
              · rcases hexpected with hexhausted | ⟨-, ⟨message, herror⟩, hreused⟩ | ⟨hfalse, -⟩
                · exact .inl (.inr hexhausted)
                · obtain ⟨existing, hlookup, hdigest⟩ := hreused
                  exact .inl (.inl ⟨message, herror, identity, existing, hidentifies, hlookup,
                    hdigest⟩)
                · cases hfalse
              · rcases hexpected with hexhausted | ⟨hfalse, -⟩ | ⟨-, hmismatched⟩
                · exact .inl (.inr hexhausted)
                · cases hfalse
                · exact absurd hmismatched (hmatched.not_mismatched hw.recorded)
    · intro e s s' w hserves _ _
      refine ⟨nofun, ?_, ?_⟩
      · rintro error entry herror -
        cases herror
        rcases hserves.1 with ⟨-, hanswer⟩ | ⟨-, hrejected⟩
        · cases hanswer
        · exact .rejected (.of_serves hrejected)
      · rintro error - hcalm
        obtain ⟨_, hok⟩ := hserves.2 hcalm
        cases hok
  · rintro e w _ ⟨-, hcalm, hfailed⟩
    refine ⟨nofun, ?_, fun _ _ h => absurd h hcalm⟩
    rintro error entry herror ⟨identity, hidentifies, -⟩
    cases herror
    rcases hfailed with hrejected | hunidentified
    · exact .rejected hrejected
    · exact absurd hidentifies (hunidentified identity)

theorem authorizeSubmission_contract (H : dep.Hosts calm (dep.ledgerProtocol calm since)) :
    (dep.ledgerProtocol calm since).Contract c (fun _ => True)
      (authorizeSubmission (dep.configs c.recorder) c.recorder c.submission c.context)
      fun result _ =>
        match result with
        | .ok authorized => authorized = false → (dep.configs c.recorder).hasAuthorizer = true
        | .error e => ¬ calm ∧ dep.Rejected e := by
  unfold authorizeSubmission
  by_cases hauthorizer : (dep.configs c.recorder).hasAuthorizer = true
  · rw [if_pos hauthorizer]
    apply Protocol.Contract.ask _ H.guarantee_refl
    intro w asked _ _ hasked _ answer s' hserves
    obtain rfl := hserves.1.unchanged rfl
    refine ⟨asked.2, hasked, H.guarantee_refl _, fun _ _ _ => ?_⟩
    cases answer with
    | ok authorized => exact fun _ => hauthorizer
    | error e =>
        constructor
        · intro hcalm
          obtain ⟨_, hok⟩ := hserves.2 hcalm
          cases hok
        · rcases hserves.1 with ⟨-, _, hanswer⟩ | ⟨-, hrejected⟩
          · cases hanswer
          · exact .of_serves hrejected
  · rw [if_neg hauthorizer]
    exact .pure fun _ _ _ => nofun

theorem submitAuthenticated_contract (H : dep.Hosts calm (dep.ledgerProtocol calm since)) :
    (dep.ledgerProtocol calm since).Contract c (fun _ => True) (dep.code c)
      fun result w => dep.Outcome c calm (replay since) result (replay w.2) := by
  have hchecked : ∀ error, dep.admission c = .error error → ∀ w : AuditWorld D × List (Commit D),
      dep.Outcome c calm (replay since) (.error error) (replay w.2) := by
    intro error hadmission w
    refine ⟨nofun, ?_, ?_⟩
    · rintro _ entry ⟨⟩ -
      exact .checked hadmission
    · rintro _ ⟨⟩ - hplain
      rw [hplain.admitted] at hadmission
      cases hadmission
  unfold Deployment.code submitAuthenticated
  apply Protocol.Contract.check
  · intro _ henvelope
    apply Protocol.Contract.check
    · intro producerEvent hevent
      obtain ⟨hschema, rfl⟩ := parseAuditProducerEvent_eq_ok.mp hevent
      apply Protocol.Contract.check
      · intro _ _
        apply Protocol.Contract.bind (authorizeSubmission_contract H)
        · intro authorized
          cases authorized with
          | true => exact (submitAuthorized_contract H hschema).mono_pre fun _ _ _ => trivial
          | false =>
              apply Protocol.Contract.ofExcept
              intro w _ hauthorizer
              have hdenied : dep.Denied c (.protocol .UNAUTHORIZED_SUBMISSION
                  (js "Audit producer is not authorized for this ledger")) := ⟨hauthorizer rfl, rfl⟩
              refine ⟨nofun, ?_, ?_⟩
              · rintro _ _ ⟨⟩ -
                exact .denied hdenied
              · rintro _ ⟨⟩ _ _ _
                exact .inr hdenied
        · rintro e w _ ⟨hcalm, hrejected⟩
          refine ⟨nofun, ?_, fun _ _ h => absurd h hcalm⟩
          rintro _ _ ⟨⟩ -
          exact .rejected hrejected
      · intro e w herror _ _
        apply hchecked
        simp only [Deployment.admission, henvelope, hevent, herror, bind, Except.bind]
    · intro e w herror _ _
      apply hchecked
      simp only [Deployment.admission, henvelope, herror, bind, Except.bind]
  · intro e w herror _ _
    apply hchecked
    simp only [Deployment.admission, herror, bind, Except.bind]

end KyaOs.Audit
