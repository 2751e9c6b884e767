import KyaOs.Audit.RecorderSolo

/-!
# The ledger of replicas

In every run of any number of replicas over one journal, each ledger epoch is a hash chain
without gaps, a returned entry is committed, and an event submitted again comes to the
same entry. Where ports do their work, no call on a begun epoch reports a journal failure.
-/

namespace KyaOs.Audit

open Js Concurrency Async HashChain

variable {D : Type}

/-- The committed entries of a ledger epoch; two epochs may share a key of the map. -/
def MemoryAuditJournal.committed (journal : MemoryAuditJournal D) (ledger : AuditLedgerRef) :
    List (SignedAuditEntry D) :=
  (journal.snapshot ledger).filter fun entry => entry.core.toAuditLedgerRef = ledger

namespace Deployment

/-- The entry under an idempotency key, the key that of its event. -/
def Keyed (dep : Deployment D) (journal : MemoryAuditJournal D) (ledgerId : JsString)
    (key : Digest) (entry : SignedAuditEntry D) : Prop :=
  journal.getByIdempotencyKey ledgerId key = some entry ∧
    ∃ authority, dep.keyOfEvent ledgerId authority entry.core.event = .ok key

/-- A ledger epoch is a hash chain from the genesis of a replica, each entry committed under
an idempotency key of its own. -/
structure Chained (dep : Deployment D) (journal : MemoryAuditJournal D)
    (ledger : AuditLedgerRef) : Prop where
  sequence : ∀ i (entry : SignedAuditEntry D), (journal.committed ledger)[i]? = some entry →
    entry.core.sequence = i
  genesis : ∀ first, (journal.committed ledger).head? = some first →
    first.core.previousEntryDigest = none ∧ ∃ r now, dep.ledger r = ledger ∧
      first.core.recorder = (dep.configs r).signer ∧
      first.core.event = genesisEvent (dep.configs r) now
  linked : ∀ i (entry next : SignedAuditEntry D), (journal.committed ledger)[i]? = some entry →
    (journal.committed ledger)[i + 1]? = some next →
    next.core.previousEntryDigest = some entry.entryDigest
  attested : ∀ entry ∈ journal.committed ledger, dep.Attested entry
  keys : ∃ keys : List Digest, keys.Nodup ∧
    List.Forall₂ (dep.Keyed journal ledger.ledgerId) keys (journal.committed ledger)

/-- `again` submits the event of `c`, to the same ledger and by the same producer. -/
structure Resubmits (dep : Deployment D) (again c : SubmitCall D) : Prop where
  event : again.submission.producerEvent = c.submission.producerEvent
  producer : again.context.producerAuthority = c.context.producerAuthority
  ledger : (dep.ledger again.recorder).ledgerId = (dep.ledger c.recorder).ledgerId

variable {dep : Deployment D} {log : List (Commit D)} {c : SubmitCall D}

/-- A key of the map holds the entries of one epoch: of this one, or of another. -/
theorem committed_replay (h : Recorded dep.Admits log) (ledger : AuditLedgerRef) :
    (replay log).committed ledger = [] ∨
      ((replay log).committed ledger = (commitsAt log (ledgerKey ledger)).map (·.entry) ∧
        ∀ commit ∈ commitsAt log (ledgerKey ledger), commit.ledger = ledger) := by
  unfold MemoryAuditJournal.committed MemoryAuditJournal.snapshot
  rw [entriesByLedger_replay]
  by_cases hother : ∃ commit ∈ commitsAt log (ledgerKey ledger), commit.ledger = ledger
  · obtain ⟨own, hown, hledger⟩ := hother
    obtain ⟨hownLog, hownKey⟩ := mem_commitsAt.mp hown
    have hsame : ∀ commit ∈ commitsAt log (ledgerKey ledger), commit.ledger = ledger := by
      intro commit hcommit
      obtain ⟨hcommitLog, hkey⟩ := mem_commitsAt.mp hcommit
      rw [sameLedger_of_recorded h hcommitLog hownLog (hkey.trans hownKey.symm), hledger]
    refine .inr ⟨List.filter_eq_self.mpr ?_, hsame⟩
    intro entry hentry
    obtain ⟨commit, hcommit, rfl⟩ := List.mem_map.mp hentry
    rw [decide_eq_true_eq, h.ledger (mem_commitsAt.mp hcommit).1, hsame commit hcommit]
  · refine .inl (List.filter_eq_nil_iff.mpr ?_)
    intro entry hentry hledger
    obtain ⟨commit, hcommit, rfl⟩ := List.mem_map.mp hentry
    rw [decide_eq_true_eq, h.ledger (mem_commitsAt.mp hcommit).1] at hledger
    exact hother ⟨commit, hcommit, hledger⟩

theorem chained_of_recorded (h : Recorded dep.Admits log) (ledger : AuditLedgerRef) :
    dep.Chained (replay log) ledger := by
  have hcomplete := h.complete (ledgerKey ledger)
  rcases committed_replay h ledger with hempty | ⟨hcommitted, hledger⟩
  · constructor
    · simp [hempty]
    · simp [hempty]
    · simp [hempty]
    · simp [hempty]
    · exact ⟨[], .nil, hempty ▸ .nil⟩
  · constructor
    · intro i entry hi
      exact hcomplete.sequence_eq (hcommitted ▸ hi)
    · intro first hfirst
      rw [hcommitted] at hfirst
      have hgenesis := hcomplete.genesis first hfirst
      obtain ⟨commit, hcommit, rfl⟩ := Option.map_eq_some_iff.mp (List.head?_map ▸ hfirst)
      obtain ⟨r, hopened⟩ := openedBy_of_recorded h hcommit
      obtain ⟨now, hevent⟩ := hopened.event
      refine ⟨hgenesis.2, r, now, ?_, hopened.recorder, hevent⟩
      rw [← hopened.ledger, hledger commit (List.mem_of_head? hcommit)]
    · intro i entry next hi hnext
      rw [hcommitted] at hi hnext
      exact hcomplete.previous_eq hi hnext
    · intro entry hentry
      rw [hcommitted] at hentry
      obtain ⟨commit, hcommit, rfl⟩ := List.mem_map.mp hentry
      exact attested_of_recorded h (mem_commitsAt.mp hcommit).1
    · refine ⟨(commitsAt log (ledgerKey ledger)).map (·.key), ?_, ?_⟩
      · apply (List.nodup_map_iff_inj_on (hcomplete.nodup.of_map _)).mpr
        intro commit hcommit other hother hkey
        have hsame : commit.ledger = other.ledger :=
          (hledger commit hcommit).trans (hledger other hother).symm
        have hid : commit.idempotencyKey = other.idempotencyKey := by
          rw [Commit.idempotencyKey, Commit.idempotencyKey, hsame, hkey]
        have hentry := h.entry_eq (mem_commitsAt.mp hcommit).1 (mem_commitsAt.mp hother).1 hid
        cases commit
        cases other
        simp_all
      · rw [hcommitted, List.forall₂_map_left_iff, List.forall₂_map_right_iff, List.forall₂_same]
        intro commit hcommit
        have hmem := (mem_commitsAt.mp hcommit).1
        obtain ⟨_, _, _, _, hadmits⟩ := h.appended hmem
        rw [← hledger commit hcommit]
        exact ⟨h.lookup_of_mem hmem, hadmits.key⟩

/-- A bound entry is committed in its own epoch. -/
theorem Bound.committed (h : Recorded dep.Admits log) {entry : SignedAuditEntry D}
    (hbound : dep.Bound c entry (replay log)) :
    entry ∈ (replay log).committed entry.core.toAuditLedgerRef := by
  obtain ⟨identity, -, hlookup, -⟩ := hbound
  obtain ⟨commit, hcommit, -, rfl⟩ := lookup_mem hlookup
  unfold MemoryAuditJournal.committed MemoryAuditJournal.snapshot
  rw [entriesByLedger_replay, h.ledger hcommit]
  apply List.mem_filter.mpr
  refine ⟨List.mem_map_of_mem (mem_commitsAt.mpr ⟨hcommit, rfl⟩), ?_⟩
  rw [decide_eq_true_eq, h.ledger hcommit]

theorem Resubmits.bound {again : SubmitCall D} (h : dep.Resubmits again c)
    {entry : SignedAuditEntry D} {journal : MemoryAuditJournal D}
    (hbound : dep.Bound c entry journal) : dep.Bound again entry journal := by
  unfold Bound
  rw [h.event, h.producer, h.ledger]
  exact hbound

end Deployment

namespace Deployment

variable (dep : Deployment D)

/-- The replicas where every port does its work, and a journal answers one of its heads. -/
def workingProgram (heads : HeadUse → Option AuditHead → Prop) :
    Program (recorderSetting D) (SubmitCall D) (SignedAuditEntry D) where
  code := dep.code
  serves _ request s answer s' := dep.Serves request s answer s' ∧ Working heads request answer
  environment := dep.Environment

variable {dep} {calm : Prop} {log : List (Commit D)} {c : SubmitCall D}
  {program : Program (recorderSetting D) (SubmitCall D) (SignedAuditEntry D)}

theorem ledgerInv_since {since : List (Commit D)} (w : AuditWorld D × List (Commit D)) :
    (dep.ledgerProtocol calm since).inv w ↔
      (dep.ledgerProtocol calm []).inv w ∧ since <+: w.2 := by
  constructor
  · intro h
    exact ⟨⟨h.journal, List.nil_prefix, h.recorded, h.short, h.recorders, h.clock⟩, h.since⟩
  · rintro ⟨h, hsince⟩
    exact ⟨h.journal, hsince, h.recorded, h.short, h.recorders, h.clock⟩

/-- What a call guarantees and comes to, in a program that answers as the protocol says. -/
theorem ledger_discipline (hregular : calm → dep.Regular) (hcode : program.code = dep.code)
    (hserves : ∀ c request s answer s', program.serves c request s answer s' →
      dep.Serves request s answer s' ∧ (calm → Steady request answer))
    (henvironment : ∀ s s', program.environment s s' → dep.Environment s s') :
    Discipline program (dep.ledgerProtocol calm [])
      fun c born result w => dep.Outcome c calm born.journal result (replay w.2) where
  rely_refl _ w := List.prefix_refl w.2
  rely_trans _ _ _ _ h h' := h.trans h'
  serves := hserves
  environment w s' hw hacts := by
    obtain ⟨hjournal, hrecorders, hclock⟩ := henvironment _ _ hacts
    refine ⟨w.2, ⟨hjournal.trans hw.journal, hw.since, hw.recorded, hw.short, ?_, hclock⟩,
      fun _ => List.prefix_refl _⟩
    exact hrecorders ▸ hw.recorders
  fresh_stable _ _ _ _ _ _ := trivial
  code c born hborn _ w hw hlog := by
    have hsince : (dep.ledgerProtocol calm born.2).Contract c (fun _ => True) (dep.code c)
        fun result w => dep.Outcome c calm (replay born.2) result (replay w.2) :=
      submitAuthenticated_contract (ledgerProtocol_hosts hregular)
    have hcontract : (dep.ledgerProtocol calm []).Contract c (fun w => True ∧ born.2 <+: w.2)
        (dep.code c) fun result w => dep.Outcome c calm (replay born.2) result (replay w.2) ∧
          born.2 <+: w.2 :=
      hsince.of_narrower rfl rfl ledgerInv_since fun _ _ h h' => h.trans h'
    rw [hcode, hborn.journal]
    exact (hcontract.mono_post fun _ _ _ h => h.1) w w.1 w.2 hw
      (fun _ _ => List.prefix_refl _) ⟨trivial, hlog⟩
  post_stable c born result w w' hpost hw hlog := hpost.mono hw.recorded hlog

/-- The replicas keep their discipline from the start. -/
theorem sound_of_starts {s : AuditWorld D} (hstarts : dep.Starts log s)
    (hrecorded : Recorded dep.Admits log)
    (hshort : calm → ∀ commit ∈ log, commit.entry.core.sequence + 1 < maxSequence) :
    (Program.initial s).Sound (α := SignedAuditEntry D) (dep.ledgerProtocol calm [])
      fun c born result w => dep.Outcome c calm born.journal result (replay w.2) := by
  apply sound_initial (g := log) _ fun _ => trivial
  refine ⟨hstarts.journal, List.nil_prefix, hrecorded, hshort, ?_, hstarts.clock⟩
  intro r
  rw [hstarts.recorders r]
  exact ⟨.of_none, .of_none, nofun, nofun⟩

end Deployment

open Deployment in
/-- In every run of replicas over one journal, each ledger epoch is a hash chain without gaps,
a returned entry is committed, and an event submitted again comes to the same entry. -/
theorem replicas_keep_ledger (dep : Deployment D) {s : AuditWorld D} (hstarts : dep.Starts [] s)
    {config : Config (recorderSetting D) (SubmitCall D) (SignedAuditEntry D)}
    (hreaches : dep.program.Reaches (Program.initial s) config) :
    (∀ ledger, dep.Chained config.state.journal ledger) ∧
      ∀ c born entry, config.calls c = some ⟨born, .finished (.ok entry)⟩ →
        dep.Bound c entry config.state.journal ∧
          entry ∈ config.state.journal.committed entry.core.toAuditLedgerRef ∧
          ∀ again config' born' result, dep.Resubmits again c → config.calls again = none →
            dep.program.Reaches config config' →
            config'.calls again = some ⟨born', .finished result⟩ →
            result = .ok entry ∨ ∃ error, result = .error error ∧ dep.Refused again error := by
  have hdiscipline : Discipline dep.program (dep.ledgerProtocol False [])
      fun c born result w => dep.Outcome c False born.journal result (replay w.2) :=
    ledger_discipline nofun rfl (fun _ _ _ _ _ h => ⟨h, nofun⟩) fun _ _ h => h
  have hinitial : (Program.initial s).Sound (dep.ledgerProtocol False [])
      fun c born result w => dep.Outcome c False born.journal result (replay w.2) :=
    sound_of_starts hstarts .nil nofun
  have hbound : ∀ config', dep.program.Reaches (Program.initial s) config' → ∀ c born entry,
      config'.calls c = some ⟨born, .finished (.ok entry)⟩ →
      dep.Bound c entry config'.state.journal := by
    intro config' hreaches' c born entry hc
    obtain ⟨log, hinv, -, hcalls⟩ := hreaches'.sound hdiscipline hinitial
    rw [hinv.journal]
    exact (hcalls c _ hc).bound entry rfl
  obtain ⟨log, hinv, -, hcalls⟩ := hreaches.sound hdiscipline hinitial
  constructor
  · intro ledger
    rw [hinv.journal]
    exact chained_of_recorded hinv.recorded ledger
  · intro c born entry hc
    have hentry := hbound config hreaches c born entry hc
    refine ⟨hentry, ?_, ?_⟩
    · rw [hinv.journal] at hentry ⊢
      exact hentry.committed hinv.recorded
    · intro again config' born' result hagain hnone hlater hfinished
      obtain ⟨made, hmade, hborn⟩ := hlater.made hnone hfinished
      -- the first call is still finished when the second is made
      have hstands := hagain.bound
        (hbound made (hreaches.trans hmade) c born entry (hmade.finished hc))
      rw [hborn] at hstands
      obtain ⟨log', hinv', -, hcalls'⟩ := (hreaches.trans hlater).sound hdiscipline hinitial
      have houtcome := hcalls' again _ hfinished
      cases result with
      | ok found =>
          have hfound := hbound config' (hreaches.trans hlater) again born' found hfinished
          have hentry' := hbound config' (hreaches.trans hlater) c born entry (hlater.finished hc)
          rw [hfound.eq (hagain.bound hentry')]
          exact .inl rfl
      | error error => exact .inr ⟨error, rfl, houtcome.again error entry rfl hstands⟩

section Opened

open Deployment

/-- What a replica knows once it has opened its epoch. -/
def openedWorld : AuditWorld SampleDouble :=
  let begins := (sampleWorld []).setRecorder 0 RecorderState.beginInitialization
  (({ begins with journal := replay [sampleGenesis] } : AuditWorld SampleDouble).setRecorder 0
    fun recorder => recorder.commit sampleGenesis.head).setRecorder 0
      fun recorder => recorder.endInitialization 0 (.ok sampleGenesis.entry)

theorem program_answers (dep : Deployment D) (c : SubmitCall D) :
    dep.Answers (fun _ _ => True) (dep.program.serves c) :=
  fun _ _ _ _ _ _ hserved _ => .inl hserved

/-- The first submission opens the epoch. -/
theorem ensureInitialized_sample (c : SubmitCall SampleDouble) :
    (ensureInitialized sampleDeployment.runtime (sampleDeployment.configs 0) 0).Leads
      (sampleDeployment.program.serves c) (sampleWorld []) openedWorld
      (.finished (.ok sampleGenesis.entry)) := by
  have A := program_answers sampleDeployment c
  have hgenesis : sampleDeployment.Identifies sampleConfig.ledgerId sampleConfig.signer.did
      (genesisEvent sampleConfig .zero)
      (sampleIdentity (js "did:web:recorder") (genesisEvent sampleConfig .zero)) :=
    sampleIdentity_identifies canonical_genesis canonical_sample.2.1
  have hbuild : ∀ s' : AuditWorld SampleDouble, s'.clock = (sampleWorld []).clock →
      (buildCandidate sampleDeployment.runtime (sampleDeployment.configs 0) 0
        (genesisEvent sampleConfig .zero) (sampleDigest .event (genesisEvent sampleConfig .zero))
        none true).Leads (sampleDeployment.program.serves c) s' s'
        (.finished (.ok sampleGenesis.entry)) := by
    intro s' hclock
    exact sampleEntry_built A canonical_genesis (by decide +kernel) (by simp) rfl
      (congrFun hclock 0)
  exact ensureInitialized_opens A rfl rfl rfl (fun _ => trivial)
    (parseAuditProducerEvent_eq_ok.mpr ⟨canonical_genesis, rfl⟩) hgenesis rfl rfl hbuild
    (.inl ⟨rfl, .inl rfl⟩)

/-- The epoch is opened and the event committed after its genesis. -/
theorem firstSubmission_leads : ∃ committed : AuditWorld SampleDouble,
    (sampleDeployment.code (sampleSubmission 0 (js "first"))).Leads
      (sampleDeployment.program.serves (sampleSubmission 0 (js "first"))) (sampleWorld []) committed
      (.finished (.ok (sampleCommit (js "first")).entry)) ∧
    committed.journal = replay [sampleGenesis, sampleCommit (js "first")] := by
  have A := program_answers sampleDeployment (sampleSubmission 0 (js "first"))
  have hfirst := sampleFresh_first
  have hcommitted : ((openedWorld.setRecorder 0 fun recorder =>
      recorder.holdEvidence []).recorders 0).committedHead = some sampleGenesis.head := rfl
  have hattempts := sampleAttempt_pauses A 256 hfirst hcommitted (.inr (.inl rfl)) trivial rfl
    (hasLoneSurrogate_sampleDigest _ _) rfl
    (concludeAppend_appended
      (s := { openedWorld.setRecorder 0 (fun recorder => recorder.holdEvidence []) with
        journal := replay [sampleGenesis, sampleCommit (js "first")] })
      (sampleCommit (js "first")).entry)
  have hpauses := submitAuthenticated_pauses (c := sampleSubmission 0 (js "first")) A
    (sampleCall_admission hfirst.event (by decide) rfl rfl) rfl
    (sampleIdentity_identifies hfirst.event hfirst.source) rfl rfl rfl
    (ensureInitialized_sample _) rfl hfirst.lookup hattempts
  exact ⟨_, hpauses.leads (.inl (served_compareAndAppend (sampleCommit_appends hfirst))), rfl⟩

/-- The genesis and an event are committed, and the event is submitted again. -/
theorem replicas_keep_ledger_resubmitted :
    ∃ (config config' : Config (recorderSetting SampleDouble) (SubmitCall SampleDouble)
        (SignedAuditEntry SampleDouble)) (born born' : AuditWorld SampleDouble)
      (result : Except AuditError (SignedAuditEntry SampleDouble)),
      sampleDeployment.program.Reaches (Program.initial (sampleWorld [])) config ∧
      config.state.journal = replay [sampleGenesis, sampleCommit (js "first")] ∧
      config.calls (sampleSubmission 0 (js "first")) =
        some ⟨born, .finished (.ok (sampleCommit (js "first")).entry)⟩ ∧
      sampleDeployment.program.Reaches config config' ∧
      config'.calls (sampleSubmission 1 (js "first")) = some ⟨born', .finished result⟩ ∧
      sampleDeployment.Chained config.state.journal sampleConfig.toAuditLedgerRef ∧
      sampleDeployment.Bound (sampleSubmission 0 (js "first")) (sampleCommit (js "first")).entry
        config.state.journal ∧
      (result = .ok (sampleCommit (js "first")).entry ∨ ∃ error, result = .error error ∧
        sampleDeployment.Refused (sampleSubmission 1 (js "first")) error) := by
  have hfirst := sampleFresh_first
  obtain ⟨committed, hleads, hjournal⟩ := firstSubmission_leads
  have hinitial : (Program.initial (sampleWorld []) : Config (recorderSetting SampleDouble)
      (SubmitCall SampleDouble) (SignedAuditEntry SampleDouble)).state = sampleWorld [] := rfl
  rw [← hinitial] at hleads
  obtain ⟨config, hreaches, hmoves⟩ := hleads.reaches_called rfl
  have hstate : config.state.journal = replay [sampleGenesis, sampleCommit (js "first")] := by
    rw [hmoves.state, hjournal]
  have hmem : sampleCommit (js "first") ∈ [sampleGenesis, sampleCommit (js "first")] :=
    List.mem_cons_of_mem _ (List.mem_singleton_self _)
  have hfound : config.state.journal.getByIdempotencyKey (js "ledger")
      (sampleCommit (js "first")).key = some (sampleCommit (js "first")).entry := by
    rw [hstate]
    exact (sampleCommit_recorded hfirst).lookup_of_mem hmem
  have hagain : (sampleDeployment.code (sampleSubmission 1 (js "first"))).Leads
      (sampleDeployment.program.serves (sampleSubmission 1 (js "first"))) config.state config.state
      (.finished (resolveDuplicate (sampleCommit (js "first")).entry
        (sampleIdentity (js "did:web:producer") (sampleEvent (js "first") [])).eventDigest)) :=
    submitAuthenticated_leads (sampleCall_admission hfirst.event (by decide) rfl rfl) rfl
      (submitAuthorized_duplicate (program_answers sampleDeployment _)
        (sampleIdentity_identifies hfirst.event hfirst.source)
        (.inl ⟨rfl, congrArg Except.ok hfound.symm⟩))
  have hne : sampleSubmission 1 (js "first") ≠ sampleSubmission 0 (js "first") := by
    intro hsame
    cases congrArg SubmitCall.number hsame
  obtain ⟨config', hreaches', hmoves'⟩ := hagain.reaches_called (hmoves.others _ hne)
  obtain ⟨hchained, hcalls⟩ :=
    replicas_keep_ledger sampleDeployment (sampleWorld_starts []) hreaches
  obtain ⟨hbound, -, hresubmitted⟩ := hcalls _ _ _ hmoves.moved
  exact ⟨config, config', _, _, _, hreaches, hstate, hmoves.moved, hreaches', hmoves'.moved,
    hchained _, hbound, hresubmitted _ _ _ _ ⟨rfl, rfl, rfl⟩ (hmoves.others _ hne) hreaches'
      hmoves'.moved⟩

end Opened

open Deployment in
/-- In every run of replicas whose ports work, on a journal that knows the positions it is
asked for: a call without evidence on an epoch begun before returns the entry bound to its
event, or ends in a conflict. -/
theorem replicas_raise_no_false_alarm (dep : Deployment D) (hregular : dep.Regular)
    {log : List (Commit D)} {s : AuditWorld D} (hstarts : dep.Starts log s)
    (hrecorded : Recorded dep.Admits log)
    (hshort : ∀ commit ∈ log, commit.entry.core.sequence + 1 < maxSequence)
    {config : Config (recorderSetting D) (SubmitCall D) (SignedAuditEntry D)}
    (hreaches : (dep.workingProgram positionKnown).Reaches (Program.initial s) config)
    {c : SubmitCall D} {born : AuditWorld D} {result : Except AuditError (SignedAuditEntry D)}
    (hfinished : config.calls c = some ⟨born, .finished result⟩) (hplain : dep.Plain c)
    (hbegun : dep.Begun c.recorder born.journal) :
    (∃ entry, result = .ok entry ∧ dep.Bound c entry config.state.journal) ∨
      ∃ error, result = .error error ∧
        (dep.Contended c error config.state.journal ∨ dep.Denied c error) := by
  have hdiscipline : Discipline (dep.workingProgram positionKnown) (dep.ledgerProtocol True [])
      fun c born result w => dep.Outcome c True born.journal result (replay w.2) :=
    ledger_discipline (fun _ => hregular) rfl (fun _ _ _ _ _ h => ⟨h.1, fun _ => h.2⟩)
      fun _ _ h => h
  have hinitial : (Program.initial s).Sound (dep.ledgerProtocol True [])
      fun c born result w => dep.Outcome c True born.journal result (replay w.2) :=
    sound_of_starts hstarts hrecorded fun _ => hshort
  obtain ⟨log, hinv, -, hcalls⟩ := hreaches.sound hdiscipline hinitial
  have houtcome := hcalls c _ hfinished
  rw [hinv.journal]
  cases result with
  | ok entry => exact .inl ⟨entry, rfl, houtcome.bound entry rfl⟩
  | error error => exact .inr ⟨error, rfl, houtcome.alarm error rfl trivial hplain hbegun⟩

section Sample

def producerCall : SubmitCall SampleDouble :=
  sampleCall 0 0 (sampleEvent (js "event") []) (js "did:web:producer") []

theorem workingProgram_answers (dep : Deployment D) (heads : HeadUse → Option AuditHead → Prop)
    (c : SubmitCall D) : dep.Answers heads ((dep.workingProgram heads).serves c) :=
  fun _ _ _ _ _ _ hserved hworks => ⟨.inl hserved, hworks⟩

theorem producerCall_plain : sampleDeployment.Plain producerCall where
  admitted := sampleCall_admission (by decide +kernel) (by decide) rfl rfl
  noEvidence := rfl
  epoch := rfl

theorem sampleCommit_short : ∀ commit ∈ [sampleGenesis, sampleCommit (js "first")],
    commit.entry.core.sequence + 1 < maxSequence := by
  simp only [List.forall_mem_cons, List.not_mem_nil, false_implies, implies_true, and_true]
  decide

theorem secondSubmission_plain : sampleDeployment.Plain (sampleSubmission 0 (js "second")) where
  admitted := sampleCall_admission sampleFresh_second.event (by decide) rfl rfl
  noEvidence := rfl
  epoch := rfl

/-- What the replica knows before its first attempt, and after it. -/
def staleWorld : AuditWorld SampleDouble :=
  (sampleWorld [sampleGenesis, sampleCommit (js "first")]).setRecorder 0
    fun recorder => recorder.holdEvidence []

def reportedWorld : AuditWorld SampleDouble :=
  staleWorld.setRecorder 0 fun recorder => recorder.report (some (sampleCommit (js "first")).head)

/-- An append after the genesis, where another entry is after it, costs a conflict; an append
after that entry is taken. -/
theorem secondSubmission_leads : ∃ committed : AuditWorld SampleDouble,
    (sampleDeployment.code (sampleSubmission 0 (js "second"))).Leads
      ((sampleDeployment.workingProgram Deployment.positionKnown).serves
        (sampleSubmission 0 (js "second")))
      (sampleWorld [sampleGenesis, sampleCommit (js "first")]) committed
      (.finished (.ok sampleSecond.entry)) := by
  have A := workingProgram_answers sampleDeployment Deployment.positionKnown
    (sampleSubmission 0 (js "second"))
  have hsecond := sampleFresh_second
  have hlookup := sampleCommit_lookup sampleFresh_first hsecond (by decide)
  have hinitialization : Deployment.positionKnown .initialization
      ((replay [sampleGenesis, sampleCommit (js "first")]).getHead
          sampleConfig.toAuditLedgerRef) := by
    intro huse
    cases huse
  -- the head of the genesis is read, though the journal has gone past it
  have hstale : (replay [sampleGenesis, sampleCommit (js "first")]).EarlierHead
      sampleConfig.toAuditLedgerRef (some sampleGenesis.head) := by
    refine .inr (.inr ⟨sampleGenesis.entry, ?_, rfl⟩)
    rw [MemoryAuditJournal.snapshot, entriesByLedger_replay]
    exact List.mem_cons_self
  have hconflicts : (replay [sampleGenesis, sampleCommit (js "first")]).compareAndAppend
      sampleConfig.toAuditLedgerRef (some sampleGenesis.head)
      (sampleEntry (sampleEvent (js "second") []) (some sampleGenesis.head))
      (sampleCommit (js "second")).key =
        (.headConflict (some (sampleCommit (js "first")).head),
          replay [sampleGenesis, sampleCommit (js "first")]) :=
    compareAndAppend_stale hlookup rfl
  have hretried : (replay [sampleGenesis, sampleCommit (js "first")]).compareAndAppend
      sampleConfig.toAuditLedgerRef (some (sampleCommit (js "first")).head) sampleSecond.entry
      (sampleCommit (js "second")).key = (.appended sampleSecond.entry, _) :=
    compareAndAppend_getHead hlookup (headsEqual_iff.mpr rfl)
  generalize (replay [sampleGenesis, sampleCommit (js "first")]).append _ _ _ = grown at hretried
  have hknown : ∀ head : AuditHead, Deployment.positionKnown (.position false none) (some head) :=
    fun head _ => Option.some_ne_none head
  have hagain := sampleAttempt_pauses A 255 hsecond (s := reportedWorld) rfl (.inr (.inl rfl))
    (hknown _) rfl (hasLoneSurrogate_sampleDigest _ _) rfl
    (concludeAppend_appended (s := { reportedWorld with journal := grown }) sampleSecond.entry)
  have hretry := hagain.leads ⟨.inl (Deployment.served_compareAndAppend hretried), _, rfl, by
    rintro _ ⟨⟩
    decide⟩
  have hmoved : sameHead (some sampleGenesis.head) (some (sampleCommit (js "first")).head) =
      false := by
    refine decide_eq_false fun hsame => ?_
    have hsequence : 0 = 1 := hsame.2
    exact absurd hsequence Nat.zero_ne_one
  have hregressed : assertNoRegression (some (sampleCommit (js "first")).head) none none = .ok () :=
    rfl
  have hattempts := sampleAttempt_pauses A 256 hsecond (s := staleWorld) rfl hstale (hknown _) rfl
    (hasLoneSurrogate_sampleDigest _ _) rfl (concludeAppend_headConflict hregressed hmoved hretry)
  have hpauses := sampleSubmission_attempts A 0 hsecond rfl (List.prefix_append _ _) hlookup
    hinitialization hattempts
  exact ⟨_, hpauses.leads ⟨.inl (Deployment.served_compareAndAppend hconflicts), _, rfl,
    by rintro _ ⟨⟩⟩⟩

/-- An event read against a stale head is appended after a conflict. -/
theorem replicas_raise_no_false_alarm_retried : ∃ (config : Config (recorderSetting SampleDouble)
      (SubmitCall SampleDouble) (SignedAuditEntry SampleDouble)) (born : AuditWorld SampleDouble)
      (result : Except AuditError (SignedAuditEntry SampleDouble)),
    config.calls (sampleSubmission 0 (js "second")) = some ⟨born, .finished result⟩ ∧
      result = .ok sampleSecond.entry ∧
      ((∃ entry, result = .ok entry ∧
          sampleDeployment.Bound (sampleSubmission 0 (js "second")) entry config.state.journal) ∨
        ∃ error, result = .error error ∧
          (sampleDeployment.Contended (sampleSubmission 0 (js "second")) error
              config.state.journal ∨
            sampleDeployment.Denied (sampleSubmission 0 (js "second")) error)) := by
  obtain ⟨committed, hleads⟩ := secondSubmission_leads
  obtain ⟨config, hreaches, -, hfinished⟩ := hleads.run
  exact ⟨config, _, _, hfinished, rfl, replicas_raise_no_false_alarm sampleDeployment
    sampleDeployment_regular (sampleWorld_starts _) (sampleCommit_recorded sampleFresh_first)
    sampleCommit_short hreaches hfinished secondSubmission_plain
    (sampleLog_begun 0 (List.prefix_append _ _))⟩

/-- A replica that has committed nothing is told `null` for the head of an epoch that is
begun: it takes the event for a genesis and reports a journal failure. -/
theorem staleHead_raises_alarm : sampleDeployment.Regular ∧
    sampleDeployment.Starts [sampleGenesis] (sampleWorld [sampleGenesis]) ∧
    Recorded sampleDeployment.Admits [sampleGenesis] ∧
    sampleDeployment.Plain producerCall ∧
    sampleDeployment.Begun producerCall.recorder (sampleWorld [sampleGenesis]).journal ∧
    ∃ config : Config (recorderSetting SampleDouble) (SubmitCall SampleDouble)
        (SignedAuditEntry SampleDouble),
      (sampleDeployment.workingProgram fun _ _ => True).Reaches
          (Program.initial (sampleWorld [sampleGenesis])) config ∧
        config.calls producerCall = some ⟨sampleWorld [sampleGenesis], .finished (.error
          (.protocol .JOURNAL_FAILURE (js "Producer event cannot replace genesis")))⟩ := by
  refine ⟨sampleDeployment_regular, sampleWorld_starts _, sampleGenesis_recorded,
    producerCall_plain, sampleGenesis_begun 0, ?_⟩
  have A := workingProgram_answers sampleDeployment (fun _ _ => True) producerCall
  have hidentifies : sampleDeployment.Identifies
      (sampleDeployment.configs producerCall.recorder).ledgerId
      producerCall.context.producerAuthority producerCall.submission.producerEvent
      (sampleIdentity (js "did:web:producer") (sampleEvent (js "event") [])) :=
    sampleIdentity_identifies (by decide +kernel) (by decide +kernel)
  have hlookup : (sampleWorld [sampleGenesis]).journal.getByIdempotencyKey
      (sampleDeployment.configs producerCall.recorder).ledgerId
      (sampleIdentity (js "did:web:producer") (sampleEvent (js "event") [])).idempotencyKey =
        none :=
    sampleGenesis_lookup (sampleKey_ne (by decide +kernel) (by decide +kernel) (by decide +kernel))
  have hheld : ((sampleWorld [sampleGenesis]).setRecorder producerCall.recorder
      fun recorder => recorder.holdEvidence []).journal.getByIdempotencyKey
      (sampleDeployment.configs producerCall.recorder).ledgerId
      (sampleIdentity (js "did:web:producer") (sampleEvent (js "event") [])).idempotencyKey =
        none := hlookup
  have hnew : (submitNew sampleDeployment.runtime (sampleDeployment.configs producerCall.recorder)
      producerCall.recorder producerCall.submission producerCall.submission.producerEvent _).Leads
      _ (sampleWorld [sampleGenesis]) _ _ :=
    submitNew_leads A rfl (sampleGenesis_begun 0) trivial rfl rfl
      (appendIdentified_leads A hheld rfl (.inl rfl) trivial appendAt_null)
  obtain ⟨config, hreaches, -, hfinished⟩ := Leads.run (submitAuthenticated_leads
    producerCall_plain.admitted rfl (submitAuthorized_new A hidentifies hlookup hnew))
  exact ⟨config, hreaches, hfinished⟩

end Sample

end KyaOs.Audit
