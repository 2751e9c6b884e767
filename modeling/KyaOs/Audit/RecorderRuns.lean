import KyaOs.Audit.JournalLog
import KyaOs.Audit.Recorder

/-!
# Recorder replicas at work

Any number of replicas, each with its configuration, over one journal and one evidence
store. Any port may reject a request, an append may be reported as failed after it took
effect, and `getHead` may answer any earlier head.
-/

namespace KyaOs.Audit

open Js Concurrency HashChain

variable {D : Type}

structure Deployment (D : Type) where
  runtime : AuditRuntime D
  configs : Nat → AuditRecorderServiceConfig D
  /-- The errors with which a port may reject a request. -/
  rejects : AuditRequest D → AuditError → Prop
  /-- The times a clock may show. -/
  times : D → Prop

/-- A head of the ledger now or at some time before, or `null`. -/
def MemoryAuditJournal.EarlierHead (journal : MemoryAuditJournal D) (ledger : AuditLedgerRef)
    (head : Option AuditHead) : Prop :=
  head = none ∨ head = journal.getHead ledger ∨
    ∃ entry ∈ journal.snapshot ledger, head = some entry.head

/-- The requests that await a port, and not a promise of the recorder's own. -/
def AuditRequest.asksPort : AuditRequest D → Bool
  | .initialized .. => false
  | .disposed .. => false
  | _ => true

namespace Deployment

variable (dep : Deployment D)

/-- What a request comes to where it is not rejected. -/
def served : (request : AuditRequest D) → AuditWorld D →
    Except AuditError request.Answer → AuditWorld D → Prop
  | .authorize .., s, answer, s' => s' = s ∧ ∃ verdict, answer = .ok verdict
  | .hash domain value, s, answer, s' => s' = s ∧
      answer = orOther (hashAuditValue dep.runtime.numbers dep.runtime.sha256 domain value)
  | .sign .., s, answer, s' => s' = s ∧ ∃ jws, answer = .ok jws
  | .getByIdempotencyKey ledgerId key, s, answer, s' => s' = s ∧
      answer = .ok (s.journal.getByIdempotencyKey ledgerId key)
  | .getHead ledger _, s, answer, s' => s' = s ∧
      ∃ head, s.journal.EarlierHead ledger head ∧ answer = .ok head
  | .readFirst ledger, s, answer, s' => s' = s ∧
      answer = .ok (s.journal.readRange ledger none (some 1)).head?
  | .verifyAndSeal _, s, answer, s' => s' = s ∧ ∃ verdict, answer = .ok verdict
  | .compareAndAppend ledger expectedHead entry key, s, answer, s' =>
      let result := s.journal.compareAndAppend ledger expectedHead entry key
      s' = { s with journal := result.2 } ∧ (answer = .ok result.1 ∨
        -- the answer is lost after the append
        ∃ error, dep.rejects (.compareAndAppend ledger expectedHead entry key) error ∧
          answer = .error error)
  | .initialized recorder promise, s, answer, s' => s' = s ∧
      (s.recorders recorder).settled promise = some answer
  | .has ref, s, answer, s' => s' = s ∧ answer = .ok (s.evidence.has ref)
  | .putIfAbsent input, s, answer, s' =>
      let result := s.evidence.putIfAbsent dep.runtime.sha256 input
      answer = result.1 ∧ s' = { s with evidence := result.2 }
  | .disposed result, s, answer, s' => s' = s ∧ answer = result

/-- A request a port rejects. -/
def MayReject (request : AuditRequest D) (error : AuditError) : Prop :=
  request.asksPort = true ∧ dep.rejects request error

def Serves (request : AuditRequest D) (s : AuditWorld D)
    (answer : Except AuditError request.Answer) (s' : AuditWorld D) : Prop :=
  dep.served request s answer s' ∨
    s' = s ∧ ∃ error, dep.MayReject request error ∧ answer = .error error

/-- An error some port rejects with. -/
def Rejected (error : AuditError) : Prop := ∃ request, dep.rejects request error

def code (call : SubmitCall D) : RecorderM D (SignedAuditEntry D) :=
  submitAuthenticated dep.runtime (dep.configs call.recorder) call.recorder call.submission
    call.context

/-- Time passes, and whoever else may change the evidence store does. -/
def Environment (s s' : AuditWorld D) : Prop :=
  s'.journal = s.journal ∧ s'.recorders = s.recorders ∧ ∀ r, dep.times (s'.clock r)

def program : Program (recorderSetting D) (SubmitCall D) (SignedAuditEntry D) where
  code := dep.code
  serves _ := dep.Serves
  environment := dep.Environment

/-- Nothing submitted yet. -/
structure Starts (log : List (Commit D)) (s : AuditWorld D) : Prop where
  journal : s.journal = replay log
  recorders : ∀ r, s.recorders r = {}
  clock : ∀ r, dep.times (s.clock r)

def digestOfEvent (event : AuditProducerEvent D) : Except Error Digest :=
  digestAuditEvent dep.runtime.numbers dep.runtime.sha256 event

/-- The idempotency key of an event, from the producer that submits it. -/
def keyOfEvent (ledgerId producerAuthority : JsString) (event : AuditProducerEvent D) :
    Except Error Digest :=
  hashAuditValue dep.runtime.numbers dep.runtime.sha256 .idempotency
    (sourceIdentity ledgerId producerAuthority event)

end Deployment

/-- The requests that change nothing. -/
def AuditRequest.reads : AuditRequest D → Bool
  | .compareAndAppend .. => false
  | .putIfAbsent .. => false
  | _ => true

theorem Deployment.Rejected.of_serves {dep : Deployment D} {request : AuditRequest D}
    {e : AuditError} (h : ∃ error, dep.MayReject request error ∧
      (.error e : Except AuditError request.Answer) = .error error) : dep.Rejected e := by
  obtain ⟨error, hrejects, hsame⟩ := h
  cases hsame
  exact ⟨request, hrejects.2⟩

theorem Deployment.Serves.unchanged {dep : Deployment D} {request : AuditRequest D}
    {s s' : AuditWorld D} {answer : Except AuditError request.Answer}
    (h : dep.Serves request s answer s') (hreads : request.reads = true) : s' = s := by
  rcases h with h | h
  · cases request <;> first | exact h.1 | cases hreads
  · exact h.1

namespace Deployment

variable (dep : Deployment D)

/-- The ledger epoch of replica `r`. -/
def ledger (r : Nat) : AuditLedgerRef := (dep.configs r).toAuditLedgerRef

/-- The digests an entry carries are those of its content. -/
structure Attested (entry : SignedAuditEntry D) : Prop where
  event : dep.digestOfEvent entry.core.event = .ok entry.eventDigest
  coreEvent : entry.core.eventDigest = entry.eventDigest
  entry : digestAuditEntry dep.runtime.numbers dep.runtime.sha256 entry.core = .ok entry.entryDigest

/-- A genesis of replica `r`. -/
structure OpenedBy (r : Nat) (commit : Commit D) : Prop where
  ledger : commit.ledger = dep.ledger r
  recorder : commit.entry.core.recorder = (dep.configs r).signer
  event : ∃ now, commit.entry.core.event = genesisEvent (dep.configs r) now
  key : dep.keyOfEvent commit.ledger.ledgerId (dep.configs r).signer.did commit.entry.core.event =
    .ok commit.key

/-- What replicas commit, past what the journal checks. -/
structure Admits (log : List (Commit D)) (commit : Commit D) : Prop where
  attested : dep.Attested commit.entry
  key : ∃ authority,
    dep.keyOfEvent commit.ledger.ledgerId authority commit.entry.core.event = .ok commit.key
  genesis : commitsAt log commit.ledgerKey = [] → ∃ r, dep.OpenedBy r commit
  sameLedger : ∀ last ∈ (commitsAt log commit.ledgerKey).getLast?, last.ledger = commit.ledger

/-- The epoch of replica `r` has its genesis. -/
def Opened (r : Nat) (log : List (Commit D)) : Prop :=
  ∃ commit ∈ log, commit.ledger = dep.ledger r

variable {dep} {log log' : List (Commit D)} {commit : Commit D} {r : Nat}

theorem Opened.mono (h : dep.Opened r log) (hlog : log <+: log') : dep.Opened r log' := by
  obtain ⟨commit, hcommit, hledger⟩ := h
  exact ⟨commit, hlog.subset hcommit, hledger⟩

/-- One key of `entriesByLedger` holds one ledger epoch. -/
theorem sameLedger_of_recorded (h : Recorded dep.Admits log) {other : Commit D}
    (hcommit : commit ∈ log) (hother : other ∈ log) (hkey : commit.ledgerKey = other.ledgerKey) :
    commit.ledger = other.ledger := by
  induction h generalizing commit other with
  | nil => simp at hcommit
  | @concat log last hrecorded _ hadmits ih =>
      have hlast : ∀ commit ∈ log, commit.ledgerKey = last.ledgerKey →
          commit.ledger = last.ledger := by
        intro commit hcommit hkey
        have hat : commit ∈ commitsAt log last.ledgerKey := mem_commitsAt.mpr ⟨hcommit, hkey⟩
        obtain ⟨prior, hprior⟩ := Option.ne_none_iff_exists'.mp
          (mt List.getLast?_eq_none_iff.mp (List.ne_nil_of_mem hat))
        obtain ⟨hpriorLog, hpriorKey⟩ := mem_commitsAt.mp (List.mem_of_getLast? hprior)
        rw [ih hcommit hpriorLog (hkey.trans hpriorKey.symm)]
        exact hadmits.sameLedger prior hprior
      simp only [List.mem_append, List.mem_singleton] at hcommit hother
      rcases hcommit with hcommit | rfl
      · rcases hother with hother | rfl
        · exact ih hcommit hother hkey
        · exact hlast commit hcommit hkey
      · rcases hother with hother | rfl
        · exact (hlast other hother hkey.symm).symm
        · rfl

theorem attested_of_recorded (h : Recorded dep.Admits log) (hcommit : commit ∈ log) :
    dep.Attested commit.entry := by
  obtain ⟨_, _, _, _, hadmits⟩ := h.appended hcommit
  exact hadmits.attested

/-- The first commit under a key is a genesis. -/
theorem openedBy_of_recorded (h : Recorded dep.Admits log) {key : JsString}
    (hfirst : (commitsAt log key).head? = some commit) : ∃ r, dep.OpenedBy r commit := by
  induction h with
  | nil => simp at hfirst
  | @concat log last _ _ hadmits ih =>
      by_cases hempty : commitsAt log key = []
      · rw [commitsAt_concat, hempty] at hfirst
        by_cases hkey : last.ledgerKey = key
        · simp only [hkey, if_true, List.nil_append, List.head?_cons, Option.some.injEq] at hfirst
          subst hfirst hkey
          exact hadmits.genesis hempty
        · simp [hkey] at hfirst
      · apply ih
        rw [commitsAt_concat, List.head?_append_of_ne_nil _ hempty] at hfirst
        exact hfirst

end Deployment

/-- A head is one the journal had for the ledger. -/
def Known (ledger : AuditLedgerRef) (head : Option AuditHead) (log : List (Commit D)) : Prop :=
  ∀ known ∈ head, ∃ commit ∈ commitsAt log (ledgerKey ledger), commit.head = known

section Heads

variable {ledger : AuditLedgerRef} {head other : Option AuditHead} {log log' : List (Commit D)}

theorem commitsAt_mono {key : JsString} (hlog : log <+: log') :
    commitsAt log key <+: commitsAt log' key := by
  obtain ⟨more, rfl⟩ := hlog
  exact ⟨commitsAt more key, by simp [commitsAt, List.filter_append]⟩

theorem Known.mono (h : Known ledger head log) (hlog : log <+: log') : Known ledger head log' := by
  intro known hknown
  obtain ⟨commit, hcommit, hrest⟩ := h known hknown
  exact ⟨commit, (commitsAt_mono hlog).subset hcommit, hrest⟩

theorem Known.of_none : Known ledger none log := nofun

/-- The higher of two heads is one of them. -/
theorem higherHead_eq (left right : Option AuditHead) :
    higherHead left right = left ∨ higherHead left right = right := by
  cases left with
  | none => cases right <;> simp [higherHead]
  | some left =>
      cases right with
      | none => exact .inl rfl
      | some right =>
          simp only [higherHead]
          split
          · exact .inr rfl
          · exact .inl rfl

theorem Known.higher (h : Known ledger head log) (hother : Known ledger other log) :
    Known ledger (higherHead head other) log := by
  rcases higherHead_eq head other with heq | heq
  · rwa [heq]
  · rwa [heq]

theorem higherHead_eq_none : higherHead head other = none ↔ head = none ∧ other = none := by
  cases head with
  | none => cases other <;> simp [higherHead]
  | some head =>
      cases other with
      | none => simp [higherHead]
      | some other =>
          simp only [higherHead]
          split <;> simp

variable {admits : List (Commit D) → Commit D → Prop}

theorem Known.getHead (log : List (Commit D)) (ledger : AuditLedgerRef) :
    Known ledger ((replay log).getHead ledger) log := by
  intro known hknown
  rw [getHead_replay] at hknown
  obtain ⟨commit, hlast, rfl⟩ := Option.mem_map.mp hknown
  exact ⟨commit, List.mem_of_getLast? hlast, rfl⟩

/-- An earlier head is one the journal had. -/
theorem Known.earlier (h : Recorded admits log)
    (hhead : (replay log).EarlierHead ledger head) : Known ledger head log := by
  rcases hhead with rfl | rfl | ⟨entry, hentry, rfl⟩
  · exact .of_none
  · exact .getHead log ledger
  · intro known hknown
    cases hknown
    simp only [MemoryAuditJournal.snapshot, entriesByLedger_replay] at hentry
    obtain ⟨commit, hcommit, rfl⟩ := List.mem_map.mp hentry
    refine ⟨commit, hcommit, ?_⟩
    have hledger := h.ledger (mem_commitsAt.mp hcommit).1
    simp only [Commit.head, SignedAuditEntry.head, ← hledger]

/-- Against the journal's own head, a head it had is neither ahead nor a fork. -/
theorem not_behind (h : Recorded admits log) (hhead : Known ledger head log) :
    isBehind ((replay log).getHead ledger) head = false ∧
      forks ((replay log).getHead ledger) head = false := by
  cases head with
  | none => cases hactual : (replay log).getHead ledger <;> simp [isBehind, forks]
  | some known =>
      obtain ⟨commit, hcommit, rfl⟩ := hhead known rfl
      have hcomplete := h.complete (ledgerKey ledger)
      have hentry := List.mem_map_of_mem (f := (·.entry)) hcommit
      obtain ⟨last, hlast⟩ := Option.ne_none_iff_exists'.mp
        (mt List.getLast?_eq_none_iff.mp (List.ne_nil_of_mem hcommit))
      have hlastEntry := List.mem_map_of_mem (f := (·.entry)) (List.mem_of_getLast? hlast)
      rw [getHead_replay, hlast]
      constructor
      · have hle := hcomplete.sequence_le_last hentry (by rw [List.getLast?_map, hlast]; rfl)
        simp only [entryLinks] at hle
        simp [isBehind, Commit.head, hle]
      · simp only [forks, Option.map_some, Commit.head, decide_eq_false_iff_not, not_and,
          Decidable.not_not]
        intro hsequence
        rw [hcomplete.eq_of_sequence_eq hentry hlastEntry hsequence]

theorem assertNoRegression_ok (h : Recorded admits log) {committed reported : Option AuditHead}
    (hcommitted : Known ledger committed log) (hreported : Known ledger reported log) :
    assertNoRegression ((replay log).getHead ledger) committed reported = .ok () := by
  obtain ⟨hbehind, hfork⟩ := not_behind h hcommitted
  simp [assertNoRegression, hbehind, hfork, (not_behind h hreported).2]

end Heads

end KyaOs.Audit
