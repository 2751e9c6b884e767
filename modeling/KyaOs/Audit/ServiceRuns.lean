import KyaOs.Audit.SubmissionContracts

/-!
# One recorder at work

A single `AuditRecorderService` takes every call, and what happens between it and its ports
is written down: the entries the journal answered with, and the appends it accepted.
-/

namespace KyaOs.Audit

open Js Concurrency HashChain

variable {D : Type}

/-- The entries an answer brings. -/
def AuditRequest.brings : (request : AuditRequest D) → Except AuditError request.Answer →
    List (SignedAuditEntry D)
  | .getByIdempotencyKey .., .ok found => found.toList
  | .compareAndAppend .., .ok result => result.entry?.toList
  | _, _ => []

/-- The entry a journal takes with a request. -/
def AuditRequest.adds (journal : MemoryAuditJournal D) :
    AuditRequest D → List (SignedAuditEntry D)
  | .compareAndAppend ledger expectedHead entry key =>
    match (journal.compareAndAppend ledger expectedHead entry key).1 with
    | .appended entry => [entry]
    | _ => []
  | _ => []

/-- The history after a request of call `c`. -/
def AuditHistory.after (history : AuditHistory D) (c : SubmitCall D)
    (journal : MemoryAuditJournal D) (request : AuditRequest D)
    (answer : Except AuditError request.Answer) : AuditHistory D :=
  { history with
    answered := history.answered ++ request.brings answer
    accepted := history.accepted ++ (request.adds journal).map (c, ·) }

namespace Deployment

variable (dep : Deployment D)

/-- How a request of call `c` is served, and written down. -/
def Records (c : SubmitCall D) (request : AuditRequest D) (s : AuditWorld D)
    (answer : Except AuditError request.Answer) (s' : AuditWorld D) : Prop :=
  (∃ served, dep.served request s answer served ∧
    s' = { served with history := s.history.after c s.journal request answer }) ∨
  s' = s ∧ ∃ error, dep.MayReject request error ∧ answer = .error error

/-- Recorder `r` takes the call. -/
def serviceCode (r : Nat) (c : SubmitCall D) : RecorderM D (SignedAuditEntry D) :=
  submitAuthenticated dep.runtime (dep.configs r) r c.submission c.context

variable {dep} {c : SubmitCall D} {request : AuditRequest D} {s s' : AuditWorld D}
  {answer : Except AuditError request.Answer}

theorem Records.serves (h : dep.Records c request s answer s') :
    ∃ s'', dep.Serves request s answer s'' := by
  rcases h with ⟨served, hserved, -⟩ | hrejected
  · exact ⟨served, .inl hserved⟩
  · exact ⟨s', .inr hrejected⟩

/-- A request that is not an append leaves the journal, the recorders and the clocks alone. -/
theorem Records.kept (h : dep.Records c request s answer s') (happends : request.appends = false) :
    s'.journal = s.journal ∧ s'.recorders = s.recorders ∧ s'.clock = s.clock ∧
      s'.history.accepted = s.history.accepted ∧ s'.history.disposed = s.history.disposed := by
  rcases h with ⟨served, hserved, rfl⟩ | ⟨rfl, -⟩
  · have hserves : dep.Serves request s answer served := .inl hserved
    obtain ⟨hjournal, hrecorders, hclock⟩ := Serves.kept hserves happends
    refine ⟨hjournal, hrecorders, hclock, ?_, rfl⟩
    cases request with
    | compareAndAppend => cases happends
    | _ => exact List.append_nil _
  · exact ⟨rfl, rfl, rfl, rfl, rfl⟩

/-- An entry that such a request brings stands under some idempotency key. -/
theorem Records.answered (h : dep.Records c request s answer s')
    (happends : request.appends = false) {entry : SignedAuditEntry D}
    (hentry : entry ∈ s'.history.answered) :
    entry ∈ s.history.answered ∨ ∃ id, s.journal.entriesByIdempotency id = some entry := by
  rcases h with ⟨served, hserved, rfl⟩ | ⟨rfl, -⟩
  · rcases List.mem_append.mp hentry with hentry | hbrought
    · exact .inl hentry
    cases request with
    | compareAndAppend => cases happends
    | getByIdempotencyKey ledgerId key =>
        obtain ⟨-, rfl⟩ := hserved
        exact .inr ⟨_, Option.mem_toList.mp hbrought⟩
    | _ => cases hbrought
  · exact .inl hentry

/-- A request that brings no entry leaves no trace. -/
theorem Records.of_quiet (happends : request.appends = false) (hbrings : request.brings answer = [])
    (h : dep.served request s answer s') : dep.Records c request s answer s' := by
  refine .inl ⟨s', h, ?_⟩
  have hhistory : s'.history = s.history := by
    cases request with
    | compareAndAppend => cases happends
    | putIfAbsent => rw [h.2]
    | _ => rw [h.1]
  have hadds : request.adds s.journal = [] := by
    cases request with
    | compareAndAppend => cases happends
    | _ => rfl
  rw [AuditHistory.after, hbrings, hadds, List.map_nil, List.append_nil, List.append_nil,
    ← hhistory]

/-- Nothing is taken out of the history. -/
theorem Records.answered_subset (h : dep.Records c request s answer s') :
    s.history.answered ⊆ s'.history.answered := by
  rcases h with ⟨served, -, rfl⟩ | ⟨rfl, -⟩
  · exact List.subset_append_left _ _
  · exact List.Subset.refl _

/-- What an answer brings is written down. -/
theorem Records.brought (h : dep.Records c request s answer s') {entry : SignedAuditEntry D}
    (hentry : entry ∈ request.brings answer) : entry ∈ s'.history.answered := by
  rcases h with ⟨served, -, rfl⟩ | ⟨-, _, -, rfl⟩
  · exact List.mem_append_right _ hentry
  · cases request <;> cases hentry

end Deployment

end KyaOs.Audit
