import KyaOs.Audit.RecorderContracts

/-!
# Replicas keep the ledger

The protocol of replicas over an append-only journal: the log only grows, by commits that
were appendable and that a replica built, and what a replica keeps in its fields is in the
log. Every function of the recorder keeps it.
-/

namespace KyaOs.Audit

open Js Concurrency HashChain

variable {D : Type}

namespace Deployment

variable (dep : Deployment D)

/-- Replica `r` takes an entry for the genesis of its epoch. -/
def Accepts (r : Nat) (entry : SignedAuditEntry D) : Prop :=
  validateExistingGenesis dep.runtime (dep.configs r) entry = .ok entry

/-- The epoch of replica `r` was opened by a genesis it accepts. -/
def Matched (r : Nat) (log : List (Commit D)) : Prop :=
  ∃ first, (commitsAt log (ledgerKey (dep.ledger r))).head? = some first ∧ dep.Accepts r first.entry

/-- Something else stands where replica `r` looks for its genesis. -/
def Mismatched (r : Nat) (log : List (Commit D)) : Prop :=
  (∃ now key other, dep.keyOfEvent (dep.ledger r).ledgerId (dep.configs r).signer.did
      (genesisEvent (dep.configs r) now) = .ok key ∧
    lookup log (idempotencyKey (dep.ledger r).ledgerId key) = some other ∧
    ¬ dep.Accepts r other) ∨
  ∃ first, (commitsAt log (ledgerKey (dep.ledger r))).head? = some first ∧
    ¬ dep.Accepts r first.entry

variable {dep} {log log' : List (Commit D)} {r : Nat} {entry : SignedAuditEntry D}

theorem head?_mono {α : Type} {l l' : List α} {a : α} (h : l.head? = some a) (hl : l <+: l') :
    l'.head? = some a := by
  obtain ⟨more, rfl⟩ := hl
  rw [List.head?_append, h]
  rfl

theorem Matched.mono (h : dep.Matched r log) (hlog : log <+: log') : dep.Matched r log' := by
  obtain ⟨first, hfirst, haccepts⟩ := h
  exact ⟨first, head?_mono hfirst (commitsAt_mono hlog), haccepts⟩

theorem Mismatched.mono (h : dep.Mismatched r log) (hrecorded : Recorded dep.Admits log')
    (hlog : log <+: log') : dep.Mismatched r log' := by
  rcases h with ⟨now, key, other, hkey, hlookup, hother⟩ | ⟨first, hfirst, hother⟩
  · exact .inl ⟨now, key, other, hkey, hrecorded.lookup_mono hlog hlookup, hother⟩
  · exact .inr ⟨first, head?_mono hfirst (commitsAt_mono hlog), hother⟩

/-- What a replica compares an existing genesis with. -/
theorem Accepts.own (h : dep.Accepts r entry) :
    entry.core.toAuditLedgerRef = dep.ledger r ∧
      entry.core.recorder = (dep.configs r).signer ∧
      textAt entry.core.event ["source", "sourceId"] = (dep.configs r).sourceId := by
  obtain ⟨⟨-, hown⟩, -⟩ := validateExistingGenesis_eq_ok.mp h
  unfold isOwnGenesis at hown
  obtain ⟨tenant, -, hown⟩ := bind_eq_ok.mp hown
  simp only [pure, Except.pure, Except.ok.injEq, decide_eq_true_eq] at hown
  obtain ⟨-, -, hledger, hepoch, hrecorder, -, -, hsource, -⟩ := hown
  refine ⟨?_, hrecorder, hsource⟩
  cases hcore : entry.core.toAuditLedgerRef
  simp only [hcore] at hledger hepoch
  simp only [ledger, hledger, hepoch]

/-- A genesis that replica `r` accepts was committed under the key replica `r` would use. -/
theorem OpenedBy.genesisKey {other : Nat} {commit : Commit D} (h : dep.OpenedBy other commit)
    (haccepts : dep.Accepts r commit.entry)
    (hledger : commit.entry.core.toAuditLedgerRef = commit.ledger) (now : D) :
    dep.keyOfEvent (dep.ledger r).ledgerId (dep.configs r).signer.did
      (genesisEvent (dep.configs r) now) = .ok commit.key := by
  obtain ⟨hown, hrecorder, hsource⟩ := haccepts.own
  obtain ⟨now', hevent⟩ := h.event
  have hsigner : (dep.configs other).signer = (dep.configs r).signer :=
    h.recorder.symm.trans hrecorder
  have hsame : dep.ledger other = dep.ledger r := by rw [← h.ledger, ← hledger, hown]
  have hidentity : sourceIdentity (dep.ledger r).ledgerId (dep.configs r).signer.did
      (genesisEvent (dep.configs r) now) =
      sourceIdentity commit.ledger.ledgerId (dep.configs other).signer.did
        commit.entry.core.event := by
    have hledgerId : (dep.configs other).ledgerId = (dep.configs r).ledgerId :=
      congrArg AuditLedgerRef.ledgerId hsame
    have hepochId : (dep.configs other).ledgerEpochId = (dep.configs r).ledgerEpochId :=
      congrArg AuditLedgerRef.ledgerEpochId hsame
    have hsourceId : (dep.configs other).sourceId = (dep.configs r).sourceId := by
      rw [← hsource, hevent]
      rfl
    rw [hevent, ← hledger, hown, hsigner]
    unfold sourceIdentity
    have htext : ∀ r now, textAt (genesisEvent (dep.configs r) now) ["source", "sourceId"] =
        (dep.configs r).sourceId := fun _ _ => rfl
    have hid : ∀ r now, textAt (genesisEvent (dep.configs r) now) ["eventId"] =
        js "genesis:" ++ (dep.configs r).ledgerId ++ js ":" ++ (dep.configs r).ledgerEpochId :=
      fun _ _ => rfl
    rw [htext, htext, hid, hid, hsourceId, hledgerId, hepochId]
  rw [keyOfEvent, hidentity]
  exact h.key

/-- The genesis a replica accepts stands under the key the replica looks it up by. -/
theorem Matched.lookup (h : dep.Matched r log) (hrecorded : Recorded dep.Admits log) {now : D}
    {key : Digest} (hkey : dep.keyOfEvent (dep.ledger r).ledgerId (dep.configs r).signer.did
      (genesisEvent (dep.configs r) now) = .ok key) :
    ∃ first, lookup log (idempotencyKey (dep.ledger r).ledgerId key) = some first ∧
      dep.Accepts r first := by
  obtain ⟨first, hfirst, haccepts⟩ := h
  obtain ⟨other, hopened⟩ := openedBy_of_recorded hrecorded hfirst
  obtain ⟨hmem, -⟩ := mem_commitsAt.mp (List.mem_of_head? hfirst)
  have hledger := hrecorded.ledger hmem
  have hgenesis := hopened.genesisKey haccepts hledger now
  rw [hkey, Except.ok.injEq] at hgenesis
  refine ⟨first.entry, ?_, haccepts⟩
  rw [hgenesis, ← haccepts.own.1, hledger]
  exact hrecorded.lookup_of_mem hmem

theorem Matched.not_mismatched (h : dep.Matched r log) (hrecorded : Recorded dep.Admits log) :
    ¬ dep.Mismatched r log := by
  rintro (⟨now, key, other, hkey, hother, hrejects⟩ | ⟨first, hfirst, hrejects⟩)
  · obtain ⟨first, hlookup, haccepts⟩ := h.lookup hrecorded hkey
    rw [hlookup, Option.some.injEq] at hother
    exact hrejects (hother ▸ haccepts)
  · obtain ⟨accepted, haccepted, haccepts⟩ := h
    rw [haccepted, Option.some.injEq] at hfirst
    exact hrejects (hfirst ▸ haccepts)

/-- A ledger that has entries but none under the replica's genesis key is not the replica's. -/
theorem mismatched_of_lookup (hrecorded : Recorded dep.Admits log) {now : D} {key : Digest}
    (hkey : dep.keyOfEvent (dep.ledger r).ledgerId (dep.configs r).signer.did
      (genesisEvent (dep.configs r) now) = .ok key)
    (hnone : lookup log (idempotencyKey (dep.ledger r).ledgerId key) = none)
    (hsome : commitsAt log (ledgerKey (dep.ledger r)) ≠ []) : dep.Mismatched r log := by
  obtain ⟨first, rest, hcommits⟩ := List.exists_cons_of_ne_nil hsome
  refine .inr ⟨first, by rw [hcommits]; rfl, fun haccepts => ?_⟩
  obtain ⟨found, hfound, -⟩ :=
    Matched.lookup ⟨first, by rw [hcommits]; rfl, haccepts⟩ hrecorded hkey
  rw [hnone] at hfound
  cases hfound

end Deployment

/-- The identity was used for an event of other content. -/
def Deployment.Reused (dep : Deployment D) (r : Nat) (identity : EventIdentity)
    (log : List (Commit D)) : Prop :=
  ∃ existing, lookup log (idempotencyKey (dep.ledger r).ledgerId identity.idempotencyKey) =
    some existing ∧ existing.eventDigest ≠ identity.eventDigest

/-- The errors an append may end in where ports do their work. -/
def Deployment.Expected (dep : Deployment D) (r : Nat) (genesis : Bool) (identity : EventIdentity)
    (log : List (Commit D)) (error : AuditError) : Prop :=
  (∃ message, error = .protocol .APPEND_CONFLICT_EXHAUSTED message) ∨
    (genesis = false ∧ (∃ message, error = .protocol .EVENT_ID_CONFLICT message) ∧
      dep.Reused r identity log) ∨
    (genesis = true ∧ dep.Mismatched r log)

/-- What a replica keeps in its fields. -/
structure Deployment.RecorderSound (dep : Deployment D) (calm : Prop) (r : Nat)
    (recorder : RecorderState D) (log : List (Commit D)) : Prop where
  committed : Known (dep.ledger r) recorder.committedHead log
  reported : Known (dep.ledger r) recorder.reportedHead log
  initialized : ∀ promise entry, recorder.settled promise = some (.ok entry) → dep.Opened r log
  failed : ∀ promise error, recorder.settled promise = some (.error error) → calm →
    ∃ identity, dep.Expected r true identity log error

/-- What holds at every await, of a log that goes on from `since`. -/
structure Deployment.LedgerInv (dep : Deployment D) (calm : Prop) (since : List (Commit D))
    (w : AuditWorld D × List (Commit D)) : Prop where
  journal : w.1.journal = replay w.2
  since : since <+: w.2
  recorded : Recorded dep.Admits w.2
  short : calm → ∀ commit ∈ w.2, commit.entry.core.sequence + 1 < maxSequence
  recorders : ∀ r, dep.RecorderSound calm r (w.1.recorders r) w.2
  clock : ∀ r, dep.times (w.1.clock r)

/-- Replicas over an append-only journal. -/
def Deployment.ledgerProtocol (dep : Deployment D) (calm : Prop) (since : List (Commit D)) :
    Protocol (recorderSetting D) (SubmitCall D) (List (Commit D)) where
  inv := dep.LedgerInv calm since
  rely _ w w' := w.2 <+: w'.2
  fresh _ _ := True
  serves _ request s answer s' := dep.Serves request s answer s' ∧
    (calm → Deployment.Steady request answer)

section LedgerContracts

variable {dep : Deployment D} {calm : Prop} {c : SubmitCall D} {log log' since : List (Commit D)}
  {r : Nat}

theorem Deployment.Reused.mono {identity : EventIdentity} (h : dep.Reused r identity log)
    (hrecorded : Recorded dep.Admits log') (hlog : log <+: log') : dep.Reused r identity log' := by
  obtain ⟨existing, hlookup, hdigest⟩ := h
  exact ⟨existing, hrecorded.lookup_mono hlog hlookup, hdigest⟩

theorem Deployment.Expected.mono {genesis : Bool} {identity : EventIdentity} {error : AuditError}
    (h : dep.Expected r genesis identity log error) (hrecorded : Recorded dep.Admits log')
    (hlog : log <+: log') : dep.Expected r genesis identity log' error := by
  rcases h with h | ⟨hgenesis, herror, h⟩ | ⟨hgenesis, h⟩
  · exact .inl h
  · exact .inr (.inl ⟨hgenesis, herror, h.mono hrecorded hlog⟩)
  · exact .inr (.inr ⟨hgenesis, h.mono hrecorded hlog⟩)

theorem Deployment.RecorderSound.mono {recorder : RecorderState D}
    (h : dep.RecorderSound calm r recorder log) (hrecorded : Recorded dep.Admits log')
    (hlog : log <+: log') : dep.RecorderSound calm r recorder log' where
  committed := h.committed.mono hlog
  reported := h.reported.mono hlog
  initialized promise entry hsettled := (h.initialized promise entry hsettled).mono hlog
  failed promise error hsettled hcalm := by
    obtain ⟨identity, hexpected⟩ := h.failed promise error hsettled hcalm
    exact ⟨identity, hexpected.mono hrecorded hlog⟩

theorem ledgerProtocol_hosts (hregular : calm → dep.Regular) :
    dep.Hosts calm (dep.ledgerProtocol calm since) where
  refl _ w := List.prefix_refl w.2
  trans _ _ _ _ h h' := h.trans h'
  served _ request s answer s' h := ⟨s', h.1⟩
  observes c request asked answer s' hreads hasked h := by
    obtain rfl := h.1.unchanged hreads
    exact ⟨asked.2, hasked, fun _ _ => List.prefix_refl _, List.prefix_refl _⟩
  steady hcalm _ _ _ _ _ h := h.2 hcalm
  regular := hregular
  clock _ hw := hw.clock

/-- A fact about the log that later commits keep. -/
def Deployment.Grows (dep : Deployment D) (Q : List (Commit D) → Prop) : Prop :=
  ∀ log log', Recorded dep.Admits log' → log <+: log' → Q log → Q log'

theorem Deployment.Grows.stable {Q : List (Commit D) → Prop} (h : dep.Grows Q) :
    (dep.ledgerProtocol calm since).Stable c fun w => Q w.2 :=
  fun _ _ hQ _ hw hlog => h _ _ hw.recorded hlog hQ

theorem ledgerProtocol_trans (w w' w'' : AuditWorld D × List (Commit D))
    (h : (dep.ledgerProtocol calm since).guarantee c w w')
    (h' : (dep.ledgerProtocol calm since).guarantee c w' w'') :
    (dep.ledgerProtocol calm since).guarantee c w w'' :=
  fun other hother => (h other hother).trans (h' other hother)

theorem Deployment.LedgerInv.update {s : AuditWorld D} (h : dep.LedgerInv calm since (s, log))
    {f : RecorderState D → RecorderState D}
    (hsound : dep.RecorderSound calm r (s.recorders r) log →
      dep.RecorderSound calm r (f (s.recorders r)) log) :
    dep.LedgerInv calm since (s.setRecorder r f, log) := by
  refine ⟨h.journal, h.since, h.recorded, h.short, ?_, h.clock⟩
  intro other
  by_cases hother : other = r
  · subst hother
    simp only [AuditWorld.setRecorder, Function.update_self]
    exact hsound (h.recorders other)
  · simp only [AuditWorld.setRecorder, Function.update_of_ne hother]
    exact h.recorders other

/-- A replica updates its fields. -/
theorem update_contract {α : Type} {pre : AuditWorld D × List (Commit D) → Prop}
    {f : RecorderState D → RecorderState D} {next : Unit → RecorderM D α}
    {post : Except AuditError α → AuditWorld D × List (Commit D) → Prop}
    (hlog : ∀ s s' log, pre (s, log) → pre (s', log))
    (hsound : ∀ recorder w, Recorded dep.Admits w.2 → pre w →
      dep.RecorderSound calm r recorder w.2 → dep.RecorderSound calm r (f recorder) w.2)
    (hnext : (dep.ledgerProtocol calm since).Contract c pre (next ()) post) :
    (dep.ledgerProtocol calm since).Contract c pre (updateRecorder r f >>= next) post := by
  refine Protocol.Contract.update ledgerProtocol_trans ?_ hnext
  intro w hw hpre
  exact ⟨w.2, hw.update (hsound _ w hw.recorded hpre), fun _ _ => List.prefix_refl _,
    hlog _ _ _ hpre⟩

/-- What an answer of `compareAndAppend` says of the log from then on. -/
def Deployment.Answered (dep : Deployment D) (calm : Prop) (r : Nat) (Q : List (Commit D) → Prop)
    (head : Option AuditHead) (entry : SignedAuditEntry D) (key : Digest) :
    Except AuditError (AuditAppendResult D) → List (Commit D) → Prop
  | .ok (.appended appended), log => appended = entry ∧
      lookup log (idempotencyKey (dep.ledger r).ledgerId key) = some entry ∧ dep.Opened r log ∧
      Known (dep.ledger r) (some { dep.ledger r with
        sequence := entry.core.sequence
        entryDigest := entry.entryDigest }) log
  | .ok (.duplicate existing), log =>
      lookup log (idempotencyKey (dep.ledger r).ledgerId key) = some existing
  | .ok (.idempotencyConflict existing), log =>
      lookup log (idempotencyKey (dep.ledger r).ledgerId key) = some existing
  | .ok (.headConflict actual), log => ∃ earlier, earlier <+: log ∧
      Recorded dep.Admits earlier ∧ Q earlier ∧ actual = (replay earlier).getHead (dep.ledger r) ∧
      lookup earlier (idempotencyKey (dep.ledger r).ledgerId key) = none ∧ head ≠ actual
  | .error _, _ => ¬ calm

/-- An entry built on the journal's head is one the journal may take. -/
theorem appendable_of_candidate {event : AuditProducerEvent D} {authority : JsString}
    {key : Digest} {head : Option AuditHead} {entry : SignedAuditEntry D} {genesis : Bool}
    (hrecorded : Recorded dep.Admits log)
    (hcandidate : dep.Candidate (dep.configs r) event head entry)
    (hkey : dep.keyOfEvent (dep.ledger r).ledgerId authority event = .ok key)
    (hposition : genesis = decide (nextSequence head = 0))
    (hopened : genesis = false → dep.Opened r log)
    (hgenesis : genesis = true →
      (∃ now, event = genesisEvent (dep.configs r) now) ∧ authority = (dep.configs r).signer.did)
    (hfresh : lookup log (idempotencyKey (dep.ledger r).ledgerId key) = none)
    (hhead : head = (replay log).getHead (dep.ledger r)) :
    Appendable log ⟨dep.ledger r, key, entry⟩ ∧ dep.Admits log ⟨dep.ledger r, key, entry⟩ := by
  have hkey' : dep.keyOfEvent (dep.ledger r).ledgerId authority entry.core.event = .ok key := by
    rw [hcandidate.event, hkey]
  have happendable := hcandidate.appendable hfresh hhead
  rw [getHead_replay] at hhead
  refine ⟨happendable, ⟨hcandidate.attested, ⟨authority, hkey'⟩, ?_, ?_⟩⟩
  · intro hempty
    simp only [Commit.ledgerKey] at hempty
    rw [hempty] at hhead
    have htrue : genesis = true := by simp [hposition, hhead, nextSequence]
    obtain ⟨⟨now, hevent⟩, rfl⟩ := hgenesis htrue
    exact ⟨r, rfl, hcandidate.recorder, ⟨now, hcandidate.event.trans hevent⟩, hkey'⟩
  · intro last hlast
    simp only [Commit.ledgerKey] at hlast
    rw [Option.mem_def.mp hlast] at hhead
    have hfalse : genesis = false := by simp [hposition, hhead, nextSequence]
    obtain ⟨opened, hmem, hsame⟩ := hopened hfalse
    obtain ⟨hlastMem, hlastKey⟩ := mem_commitsAt.mp (List.mem_of_getLast? hlast)
    rw [← hsame]
    apply Deployment.sameLedger_of_recorded hrecorded hlastMem hmem
    rw [hlastKey, Commit.ledgerKey, hsame]

theorem compareAndAppend_contract {Q : List (Commit D) → Prop} (hgrows : dep.Grows Q)
    {event : AuditProducerEvent D} {authority : JsString} {key : Digest}
    {head : Option AuditHead} {entry : SignedAuditEntry D} {genesis : Bool}
    (hcandidate : dep.Candidate (dep.configs r) event head entry)
    (hkey : dep.keyOfEvent (dep.ledger r).ledgerId authority event = .ok key)
    (hposition : genesis = decide (nextSequence head = 0))
    (hopened : genesis = false → ∀ log, Q log → dep.Opened r log)
    (hgenesis : genesis = true →
      (∃ now, event = genesisEvent (dep.configs r) now) ∧
        authority = (dep.configs r).signer.did) :
    (dep.ledgerProtocol calm since).Contract c (fun w => Q w.2)
      (reply (.compareAndAppend (dep.ledger r) head entry key))
      fun answer w => Q w.2 ∧ dep.Answered calm r Q head entry key answer w.2 := by
  apply Protocol.Contract.ask _ fun _ _ _ => List.prefix_refl _
  intro w asked hw hQ hasked hlog answer s' hserves
  have hQ' := hgrows _ _ hasked.recorded hlog hQ
  obtain ⟨hserves, hsteady⟩ := hserves
  have hlost : ∀ error resumed, answer = .error error →
      dep.Answered calm r Q head entry key answer resumed := by
    rintro error resumed rfl hcalm
    obtain ⟨_, hok, -⟩ := hsteady hcalm
    cases hok
  rcases hserves with ⟨rfl, hanswer⟩ | ⟨rfl, error, -, rfl⟩
  · obtain ⟨log', hcompared, hjournal⟩ :=
      compareAndAppend_replay asked.2 (dep.ledger r) head entry key
    rw [← hasked.journal] at hcompared hjournal
    have hanswered : ∀ result resumed,
        (asked.1.journal.compareAndAppend (dep.ledger r) head entry key).1 = result →
        dep.Answered calm r Q head entry key (.ok result) resumed →
        dep.Answered calm r Q head entry key answer resumed := by
      intro result resumed hresult hok
      rcases hanswer with hanswer | ⟨error, -, herror⟩
      · rw [hanswer, hresult]
        exact hok
      · exact hlost error resumed herror
    have hkept : Recorded dep.Admits log' → asked.2 <+: log' →
        (calm → ∀ commit ∈ log', commit.entry.core.sequence + 1 < maxSequence) →
        dep.LedgerInv calm since ({ asked.1 with
          journal := (asked.1.journal.compareAndAppend (dep.ledger r) head entry key).2 }, log') :=
      fun hrecorded hgrown hshort =>
        ⟨hjournal, hasked.since.trans hgrown, hrecorded, hshort,
          fun r => (hasked.recorders r).mono hrecorded hgrown, hasked.clock⟩
    have hsame : log' = asked.2 → dep.LedgerInv calm since ({ asked.1 with
        journal := (asked.1.journal.compareAndAppend (dep.ledger r) head entry key).2 },
        asked.2) := by
      rintro rfl
      exact hkept hasked.recorded (List.prefix_refl _) hasked.short
    generalize hresult : (asked.1.journal.compareAndAppend (dep.ledger r) head entry key).1 = result
      at hcompared
    cases hcompared with
    | @duplicate existing hlookup _ =>
        refine ⟨asked.2, hsame rfl, fun _ _ => List.prefix_refl _, ?_⟩
        intro resumed hresumed hgrown
        exact ⟨hgrows _ _ hresumed.recorded hgrown hQ', hanswered _ _ hresult
          (hresumed.recorded.lookup_mono hgrown hlookup)⟩
    | @idempotencyConflict existing hlookup _ =>
        refine ⟨asked.2, hsame rfl, fun _ _ => List.prefix_refl _, ?_⟩
        intro resumed hresumed hgrown
        exact ⟨hgrows _ _ hresumed.recorded hgrown hQ', hanswered _ _ hresult
          (hresumed.recorded.lookup_mono hgrown hlookup)⟩
    | headConflict hlookup hheads =>
        refine ⟨asked.2, hsame rfl, fun _ _ => List.prefix_refl _, ?_⟩
        intro resumed hresumed hgrown
        refine ⟨hgrows _ _ hresumed.recorded hgrown hQ', hanswered _ _ hresult ?_⟩
        refine ⟨asked.2, hgrown, hasked.recorded, hQ', rfl, hlookup, fun hhead => ?_⟩
        rw [headsEqual_iff.mpr hhead] at hheads
        cases hheads
    | appended hlookup hheads =>
        obtain ⟨happendable, hadmits⟩ := appendable_of_candidate hasked.recorded hcandidate hkey
          hposition (fun hfalse => hopened hfalse _ hQ') hgenesis hlookup (headsEqual_iff.mp hheads)
        have hrecorded := hasked.recorded.concat happendable hadmits
        refine ⟨_, hkept hrecorded (List.prefix_append _ _) ?_,
          fun _ _ => List.prefix_append _ _, ?_⟩
        · intro hcalm commit hcommit
          rcases List.mem_append.mp hcommit with hold | hnew
          · exact hasked.short hcalm commit hold
          · obtain rfl := List.mem_singleton.mp hnew
            obtain ⟨result, rfl, hshort⟩ := hsteady hcalm
            rcases hanswer with hanswer | ⟨_, -, herror⟩
            · rw [hresult, Except.ok.injEq] at hanswer
              exact hshort entry hanswer
            · cases herror
        · intro resumed hresumed hgrown
          refine ⟨hgrows _ _ hresumed.recorded ((List.prefix_append _ _).trans hgrown) hQ',
            hanswered _ _ hresult ?_⟩
          have hmem : (⟨dep.ledger r, key, entry⟩ : Commit D) ∈ resumed.2 :=
            hgrown.subset (by simp)
          refine ⟨rfl, hresumed.recorded.lookup_of_mem hmem, ⟨_, hmem, rfl⟩, ?_⟩
          intro known hknown
          cases hknown
          exact ⟨_, mem_commitsAt.mpr ⟨hmem, rfl⟩, rfl⟩
  · refine ⟨asked.2, hasked, fun _ _ => List.prefix_refl _, ?_⟩
    intro resumed hresumed hgrown
    exact ⟨hgrows _ _ hresumed.recorded hgrown hQ', hlost error _ rfl⟩

/-- What an append came to. -/
def Deployment.Appended (dep : Deployment D) (calm : Prop) (r : Nat) (genesis : Bool)
    (identity : EventIdentity) (result : Except AuditError (SignedAuditEntry D))
    (log : List (Commit D)) : Prop :=
  match result with
  | .ok entry =>
      lookup log (idempotencyKey (dep.ledger r).ledgerId identity.idempotencyKey) = some entry ∧
        (genesis = false → entry.eventDigest = identity.eventDigest) ∧
        (genesis = true → dep.Opened r log)
  | .error error => calm → dep.Expected r genesis identity log error

/-- What an append is about: an event under its identity, and where it is the genesis, that
of the replica. -/
structure Deployment.Appends (dep : Deployment D) (calm : Prop) (r : Nat) (genesis : Bool)
    (producerAuthority : JsString) (event : AuditProducerEvent D) (identity : EventIdentity) :
    Prop where
  identified : dep.Identifies (dep.ledger r).ledgerId producerAuthority event identity
  genesis : genesis = true → (∃ now, event = genesisEvent (dep.configs r) now) ∧
    producerAuthority = (dep.configs r).signer.did
  schema : dep.runtime.auditProducerEventSchema event = true

variable {genesis : Bool} {producerAuthority : JsString} {event : AuditProducerEvent D}
  {identity : EventIdentity}

/-- An entry found under the identity settles the append. -/
theorem resolveExisting_appended (happends :
      dep.Appends calm r genesis producerAuthority event identity)
    (hrecorded : Recorded dep.Admits log) {existing : SignedAuditEntry D}
    (hlookup : lookup log (idempotencyKey (dep.ledger r).ledgerId identity.idempotencyKey) =
      some existing) :
    dep.Appended calm r genesis identity
      (resolveExisting dep.runtime (dep.configs r) genesis existing identity.eventDigest) log := by
  cases genesis with
  | false =>
      simp only [resolveExisting, resolveDuplicate, Bool.false_eq_true, if_false]
      by_cases hdigest : existing.eventDigest = identity.eventDigest
      · rw [if_neg (by simp [hdigest])]
        exact ⟨hlookup, fun _ => hdigest, nofun⟩
      · rw [if_pos hdigest]
        intro _
        exact .inr (.inl ⟨rfl, ⟨_, rfl⟩, existing, hlookup, hdigest⟩)
  | true =>
      simp only [resolveExisting, if_true]
      cases hvalid : validateExistingGenesis dep.runtime (dep.configs r) existing with
      | ok valid =>
          obtain ⟨-, rfl⟩ := validateExistingGenesis_eq_ok.mp hvalid
          obtain ⟨commit, hcommit, -, rfl⟩ := lookup_mem hlookup
          refine ⟨hlookup, nofun, fun _ => ⟨commit, hcommit, ?_⟩⟩
          rw [← hrecorded.ledger hcommit]
          exact (Deployment.Accepts.own hvalid).1
      | error error =>
          intro _
          obtain ⟨⟨now, rfl⟩, rfl⟩ := happends.genesis rfl
          refine .inr (.inr ⟨rfl, .inl ⟨now, _, existing, happends.identified.idempotencyKey,
            hlookup, fun haccepts => ?_⟩⟩)
          rw [Deployment.Accepts, hvalid] at haccepts
          cases haccepts

/-- Heads the journal had are told apart by their sequence and digest. -/
theorem sameHead_eq (hrecorded : Recorded dep.Admits log) {ledger : AuditLedgerRef}
    {left right : Option AuditHead} (hleft : Known ledger left log)
    (hright : Known ledger right log) (hsame : sameHead left right = true) : left = right := by
  cases left with
  | none =>
      cases right with
      | none => rfl
      | some right => cases hsame
  | some left =>
      cases right with
      | none => cases hsame
      | some right =>
          obtain ⟨commit, hcommit, rfl⟩ := hleft left rfl
          obtain ⟨other, hother, rfl⟩ := hright right rfl
          rw [mem_commitsAt] at hcommit hother
          have hledger := Deployment.sameLedger_of_recorded hrecorded hcommit.1 hother.1
            (hcommit.2.trans hother.2.symm)
          obtain ⟨hdigest, hsequence⟩ := of_decide_eq_true hsame
          simp only [Commit.head] at hdigest hsequence ⊢
          rw [hledger, hdigest, hsequence]

theorem Known.commits {ledger : AuditLedgerRef} {head : Option AuditHead}
    (h : Known ledger head log) (hhead : head ≠ none) : commitsAt log (ledgerKey ledger) ≠ [] := by
  obtain ⟨known, rfl⟩ := Option.ne_none_iff_exists'.mp hhead
  obtain ⟨commit, hcommit, -⟩ := h known rfl
  exact List.ne_nil_of_mem hcommit

/-- A core on a head the journal had is one the schema accepts. -/
theorem fitting_of_known {head : Option AuditHead}
    (happends : dep.Appends calm r genesis producerAuthority event identity)
    (hrecorded : Recorded dep.Admits log)
    (hshort : ∀ commit ∈ log, commit.entry.core.sequence + 1 < maxSequence)
    (hhead : Known (dep.ledger r) head log) : dep.Fitting event head where
  schema := happends.schema
  sequence known hknown := by
    obtain ⟨commit, hcommit, rfl⟩ := hhead known hknown
    exact hshort commit (mem_commitsAt.mp hcommit).1
  digest known hknown := by
    obtain ⟨commit, hcommit, rfl⟩ := hhead known hknown
    have hattested := Deployment.attested_of_recorded hrecorded (mem_commitsAt.mp hcommit).1
    obtain ⟨_, -, hdigest⟩ := hashAuditValue_eq_ok.mp hattested.entry
    exact ⟨_, hdigest⟩

theorem nextSequence_eq_zero {head : Option AuditHead} : nextSequence head = 0 ↔ head = none := by
  cases head <;> simp [nextSequence]

/-- What is known of the log once the heads are read. -/
structure Deployment.Seen (dep : Deployment D) (r : Nat) (genesis : Bool)
    (committed reported head : Option AuditHead) (log : List (Commit D)) : Prop where
  opened : genesis = false → dep.Opened r log
  committed : Known (dep.ledger r) committed log
  reported : Known (dep.ledger r) reported log
  position : Known (dep.ledger r) head log

/-- What is known of the log at an append position. -/
structure Deployment.Positioned (dep : Deployment D) (r : Nat) (genesis : Bool)
    (committed reported head : Option AuditHead) (log : List (Commit D)) : Prop
    extends dep.Seen r genesis committed reported head log where
  mismatched : genesis = true → head ≠ none → dep.Mismatched r log

theorem Deployment.Seen.grows {committed reported head : Option AuditHead} :
    dep.Grows (dep.Seen r genesis committed reported head) :=
  fun _ _ _ hlog h => ⟨fun hfalse => (h.opened hfalse).mono hlog, h.committed.mono hlog,
    h.reported.mono hlog, h.position.mono hlog⟩

theorem Deployment.Positioned.grows {committed reported head : Option AuditHead} :
    dep.Grows (dep.Positioned r genesis committed reported head) :=
  fun _ _ hrecorded hlog h => ⟨Deployment.Seen.grows _ _ hrecorded hlog h.toSeen,
    fun htrue hhead => (h.mismatched htrue hhead).mono hrecorded hlog⟩

/-- After a head conflict the journal has advanced: the recorder sees no regression. -/
theorem conflict_advances {committed reported head actual : Option AuditHead}
    {entry : SignedAuditEntry D} {key : Digest}
    (h : dep.Answered calm r (dep.Positioned r genesis committed reported head) head entry key
      (.ok (.headConflict actual)) log) :
    assertNoRegression actual committed reported = .ok () ∧ sameHead head actual = false ∧
      Known (dep.ledger r) actual log := by
  obtain ⟨earlier, hearlier, hrecorded, hpositioned, rfl, -, hne⟩ := h
  have hactual := Known.getHead earlier (dep.ledger r)
  refine ⟨assertNoRegression_ok hrecorded hpositioned.committed hpositioned.reported, ?_,
    hactual.mono hearlier⟩
  rw [← Bool.not_eq_true]
  intro hsame
  exact hne (sameHead_eq hrecorded hpositioned.position hactual hsame)

theorem concludeAppend_contract
    (happends : dep.Appends calm r genesis producerAuthority event identity)
    {committed reported head : Option AuditHead} {entry : SignedAuditEntry D}
    (hentry : genesis = false → entry.eventDigest = identity.eventDigest)
    {retry : RecorderM D (SignedAuditEntry D)}
    (hretry : (dep.ledgerProtocol calm since).Contract c
      (fun w => genesis = false → dep.Opened r w.2)
      retry fun result w => dep.Appended calm r genesis identity result w.2)
    (result : AuditAppendResult D) :
    (dep.ledgerProtocol calm since).Contract c
      (fun w => dep.Positioned r genesis committed reported head w.2 ∧
        dep.Answered calm r (dep.Positioned r genesis committed reported head) head entry
          identity.idempotencyKey (.ok result) w.2)
      (concludeAppend dep.runtime (dep.configs r) r genesis identity committed reported head retry
        result)
      fun result w => dep.Appended calm r genesis identity result w.2 := by
  cases result with
  | appended appended =>
      apply update_contract fun _ _ _ h => h
      · intro recorder w _ h hsound
        obtain ⟨-, rfl, -, -, hknown⟩ := h
        exact ⟨hsound.committed.higher hknown, hsound.reported.higher hknown, hsound.initialized,
          hsound.failed⟩
      · apply Protocol.Contract.pure
        intro w _ h
        obtain ⟨-, rfl, hlookup, hopened, -⟩ := h
        exact ⟨hlookup, hentry, fun _ => hopened⟩
  | duplicate existing =>
      apply Protocol.Contract.ofExcept
      intro w hw h
      exact resolveExisting_appended happends hw.recorded h.2
  | idempotencyConflict existing =>
      apply Protocol.Contract.ofExcept
      intro w hw h
      exact resolveExisting_appended happends hw.recorded h.2
  | headConflict actual =>
      apply Protocol.Contract.of_pre (fun w _ h => (conflict_advances h.2).1)
      intro hadvances
      apply Protocol.Contract.of_pre (fun w _ h => (conflict_advances h.2).2.1)
      intro hmoved
      apply Protocol.Contract.check
      · intro _ _
        apply update_contract fun _ _ _ h => h
        · intro recorder w _ h hsound
          have hknown := (conflict_advances h.2).2.2
          exact ⟨hsound.committed, hsound.reported.higher hknown, hsound.initialized,
            hsound.failed⟩
        · rw [hmoved, if_neg Bool.false_ne_true]
          exact hretry.mono_pre fun _ _ h => h.1.opened
      · intro e w herror
        rw [hadvances] at herror
        cases herror

/-- One attempt, from a known head on. -/
theorem appendAt_contract (H : dep.Hosts calm (dep.ledgerProtocol calm since))
    (happends : dep.Appends calm r genesis producerAuthority event identity)
    {committed reported head : Option AuditHead} {retry : RecorderM D (SignedAuditEntry D)}
    (hhead : calm → genesis = false → head ≠ none)
    (hretry : (dep.ledgerProtocol calm since).Contract c
      (fun w => genesis = false → dep.Opened r w.2)
      retry fun result w => dep.Appended calm r genesis identity result w.2) :
    (dep.ledgerProtocol calm since).Contract c
      (fun w => dep.Positioned r genesis committed reported head w.2)
      (appendAt dep.runtime (dep.configs r) r event genesis identity committed reported head retry)
      fun result w => dep.Appended calm r genesis identity result w.2 := by
  have hgrows : dep.Grows (dep.Positioned r genesis committed reported head) :=
    Deployment.Positioned.grows
  apply Protocol.Contract.bind
    (buildCandidate_contract H hgrows.stable r happends.identified.eventDigest head genesis)
  · intro candidate
    apply Protocol.Contract.of_pre fun _ _ h => h.2
    rintro ⟨hcandidate, hposition⟩
    apply Protocol.Contract.of_weaker
      (fun w => dep.Positioned r genesis committed reported head w.2) _ fun _ _ h => h.1
    have hcaught : (dep.ledgerProtocol calm since).Contract c
        (fun w => dep.Positioned r genesis committed reported head w.2)
        (tryCatch (reply (.compareAndAppend (dep.ledger r) head candidate identity.idempotencyKey))
          fun _ => Async.ofExcept (auditFailure .JOURNAL_FAILURE "Audit journal append failed"))
        fun answer w => dep.Positioned r genesis committed reported head w.2 ∧
          dep.Answered calm r (dep.Positioned r genesis committed reported head) head candidate
            identity.idempotencyKey answer w.2 :=
      .tryCatch (compareAndAppend_contract hgrows hcandidate happends.identified.idempotencyKey
        hposition (fun hfalse _ h => h.opened hfalse) happends.genesis) (fun _ _ _ h => h)
        fun _ => .ofExcept fun _ _ h => h
    apply Protocol.Contract.bind hcaught
    · intro result
      apply concludeAppend_contract happends _ hretry
      intro hfalse
      have hdigest := hcandidate.attested.event
      rw [hcandidate.event, happends.identified.eventDigest, Except.ok.injEq] at hdigest
      exact hdigest.symm
    · intro e w _ h hcalm
      exact absurd hcalm h.2
  · rintro e w hw ⟨hpositioned, herror⟩ hcalm
    have hgenesis := herror hcalm (fitting_of_known happends hw.recorded (hw.short hcalm)
      hpositioned.position)
    cases genesis with
    | false =>
        rw [ne_eq, eq_comm, decide_eq_false_iff_not, Decidable.not_not, nextSequence_eq_zero]
          at hgenesis
        exact absurd hgenesis (hhead hcalm rfl)
    | true =>
        rw [ne_eq, eq_comm, decide_eq_true_eq, nextSequence_eq_zero] at hgenesis
        exact .inr (.inr ⟨rfl, hpositioned.mismatched rfl hgenesis⟩)

/-- The answer of a lookup, and what it still says later. -/
theorem lookup_answered {asked resumed : AuditWorld D × List (Commit D)} {s' : AuditWorld D}
    {ledgerId : JsString} {key : Digest} {found : Option (SignedAuditEntry D)}
    (hasked : dep.LedgerInv calm since asked) (hresumed : dep.LedgerInv calm since resumed)
    (hlog : asked.2 <+: resumed.2)
    (hserves : (dep.ledgerProtocol calm since).serves c (.getByIdempotencyKey ledgerId key) asked.1
      (.ok found) s') :
    found = lookup asked.2 (idempotencyKey ledgerId key) ∧
      ∀ entry, found = some entry →
        lookup resumed.2 (idempotencyKey ledgerId key) = some entry := by
  rcases hserves.1 with ⟨-, hanswer⟩ | ⟨-, _, -, herror⟩
  · have hfound : found = lookup asked.2 (idempotencyKey ledgerId key) := by
      rw [Except.ok.inj hanswer, hasked.journal]
      rfl
    refine ⟨hfound, ?_⟩
    rintro entry rfl
    exact hresumed.recorded.lookup_mono hlog hfound.symm
  · cases herror

theorem racedGenesis_contract
    (happends : dep.Appends calm r genesis producerAuthority event identity)
    {committed reported head : Option AuditHead} :
    (dep.ledgerProtocol calm since).Contract c
      (fun w => dep.Seen r genesis committed reported head w.2)
      (racedGenesis (dep.configs r) genesis head identity)
      fun raced w => dep.Seen r genesis committed reported head w.2 ∧
        match raced with
        | .ok (some raced) => genesis = true ∧
            lookup w.2 (idempotencyKey (dep.ledger r).ledgerId identity.idempotencyKey) = some raced
        | .ok none => genesis = true → head ≠ none → dep.Mismatched r w.2
        | .error _ => ¬ calm := by
  have hgrows : dep.Grows (dep.Seen r genesis committed reported head) := Deployment.Seen.grows
  unfold racedGenesis
  by_cases hrace : genesis = true ∧ head ≠ none
  · rw [if_pos hrace]
    apply Protocol.Contract.ask _ fun _ _ _ => List.prefix_refl _
    intro w asked hw hpre hasked hlog answer s' hserves
    have hpre' := hgrows _ _ hasked.recorded hlog hpre
    obtain rfl := hserves.1.unchanged rfl
    refine ⟨asked.2, hasked, fun _ _ => List.prefix_refl _, ?_⟩
    intro resumed hresumed hgrown
    refine ⟨hgrows _ _ hresumed.recorded hgrown hpre', ?_⟩
    cases answer with
    | ok found =>
        obtain ⟨hfound, hstays⟩ := lookup_answered hasked hresumed hgrown hserves
        cases found with
        | some raced => exact ⟨hrace.1, hstays raced rfl⟩
        | none =>
            intro htrue _
            obtain ⟨⟨now, rfl⟩, rfl⟩ := happends.genesis htrue
            exact (Deployment.mismatched_of_lookup hasked.recorded
              happends.identified.idempotencyKey hfound.symm
              (hpre'.position.commits hrace.2)).mono hresumed.recorded hgrown
    | error e =>
        intro hcalm
        obtain ⟨_, hok⟩ := hserves.2 hcalm
        cases hok
  · rw [if_neg hrace]
    apply Protocol.Contract.pure
    intro w _ hpre
    exact ⟨hpre, fun htrue hhead => absurd ⟨htrue, hhead⟩ hrace⟩

/-- The loop of `appendEvent`. -/
theorem appendAttempts_contract (H : dep.Hosts calm (dep.ledgerProtocol calm since))
    (happends : dep.Appends calm r genesis producerAuthority event identity) (remaining : Nat) :
    (dep.ledgerProtocol calm since).Contract c (fun w => genesis = false → dep.Opened r w.2)
      (appendAttempts dep.runtime (dep.configs r) r event genesis identity remaining)
      fun result w => dep.Appended calm r genesis identity result w.2 := by
  induction remaining with
  | zero =>
      apply Protocol.Contract.ofExcept
      intro w _ _ _
      exact .inl ⟨_, rfl⟩
  | succ remaining ih =>
      unfold appendAttempts
      apply Protocol.Contract.state
      intro s
      apply Protocol.Contract.of_weaker fun w => dep.Seen r genesis
        (s.recorders r).committedHead (s.recorders r).reportedHead none w.2
      · apply H.observe rfl Deployment.Seen.grows.stable
        · intro read asked s' hasked _ hserves
          have hread : Known (dep.ledger r) read asked.2 := by
            rcases hserves.1 with ⟨-, head, hearlier, hanswer⟩ | ⟨-, _, -, herror⟩
            · rw [Except.ok.inj hanswer]
              rw [hasked.journal] at hearlier
              exact .earlier hasked.recorded hearlier
            · cases herror
          have hposition : calm → genesis = false →
              higherHead (s.recorders r).committedHead read ≠ none := by
            rintro hcalm rfl hnone
            obtain ⟨hcommitted, rfl⟩ := higherHead_eq_none.mp hnone
            obtain ⟨head, hhead, hposition⟩ := hserves.2 hcalm
            rw [hcommitted] at hposition
            exact hposition rfl (Except.ok.inj hhead).symm
          apply Protocol.Contract.of_weaker fun w => dep.Seen r genesis
            (s.recorders r).committedHead (s.recorders r).reportedHead
            (higherHead (s.recorders r).committedHead read) w.2
          · apply Protocol.Contract.bind (racedGenesis_contract happends)
            · intro raced
              cases raced with
              | some raced =>
                  apply Protocol.Contract.ofExcept
                  rintro w hw ⟨-, rfl, hlookup⟩
                  exact resolveExisting_appended happends hw.recorded hlookup
              | none =>
                  apply (appendAt_contract H happends hposition ih).mono_pre
                  intro w _ h
                  exact ⟨h.1, h.2⟩
            · intro e w _ h hcalm
              exact absurd hcalm h.2
          · intro w _ h
            exact ⟨h.1.opened, h.1.committed, h.1.reported,
              h.1.committed.higher (hread.mono h.2)⟩
        · intro e s₁ s₂ w hserves _ _ hcalm
          obtain ⟨_, hok, -⟩ := hserves.2 hcalm
          cases hok
      · rintro w hw ⟨rfl, hopened⟩
        exact ⟨hopened, (hw.recorders r).committed, (hw.recorders r).reported, .of_none⟩

end LedgerContracts

end KyaOs.Audit
