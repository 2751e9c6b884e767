import KyaOs.Audit.Providers
import KyaOs.HashChain.Linked

/-!
# The journal as a log

An abstract journal is the list of its commits, in order; `replay` is the concrete journal
those commits leave behind. What a journal holds is proved of the log, one commit at a
time, and losing a suffix of the log is losing its last commits.
-/

namespace KyaOs.Audit

open Js HashChain

variable {D : Type}

/-- One accepted `compareAndAppend`. -/
structure Commit (D : Type) where
  ledger : AuditLedgerRef
  key : Digest
  entry : SignedAuditEntry D

namespace Commit

/-- The head the journal reports after it. -/
def head (commit : Commit D) : AuditHead :=
  { commit.ledger with
    sequence := commit.entry.core.sequence
    entryDigest := commit.entry.entryDigest }

def ledgerKey (commit : Commit D) : JsString := Audit.ledgerKey commit.ledger

def idempotencyKey (commit : Commit D) : JsString :=
  Audit.idempotencyKey commit.ledger.ledgerId commit.key

end Commit

def replay (log : List (Commit D)) : MemoryAuditJournal D :=
  log.foldl (fun journal commit => journal.append commit.ledger commit.entry commit.key) .empty

/-- The commits under one key of `entriesByLedger`. -/
def commitsAt (log : List (Commit D)) (key : JsString) : List (Commit D) :=
  log.filter fun commit => commit.ledgerKey = key

/-- The entry under one key of `entriesByIdempotency`. -/
def lookup (log : List (Commit D)) (id : JsString) : Option (SignedAuditEntry D) :=
  (replay log).entriesByIdempotency id

section Replay

variable {log : List (Commit D)} {commit : Commit D} {key id : JsString}

@[simp] theorem replay_concat : replay (log ++ [commit]) =
    (replay log).append commit.ledger commit.entry commit.key := by
  simp [replay]

@[simp] theorem commitsAt_nil : commitsAt ([] : List (Commit D)) key = [] := rfl

@[simp] theorem commitsAt_concat : commitsAt (log ++ [commit]) key =
    commitsAt log key ++ (if commit.ledgerKey = key then [commit] else []) := by
  by_cases hkey : commit.ledgerKey = key
  · simp [commitsAt, List.filter_append, hkey]
  · simp [commitsAt, List.filter_append, hkey]

theorem mem_commitsAt : commit ∈ commitsAt log key ↔ commit ∈ log ∧ commit.ledgerKey = key := by
  simp [commitsAt]

theorem entriesByLedger_replay (log : List (Commit D)) (key : JsString) :
    (replay log).entriesByLedger key = (commitsAt log key).map (·.entry) := by
  induction log using List.reverseRecOn with
  | nil => rfl
  | append_singleton log commit ih =>
      rw [replay_concat, commitsAt_concat]
      by_cases hkey : commit.ledgerKey = key
      · subst hkey
        simp only [MemoryAuditJournal.append, Commit.ledgerKey] at ih ⊢
        simp [ih]
      · have hne : key ≠ Audit.ledgerKey commit.ledger := Ne.symm hkey
        simp [MemoryAuditJournal.append, Function.update_of_ne hne, ih, hkey]

theorem heads_replay (log : List (Commit D)) (key : JsString) :
    (replay log).heads key = (commitsAt log key).getLast?.map Commit.head := by
  induction log using List.reverseRecOn with
  | nil => rfl
  | append_singleton log commit ih =>
      rw [replay_concat, commitsAt_concat]
      by_cases hkey : commit.ledgerKey = key
      · subst hkey
        simp [MemoryAuditJournal.append, Commit.ledgerKey, Commit.head]
      · have hne : key ≠ Audit.ledgerKey commit.ledger := Ne.symm hkey
        simp [MemoryAuditJournal.append, Function.update_of_ne hne, ih, hkey]

theorem getHead_replay (log : List (Commit D)) (ledger : AuditLedgerRef) :
    (replay log).getHead ledger = (commitsAt log (ledgerKey ledger)).getLast?.map Commit.head :=
  heads_replay log (ledgerKey ledger)

theorem readFirst_replay (log : List (Commit D)) (ledger : AuditLedgerRef) :
    ((replay log).readRange ledger none (some 1)).head? =
      (commitsAt log (ledgerKey ledger)).head?.map (·.entry) := by
  simp only [MemoryAuditJournal.readRange, MemoryAuditJournal.snapshot, entriesByLedger_replay,
    List.filter_true]
  cases commitsAt log (ledgerKey ledger) <;> simp

@[simp] theorem lookup_nil : lookup ([] : List (Commit D)) id = none := rfl

@[simp] theorem lookup_concat : lookup (log ++ [commit]) id =
    if commit.idempotencyKey = id then some commit.entry else lookup log id := by
  by_cases hid : commit.idempotencyKey = id
  · subst hid
    simp [lookup, MemoryAuditJournal.append, Commit.idempotencyKey]
  · have hne : id ≠ Audit.idempotencyKey commit.ledger.ledgerId commit.key := Ne.symm hid
    simp [lookup, MemoryAuditJournal.append, Function.update_of_ne hne, hid]

theorem lookup_mem {entry : SignedAuditEntry D} (h : lookup log id = some entry) :
    ∃ commit ∈ log, commit.idempotencyKey = id ∧ commit.entry = entry := by
  induction log using List.reverseRecOn with
  | nil => simp at h
  | append_singleton log commit ih =>
      rw [lookup_concat] at h
      by_cases hid : commit.idempotencyKey = id
      · rw [if_pos hid] at h
        exact ⟨commit, by simp, hid, Option.some.inj h⟩
      · rw [if_neg hid] at h
        obtain ⟨found, hfound, hrest⟩ := ih h
        exact ⟨found, List.mem_append_left _ hfound, hrest⟩

end Replay

def entryLinks : Links (SignedAuditEntry D) Digest where
  sequence entry := entry.core.sequence
  previous entry := entry.core.previousEntryDigest
  digest entry := entry.entryDigest

/-- A commit of an entry built on the head it was appended to. -/
structure Appendable (log : List (Commit D)) (commit : Commit D) : Prop where
  fresh : lookup log commit.idempotencyKey = none
  ledger : commit.entry.core.toAuditLedgerRef = commit.ledger
  fits : entryLinks.Fits (((commitsAt log commit.ledgerKey).map (·.entry)).getLast?) commit.entry

/-- A log grown by commits that were appendable, and admitted by `admits`. -/
inductive Recorded (admits : List (Commit D) → Commit D → Prop) : List (Commit D) → Prop
  | nil : Recorded admits []
  | concat {log : List (Commit D)} {commit : Commit D} :
      Recorded admits log → Appendable log commit → admits log commit →
      Recorded admits (log ++ [commit])

namespace Recorded

variable {admits : List (Commit D) → Commit D → Prop} {log log' : List (Commit D)}
  {commit : Commit D} {key id : JsString} {entry : SignedAuditEntry D}

theorem of_append {more : List (Commit D)} (h : Recorded admits (log ++ more)) :
    Recorded admits log := by
  induction more using List.reverseRecOn with
  | nil => simpa using h
  | append_singleton more commit ih =>
      rw [← List.append_assoc] at h
      generalize hlog : (log ++ more) ++ [commit] = whole at h
      induction h with
      | nil => simp at hlog
      | concat hfront _ _ _ =>
          obtain ⟨hsame, -⟩ := List.append_inj' hlog rfl
          exact ih (hsame ▸ hfront)

theorem weaken {admits' : List (Commit D) → Commit D → Prop} (h : Recorded admits log)
    (hadmits : ∀ log commit, admits log commit → admits' log commit) : Recorded admits' log := by
  induction h with
  | nil => exact .nil
  | concat _ happendable hadmitted ih => exact ih.concat happendable (hadmits _ _ hadmitted)

theorem take (h : Recorded admits log) (n : Nat) : Recorded admits (log.take n) := by
  rw [← List.take_append_drop n log] at h
  exact h.of_append

theorem appended (h : Recorded admits log) (hcommit : commit ∈ log) :
    ∃ front, front <+: log ∧ commit ∉ front ∧ Appendable front commit ∧ admits front commit := by
  induction h with
  | nil => simp at hcommit
  | @concat log last hlog happendable hadmits ih =>
      by_cases hold : commit ∈ log
      · obtain ⟨front, hfront, hrest⟩ := ih hold
        exact ⟨front, hfront.trans (List.prefix_append _ _), hrest⟩
      · obtain rfl : commit = last := by simpa [hold] using hcommit
        exact ⟨log, List.prefix_append _ _, hold, happendable, hadmits⟩

theorem ledger (h : Recorded admits log) (hcommit : commit ∈ log) :
    commit.entry.core.toAuditLedgerRef = commit.ledger := by
  obtain ⟨_, _, _, happendable, _⟩ := h.appended hcommit
  exact happendable.ledger

/-- The entries under one key are a chain from its genesis. -/
theorem complete (h : Recorded admits log) (key : JsString) :
    entryLinks.Complete ((commitsAt log key).map (·.entry)) := by
  induction h with
  | nil => exact .nil
  | @concat log commit _ happendable _ ih =>
      rw [commitsAt_concat]
      by_cases hkey : commit.ledgerKey = key
      · subst hkey
        rw [if_pos rfl, List.map_append]
        exact ih.concat happendable.fits
      · rw [if_neg hkey, List.append_nil]
        exact ih

/-- A commit stays in force. -/
theorem lookup_of_mem (h : Recorded admits log) (hcommit : commit ∈ log) :
    lookup log commit.idempotencyKey = some commit.entry := by
  induction h with
  | nil => simp at hcommit
  | @concat log last _ happendable _ ih =>
      rw [lookup_concat]
      by_cases hold : commit ∈ log
      · have hsome := ih hold
        rw [if_neg, hsome]
        intro hid
        rw [← hid, happendable.fresh] at hsome
        cases hsome
      · obtain rfl : commit = last := by simpa [hold] using hcommit
        rw [if_pos rfl]

theorem lookup_mono (h : Recorded admits log') (hlog : log <+: log')
    (hlookup : lookup log id = some entry) : lookup log' id = some entry := by
  obtain ⟨commit, hcommit, rfl, rfl⟩ := lookup_mem hlookup
  exact h.lookup_of_mem (hlog.subset hcommit)

/-- Commits under one identity are one commit's. -/
theorem entry_eq (h : Recorded admits log) {other : Commit D} (hcommit : commit ∈ log)
    (hother : other ∈ log) (hid : commit.idempotencyKey = other.idempotencyKey) :
    commit.entry = other.entry := by
  have hlookup := h.lookup_of_mem hcommit
  rw [hid, h.lookup_of_mem hother] at hlookup
  exact (Option.some.inj hlookup).symm

end Recorded

/-- What `compareAndAppend` answers, and the log after it. -/
inductive Compared (log : List (Commit D)) (ledger : AuditLedgerRef)
    (expectedHead : Option AuditHead) (entry : SignedAuditEntry D) (key : Digest) :
    AuditAppendResult D → List (Commit D) → Prop
  | duplicate {existing : SignedAuditEntry D} :
      lookup log (idempotencyKey ledger.ledgerId key) = some existing →
      existing.eventDigest = entry.eventDigest →
      Compared log ledger expectedHead entry key (.duplicate existing) log
  | idempotencyConflict {existing : SignedAuditEntry D} :
      lookup log (idempotencyKey ledger.ledgerId key) = some existing →
      existing.eventDigest ≠ entry.eventDigest →
      Compared log ledger expectedHead entry key (.idempotencyConflict existing) log
  | appended :
      lookup log (idempotencyKey ledger.ledgerId key) = none →
      headsEqual expectedHead ((replay log).getHead ledger) = true →
      Compared log ledger expectedHead entry key (.appended entry) (log ++ [⟨ledger, key, entry⟩])
  | headConflict :
      lookup log (idempotencyKey ledger.ledgerId key) = none →
      headsEqual expectedHead ((replay log).getHead ledger) = false →
      Compared log ledger expectedHead entry key (.headConflict ((replay log).getHead ledger)) log

/-- `compareAndAppend` on the log. -/
theorem compareAndAppend_replay (log : List (Commit D)) (ledger : AuditLedgerRef)
    (expectedHead : Option AuditHead) (entry : SignedAuditEntry D) (key : Digest) :
    ∃ log', Compared log ledger expectedHead entry key
        ((replay log).compareAndAppend ledger expectedHead entry key).1 log' ∧
      ((replay log).compareAndAppend ledger expectedHead entry key).2 = replay log' := by
  have hlookup : (replay log).getByIdempotencyKey ledger.ledgerId key =
      lookup log (idempotencyKey ledger.ledgerId key) := rfl
  unfold MemoryAuditJournal.compareAndAppend
  rw [hlookup]
  cases hexisting : lookup log (idempotencyKey ledger.ledgerId key) with
  | some existing =>
      by_cases hdigest : existing.eventDigest = entry.eventDigest
      · simp only [hdigest, if_true]
        exact ⟨log, .duplicate hexisting hdigest, rfl⟩
      · simp only [hdigest, if_false]
        exact ⟨log, .idempotencyConflict hexisting hdigest, rfl⟩
  | none =>
      cases hheads : headsEqual expectedHead ((replay log).getHead ledger) with
      | true =>
          simp only [if_true]
          exact ⟨log ++ [⟨ledger, key, entry⟩], .appended hexisting hheads, by simp⟩
      | false =>
          simp only [Bool.false_eq_true, if_false]
          exact ⟨log, .headConflict hexisting hheads, rfl⟩

/-- An append on the head the journal has. -/
theorem compareAndAppend_getHead {journal : MemoryAuditJournal D} {ledger : AuditLedgerRef}
    {entry : SignedAuditEntry D} {key : Digest}
    (hlookup : journal.getByIdempotencyKey ledger.ledgerId key = none)
    (hheads : headsEqual (journal.getHead ledger) (journal.getHead ledger) = true) :
    journal.compareAndAppend ledger (journal.getHead ledger) entry key =
      (.appended entry, journal.append ledger entry key) := by
  simp only [MemoryAuditJournal.compareAndAppend, hlookup, hheads, if_true]

/-- An append on a head that is not the journal's. -/
theorem compareAndAppend_stale {journal : MemoryAuditJournal D} {ledger : AuditLedgerRef}
    {expectedHead : Option AuditHead} {entry : SignedAuditEntry D} {key : Digest}
    (hlookup : journal.getByIdempotencyKey ledger.ledgerId key = none)
    (hheads : headsEqual expectedHead (journal.getHead ledger) = false) :
    journal.compareAndAppend ledger expectedHead entry key =
      (.headConflict (journal.getHead ledger), journal) := by
  simp only [MemoryAuditJournal.compareAndAppend, hlookup, hheads, Bool.false_eq_true, if_false]

theorem headsEqual_iff {left right : Option AuditHead} :
    headsEqual left right = true ↔ left = right := by
  cases left with
  | none => cases right <;> simp [headsEqual]
  | some left =>
      cases right with
      | none => simp [headsEqual]
      | some right =>
          obtain ⟨⟨_, _⟩, _, _⟩ := left
          obtain ⟨⟨_, _⟩, _, _⟩ := right
          simp [headsEqual, and_assoc]

end KyaOs.Audit
