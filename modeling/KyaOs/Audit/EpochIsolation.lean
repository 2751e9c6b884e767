import KyaOs.Audit.CheckpointBuilder
import KyaOs.Audit.Digests
import KyaOs.Audit.Outbox

/-!
# Isolation of ledger epochs

The journal, the checkpoint store and the outbox each join two identifiers with a NUL. What
one pair of identifiers does is not seen under another pair exactly when the pairs do not
join to one text, and an identifier may hold a NUL.
-/

namespace KyaOs.Audit

open Js

variable {D : Type}

/-- The schema of ledger, epoch, source and event ids. -/
def idSchema (id : JsString) : Bool := 1 ≤ id.length ∧ id.length ≤ 256

/-- `/^sha256:[a-f0-9]{64}$/`. -/
def digestSchema (digest : Digest) : Bool :=
  startsWith digest (js "sha256:") && digest.length == 71 &&
    (digest.drop 7).all fun u => isDigit u || (0x61 ≤ u && u ≤ 0x66)

def ledgerOf (pair : JsString × JsString) : AuditLedgerRef := ⟨pair.1, pair.2⟩

def itemKeyOf (pair : JsString × JsString) : AuditOutboxItemKey := ⟨pair.1, pair.2⟩

/-- The pairs join to one text around a NUL without being equal. -/
def Overlap (p q : JsString × JsString) : Prop := ReadLater 0 p q ∨ ReadLater 0 q p

theorem join_eq_iff_overlap {p q : JsString × JsString} (hne : p ≠ q) :
    p.1 ++ 0 :: p.2 = q.1 ++ 0 :: q.2 ↔ Overlap p q := by
  rw [join_eq_iff, Overlap]
  exact or_iff_right hne

/-- Ids without a NUL are kept apart. -/
theorem not_overlap {p q : JsString × JsString} (hp : 0 ∉ p.1) (hq : 0 ∉ q.1) : ¬ Overlap p q :=
  fun h => h.elim (not_readLater hq) (not_readLater hp)

/-- The journals answer every read of a ledger alike. -/
structure MemoryAuditJournal.SameFor (ledger : AuditLedgerRef)
    (left right : MemoryAuditJournal D) : Prop where
  head : left.getHead ledger = right.getHead ledger
  snapshot : left.snapshot ledger = right.snapshot ledger
  range : ∀ afterSequence limit,
    left.readRange ledger afterSequence limit = right.readRange ledger afterSequence limit

/-- What an append to one ledger leaves of another. The idempotency keys are the ledger id's,
whatever the epoch. -/
structure JournalIsolated (D : Type) (written read : AuditLedgerRef) : Prop where
  reads : ∀ (journal : MemoryAuditJournal D) expectedHead entry key,
    (journal.compareAndAppend written expectedHead entry key).2.SameFor read journal
  idempotency : ∀ (journal : MemoryAuditJournal D) expectedHead entry key key',
    written.ledgerId ≠ read.ledgerId → digestSchema key = true → digestSchema key' = true →
      (journal.compareAndAppend written expectedHead entry key).2.getByIdempotencyKey
        read.ledgerId key' = journal.getByIdempotencyKey read.ledgerId key'

section Journal

variable {journal : MemoryAuditJournal D} {written read : AuditLedgerRef}
  {expectedHead : Option AuditHead} {entry : SignedAuditEntry D} {key : Digest}

/-- An attempt stores nothing, or what `append` stores. -/
theorem compareAndAppend_cases (journal : MemoryAuditJournal D) (written : AuditLedgerRef)
    (expectedHead : Option AuditHead) (entry : SignedAuditEntry D) (key : Digest) :
    (journal.compareAndAppend written expectedHead entry key).2 = journal ∨
      (journal.compareAndAppend written expectedHead entry key).2 =
        journal.append written entry key := by
  rw [MemoryAuditJournal.compareAndAppend]
  split
  · left
    split_ifs <;> rfl
  · split_ifs
    · exact .inr rfl
    · exact .inl rfl

theorem MemoryAuditJournal.SameFor.append (h : ledgerKey written ≠ ledgerKey read) :
    (journal.append written entry key).SameFor read journal := by
  have hsnapshot : (journal.append written entry key).snapshot read = journal.snapshot read :=
    Function.update_of_ne h.symm _ _
  refine ⟨Function.update_of_ne h.symm _ _, hsnapshot, ?_⟩
  intro afterSequence limit
  simp only [MemoryAuditJournal.readRange, hsnapshot]

theorem zero_notMem_of_digestSchema (h : digestSchema key = true) : 0 ∉ key := by
  simp only [digestSchema, Bool.and_eq_true, beq_iff_eq] at h
  obtain ⟨⟨hstart, -⟩, hrest⟩ := h
  obtain ⟨rest, rfl⟩ := startsWith_iff.mp hstart
  have hname : 0 ∉ js "sha256:" := by decide
  rw [show 7 = (js "sha256:").length by decide, List.drop_left] at hrest
  intro hmem
  obtain hmem | hmem := List.mem_append.mp hmem
  · exact hname hmem
  · have hunit := List.all_eq_true.mp hrest 0 hmem
    revert hunit
    decide

/-- The idempotency keys of two ledger ids are apart. -/
theorem idempotencyKey_injective {ledgerId ledgerId' : JsString} {key key' : Digest}
    (hkey : digestSchema key = true) (hkey' : digestSchema key' = true)
    (h : idempotencyKey ledgerId key = idempotencyKey ledgerId' key') :
    ledgerId = ledgerId' ∧ key = key' :=
  eq_of_join_last_eq (zero_notMem_of_digestSchema hkey) (zero_notMem_of_digestSchema hkey') h

theorem journalIsolated_of_ne (h : ledgerKey written ≠ ledgerKey read) :
    JournalIsolated D written read where
  reads journal expectedHead entry key := by
    obtain hsame | happended := compareAndAppend_cases journal written expectedHead entry key
    · rw [hsame]
      exact ⟨rfl, rfl, fun _ _ => rfl⟩
    · rw [happended]
      exact .append h
  idempotency journal expectedHead entry key key' hledgers hkey hkey' := by
    obtain hsame | happended := compareAndAppend_cases journal written expectedHead entry key
    · rw [hsame]
    · rw [happended]
      exact Function.update_of_ne
        (fun heq => hledgers (idempotencyKey_injective hkey' hkey heq).1.symm) _ _

/-- Under one key an append to the first ledger is the head of the second. -/
theorem ne_of_journalIsolated (entry : SignedAuditEntry D) (h : JournalIsolated D written read) :
    ledgerKey written ≠ ledgerKey read := by
  intro heq
  have hhead : (MemoryAuditJournal.empty.append written entry []).heads (ledgerKey read) = none :=
    (h.reads .empty none entry []).head
  have hnew : (MemoryAuditJournal.empty.append written entry []).heads (ledgerKey written) =
      some { written with sequence := entry.core.sequence, entryDigest := entry.entryDigest } :=
    Function.update_self _ _ _
  rw [← heq, hnew] at hhead
  cases hhead

end Journal

structure MemoryAuditCheckpointStore.SameFor (ledger : AuditLedgerRef)
    (left right : MemoryAuditCheckpointStore D) : Prop where
  latest : left.getLatest ledger = right.getLatest ledger
  byTreeSize : ∀ treeSize, left.getByTreeSize ledger treeSize = right.getByTreeSize ledger treeSize

def CheckpointsIsolated (D : Type) (written read : AuditLedgerRef) : Prop :=
  ∀ (store : MemoryAuditCheckpointStore D) (checkpoint : SignedAuditCheckpoint D),
    checkpoint.core.toAuditLedgerRef = written → (store.putIfAbsent checkpoint).2.SameFor read store

section Checkpoints

variable {written read : AuditLedgerRef}

theorem eq_of_checkpointKey {treeSize treeSize' : Nat}
    (h : checkpointKey written treeSize = checkpointKey read treeSize') :
    ledgerKey written = ledgerKey read :=
  (eq_of_join_last_eq (notMem_decimalString (by decide) treeSize)
    (notMem_decimalString (by decide) treeSize') h).1

theorem checkpointsIsolated_of_ne (h : ledgerKey written ≠ ledgerKey read) :
    CheckpointsIsolated D written read := by
  intro store checkpoint hwritten
  rw [MemoryAuditCheckpointStore.putIfAbsent]
  split
  · split_ifs
    · exact ⟨rfl, fun _ => rfl⟩
    · exact ⟨rfl, fun _ => rfl⟩
  · refine ⟨Function.update_of_ne ?_ _ _, fun treeSize => Function.update_of_ne ?_ _ _⟩
    · rw [SignedAuditCheckpoint.key, hwritten]
      exact h.symm
    · rw [hwritten]
      exact fun heq => h (eq_of_checkpointKey heq).symm

theorem ne_of_checkpointsIsolated {checkpoint : SignedAuditCheckpoint D}
    (hcheckpoint : checkpoint.core.toAuditLedgerRef = written)
    (h : CheckpointsIsolated D written read) : ledgerKey written ≠ ledgerKey read := by
  intro heq
  let store : MemoryAuditCheckpointStore D := ⟨fun _ => none, fun _ => none⟩
  have hlatest : (store.insert checkpoint).latest (ledgerKey read) = none :=
    (h store checkpoint hcheckpoint).latest
  have hnew : (store.insert checkpoint).latest checkpoint.key = some checkpoint :=
    Function.update_self _ _ _
  have hkey : checkpoint.key = ledgerKey read := by
    rw [SignedAuditCheckpoint.key, hcheckpoint, heq]
  rw [← hkey, hnew] at hlatest
  cases hlatest

end Checkpoints

/-- What a call that names one item leaves pending for another. -/
def OutboxIsolated (numbers : Doubles D) (written read : AuditOutboxItemKey) : Prop :=
  ∀ (outbox : MemoryAuditOutbox D) (call : OutboxCall D), outbox.Reached numbers →
    call.Names written → ¬ call.Names read →
      (call.run numbers outbox).2.pendingOf read = outbox.pendingOf read

section Outbox

open MemoryAuditOutbox

variable {numbers : Doubles D} {written read : AuditOutboxItemKey} {outbox : MemoryAuditOutbox D}

/-- What an acknowledgement of other names reaches is no item of this one. -/
theorem reached_ne (hkeyed : outbox.Keyed) (h : storageKey written ≠ storageKey read)
    {named : AuditOutboxItemKey ⊕ JsString} {stored : JsString}
    (hstored : outbox.storedKey named = .ok (some stored))
    (hnamed : OutboxCall.Acknowledges named written)
    (hother : ¬ OutboxCall.Acknowledges named read) :
    ∀ item, (stored, item) ∈ outbox.items → auditOutboxItemKey item ≠ read := by
  rintro item hmem rfl
  have hkey := hkeyed.own stored item hmem
  cases named with
  | inl key =>
      cases hnamed
      cases hstored
      exact h hkey
  | inr eventId =>
      -- The item under the key is the one that was found by its event id.
      rw [storedKey] at hstored
      split_ifs at hstored with hseveral
      obtain ⟨found, hfirst, hname⟩ := Option.map_eq_some_iff.mp (Except.ok.inj hstored)
      have hfound := List.mem_filter.mp (List.mem_of_head? hfirst)
      obtain rfl : found = (stored, item) :=
        List.inj_on_of_nodup_map hkeyed.nodup hfound.1 hmem hname
      have hid : item.eventId = eventId := of_decide_eq_true hfound.2
      exact hother hid

theorem outboxIsolated_of_ne (h : storageKey written ≠ storageKey read) :
    OutboxIsolated numbers written read := by
  intro outbox call hreached hwritten hread
  have hkeyed := hreached.keyed
  obtain hsame | ⟨item, rfl, hlookup, hafter⟩ | ⟨named, stored, hstored, hmarked⟩ :=
    run_cases numbers call outbox
  · rw [hsame]
  · rw [hafter]
    refine pendingOf_assign ?_ hread
    intro old hmem
    have hnone := List.lookup_eq_none_iff.mp hlookup _ hmem
    exact absurd rfl (bne_iff_ne.mp hnone)
  · obtain ⟨rfl, hafter⟩ | ⟨rfl, item, hlookup, hafter⟩ := hmarked
    · rw [hafter]
      exact pendingOf_delete (reached_ne hkeyed h hstored hwritten hread)
    · have hne := reached_ne hkeyed h hstored hwritten hread
      rw [hafter]
      exact pendingOf_assign hne (hne item (mem_of_lookup hlookup))

/-- Under one key an acknowledgement of the first item deletes the second. -/
theorem ne_of_outboxIsolated {item : AuditOutboxItem D} (hitem : auditOutboxItemKey item = read)
    (hne : written ≠ read) (h : OutboxIsolated numbers written read) :
    storageKey written ≠ storageKey read := by
  intro heq
  have hkept := h ((OutboxCall.enqueue item).run numbers .empty).2 (.markDelivered (.inl written))
    (.call .empty _) rfl hne
  have henqueued : ((OutboxCall.enqueue item).run numbers .empty).2 =
      ⟨[(storageKey read, item)]⟩ := by
    rw [← hitem]
    rfl
  have hdelivered : ((OutboxCall.markDelivered (.inl written)).run numbers
      ⟨[(storageKey read, item)]⟩).2 = .empty := by
    simp [OutboxCall.run, MemoryAuditOutbox.markDelivered, storedKey, MemoryAuditOutbox.delete,
      withoutKeys, MemoryAuditOutbox.empty, heq]
  rw [henqueued, hdelivered, pendingOf_eq, pendingOf_eq] at hkept
  simp [MemoryAuditOutbox.empty, hitem] at hkept

end Outbox

section Epochs

variable (numbers : Doubles D)

def sampleSigner : SignerRef := ⟨js "did:web:host", js "did:web:host#k", .EdDSA⟩

/-- An entry of a ledger. -/
def entryOf (ledger : AuditLedgerRef) : SignedAuditEntry D where
  core :=
    { ledger with
      schema := auditEntrySchemaId
      sequence := 0
      previousEntryDigest := none
      recordedAt := numbers.ofText (js "0")
      recorder := sampleSigner
      eventDigest := js "sha256:e"
      event := .object []
      evidenceManifestDigest := js "sha256:m"
      integritySuite := auditIntegritySuite }
  eventDigest := js "sha256:e"
  entryDigest := js "sha256:d"
  receiptCore :=
    { ledger with
      schema := auditReceiptSchemaId
      sequence := 0
      eventId := js "event"
      entryDigest := js "sha256:d"
      previousEntryDigest := none
      recordedAt := numbers.ofText (js "0")
      recorder := sampleSigner
      integritySuite := auditIntegritySuite }
  jws := js "jws"

/-- A checkpoint of a ledger. -/
def checkpointOf (ledger : AuditLedgerRef) : SignedAuditCheckpoint D where
  core :=
    { ledger with
      schema := auditCheckpointSchemaId
      checkpointId := js "checkpoint"
      treeSize := 1
      firstSequence := 0
      lastSequence := 0
      rootDigest := js "sha256:r"
      headEntryDigest := js "sha256:d"
      previousCheckpointDigest := none
      createdAt := numbers.ofText (js "0")
      issuer := sampleSigner
      integritySuite := auditCheckpointSuite }
  checkpointDigest := js "sha256:c"
  jws := js "jws"

/-- An item of a key. -/
def itemOf (key : AuditOutboxItemKey) : AuditOutboxItem D where
  eventId := key.eventId
  submission :=
    { ledgerId := js "ledger"
      producerEvent := .object [(js "source", .object [(js "sourceId", .string key.sourceId)])] }
  enqueuedAt := numbers.ofText (js "0")
  attempts := 0

theorem auditOutboxItemKey_itemOf (key : AuditOutboxItemKey) :
    auditOutboxItemKey (itemOf numbers key) = key := rfl

/-- Each store keeps two pairs of ids apart exactly when the ids cannot be read as one another
around a NUL. -/
theorem isolated_iff {p q : JsString × JsString} (hne : p ≠ q) :
    (JournalIsolated D (ledgerOf p) (ledgerOf q) ↔ ¬ Overlap p q) ∧
      (CheckpointsIsolated D (ledgerOf p) (ledgerOf q) ↔ ¬ Overlap p q) ∧
      (OutboxIsolated numbers (itemKeyOf p) (itemKeyOf q) ↔ ¬ Overlap p q) := by
  have hkeys : ledgerKey (ledgerOf p) ≠ ledgerKey (ledgerOf q) ↔ ¬ Overlap p q :=
    not_congr (join_eq_iff_overlap hne)
  have hstorage : storageKey (itemKeyOf p) ≠ storageKey (itemKeyOf q) ↔ ¬ Overlap p q :=
    not_congr (join_eq_iff_overlap hne)
  have hitems : itemKeyOf p ≠ itemKeyOf q := by
    intro heq
    obtain ⟨hsource, hevent⟩ := (AuditOutboxItemKey.mk.injEq ..).mp heq
    exact hne (Prod.ext hsource hevent)
  refine ⟨?_, ?_, ?_⟩
  · rw [← hkeys]
    exact ⟨ne_of_journalIsolated (entryOf numbers (ledgerOf p)), journalIsolated_of_ne⟩
  · rw [← hkeys]
    exact ⟨@ne_of_checkpointsIsolated D _ _ (checkpointOf numbers (ledgerOf p)) rfl,
      checkpointsIsolated_of_ne⟩
  · rw [← hstorage]
    exact ⟨ne_of_outboxIsolated (auditOutboxItemKey_itemOf numbers (itemKeyOf q)) hitems,
      outboxIsolated_of_ne⟩

theorem isolated_iff_sample :
    JournalIsolated SampleDouble (ledgerOf (js "ledger", js "1")) (ledgerOf (js "ledger", js "2")) ∧
      OutboxIsolated sampleDoubles (itemKeyOf (js "ledger", js "1"))
        (itemKeyOf (js "ledger", js "2")) := by
  have hne : (js "ledger", js "1") ≠ (js "ledger", js "2") := by decide
  have hapart : ¬ Overlap (js "ledger", js "1") (js "ledger", js "2") :=
    not_overlap (by decide) (by decide)
  have hstores := isolated_iff sampleDoubles hne
  exact ⟨hstores.1.mpr hapart, hstores.2.2.mpr hapart⟩

/-- Two schema-valid pairs that join to one text. -/
def overlapping : (JsString × JsString) × (JsString × JsString) :=
  (([0x61, 0, 0x62], js "c"), (js "a", [0x62, 0, 0x63]))

/-- The schemas let both pairs through, and no store keeps them apart. -/
theorem overlapping_not_isolated :
    (idSchema overlapping.1.1 && idSchema overlapping.1.2 && idSchema overlapping.2.1 &&
        idSchema overlapping.2.2) = true ∧ overlapping.1 ≠ overlapping.2 ∧
      ¬ JournalIsolated SampleDouble (ledgerOf overlapping.1) (ledgerOf overlapping.2) ∧
      ¬ CheckpointsIsolated SampleDouble (ledgerOf overlapping.1) (ledgerOf overlapping.2) ∧
      ¬ OutboxIsolated sampleDoubles (itemKeyOf overlapping.1) (itemKeyOf overlapping.2) := by
  have hitems : itemKeyOf overlapping.1 ≠ itemKeyOf overlapping.2 := by decide
  refine ⟨by decide, by decide, ?_, ?_, ?_⟩
  · exact fun h => ne_of_journalIsolated (entryOf sampleDoubles (ledgerOf overlapping.1)) h rfl
  · exact fun h => @ne_of_checkpointsIsolated SampleDouble _ _
      (checkpointOf sampleDoubles (ledgerOf overlapping.1)) rfl h rfl
  · exact fun h => ne_of_outboxIsolated (auditOutboxItemKey_itemOf sampleDoubles _) hitems h rfl

end Epochs

end KyaOs.Audit
