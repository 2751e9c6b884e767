import KyaOs.Audit.Recorder
import KyaOs.Utils.JsonMembers

/-!
# The in-memory outbox

`MemoryAuditOutbox`: submissions that no recorder has acknowledged yet, in the order they
came. An item is stored under its source and its event id, and acknowledged by both, or by
the event id alone while only one source has it pending.
-/

namespace KyaOs.Audit

open Js

variable {D : Type}

structure AuditOutboxItemKey where
  sourceId : JsString
  eventId : JsString
  deriving DecidableEq

structure AuditOutboxItem (D : Type) where
  eventId : JsString
  submission : AuditRecorderSubmission D
  enqueuedAt : D
  attempts : Nat

def auditOutboxItemKey (item : AuditOutboxItem D) : AuditOutboxItemKey where
  sourceId := textAt item.submission.producerEvent ["source", "sourceId"]
  eventId := item.eventId

def storageKey (key : AuditOutboxItemKey) : JsString := key.sourceId ++ 0 :: key.eventId

section Same

variable (numbers : Doubles D)

/-- The evidence of two submissions, item by item. -/
def sameEvidence : List (EncryptedEvidenceInput D × EncryptedEvidenceInput D) → Except Error Bool
  | [] => return true
  | (item, other) :: rest => do
    let ref ← canonicalizeJson numbers item.ref
    let otherRef ← canonicalizeJson numbers other.ref
    if ref ≠ otherRef ∨ item.ciphertext ≠ other.ciphertext then return false
    else sameEvidence rest

def sameSubmission (left right : AuditRecorderSubmission D) : Except Error Bool :=
  if left.ledgerId ≠ right.ledgerId ∨
      left.expectedLedgerEpochId ≠ right.expectedLedgerEpochId then return false
  else do
    let event ← canonicalizeJson numbers left.producerEvent
    let otherEvent ← canonicalizeJson numbers right.producerEvent
    if event ≠ otherEvent ∨ left.encryptedEvidence.length ≠ right.encryptedEvidence.length then
      return false
    else sameEvidence numbers (left.encryptedEvidence.zip right.encryptedEvidence)

end Same

/-- The map from storage keys to items, in the order of insertion. -/
structure MemoryAuditOutbox (D : Type) where
  items : List (JsString × AuditOutboxItem D)

namespace MemoryAuditOutbox

variable (outbox : MemoryAuditOutbox D)

def empty : MemoryAuditOutbox D := ⟨[]⟩

def enqueue (numbers : Doubles D) (item : AuditOutboxItem D) :
    Except Error Unit × MemoryAuditOutbox D :=
  let key := storageKey (auditOutboxItemKey item)
  match outbox.items.lookup key with
  | some existing =>
    match sameSubmission numbers existing.submission item.submission with
    | .error thrown => (.error thrown, outbox)
    | .ok true => (.ok (), outbox)
    | .ok false =>
      (.error (.error (js "Audit outbox event identity collision: " ++ item.eventId)), outbox)
  | none => (.ok (), ⟨assignMember key item outbox.items⟩)

/-- What `pending` yields. -/
def pending (limit : Option Nat) : List (AuditOutboxItem D) :=
  (outbox.items.map Prod.snd).take (limit.getD JsNumber.maxSafeInteger)

/-- The key an acknowledgement reaches; a bare event id has to be pending for one source. -/
def storedKey : AuditOutboxItemKey ⊕ JsString → Except Error (Option JsString)
  | .inl key => .ok (some (storageKey key))
  | .inr eventId =>
    let found := outbox.items.filter fun stored => stored.2.eventId = eventId
    if 1 < found.length then
      .error (.error (js "Audit outbox event ID " ++ eventId ++
        js " is pending for several sources; pass its AuditOutboxItemKey"))
    else .ok (found.head?.map Prod.fst)

def delete (key : JsString) : MemoryAuditOutbox D := ⟨withoutKeys outbox.items (· = key)⟩

def markDelivered (key : AuditOutboxItemKey ⊕ JsString) :
    Except Error Unit × MemoryAuditOutbox D :=
  match outbox.storedKey key with
  | .error thrown => (.error thrown, outbox)
  | .ok none => (.ok (), outbox)
  | .ok (some stored) => (.ok (), outbox.delete stored)

def markFailed (key : AuditOutboxItemKey ⊕ JsString) :
    Except Error Unit × MemoryAuditOutbox D :=
  match outbox.storedKey key with
  | .error thrown => (.error thrown, outbox)
  | .ok none => (.ok (), outbox)
  | .ok (some stored) =>
    match outbox.items.lookup stored with
    | none => (.ok (), outbox)
    | some item =>
      (.ok (), ⟨assignMember stored { item with attempts := item.attempts + 1 } outbox.items⟩)

end MemoryAuditOutbox

inductive OutboxCall (D : Type) where
  | enqueue (item : AuditOutboxItem D)
  | markDelivered (key : AuditOutboxItemKey ⊕ JsString)
  | markFailed (key : AuditOutboxItemKey ⊕ JsString)

namespace OutboxCall

/-- What a call answers, and the outbox after it. -/
def run (numbers : Doubles D) (call : OutboxCall D) (outbox : MemoryAuditOutbox D) :
    Except Error Unit × MemoryAuditOutbox D :=
  match call with
  | .enqueue item => outbox.enqueue numbers item
  | .markDelivered key => outbox.markDelivered key
  | .markFailed key => outbox.markFailed key

/-- An acknowledgement is of an item when it carries its key, or its event id alone. -/
def Acknowledges : AuditOutboxItemKey ⊕ JsString → AuditOutboxItemKey → Prop
  | .inl named, key => named = key
  | .inr eventId, key => key.eventId = eventId

def Names : OutboxCall D → AuditOutboxItemKey → Prop
  | .enqueue item, key => auditOutboxItemKey item = key
  | .markDelivered named, key => Acknowledges named key
  | .markFailed named, key => Acknowledges named key

end OutboxCall

namespace MemoryAuditOutbox

/-- The outboxes that calls lead to. -/
inductive Reached (numbers : Doubles D) : MemoryAuditOutbox D → Prop where
  | empty : Reached numbers empty
  | call {outbox : MemoryAuditOutbox D} (h : Reached numbers outbox) (call : OutboxCall D) :
      Reached numbers (call.run numbers outbox).2

/-- Each item is stored once, under its own key. -/
structure Keyed (outbox : MemoryAuditOutbox D) : Prop where
  nodup : (outbox.items.map Prod.fst).Nodup
  own : ∀ key item, (key, item) ∈ outbox.items → key = storageKey (auditOutboxItemKey item)

variable {outbox : MemoryAuditOutbox D} {key : JsString} {item : AuditOutboxItem D}

theorem keyed_empty : (empty : MemoryAuditOutbox D).Keyed where
  nodup := List.nodup_nil
  own _ _ h := absurd h List.not_mem_nil

theorem Keyed.delete (h : outbox.Keyed) (key : JsString) : (outbox.delete key).Keyed where
  nodup := h.nodup.sublist (List.filter_sublist.map Prod.fst)
  own key' item hmem := h.own key' item (List.mem_of_mem_filter hmem)

theorem Keyed.assign (h : outbox.Keyed) (hkey : key = storageKey (auditOutboxItemKey item)) :
    (MemoryAuditOutbox.mk (assignMember key item outbox.items)).Keyed where
  nodup := nodup_assignMember key item h.nodup
  own key' item' hmem := by
    obtain hnew | hold := mem_assignMember hmem
    · cases hnew
      exact hkey
    · exact h.own key' item' hold

theorem mem_of_lookup (h : outbox.items.lookup key = some item) : (key, item) ∈ outbox.items := by
  obtain ⟨before, after, hitems, -⟩ := List.lookup_eq_some_iff.mp h
  simp [hitems]

/-- A call leaves the outbox, deletes what is under a key, or stores an item under its key. -/
theorem run_cases (numbers : Doubles D) (call : OutboxCall D) (outbox : MemoryAuditOutbox D) :
    (call.run numbers outbox).2 = outbox ∨
      (∃ item, call = .enqueue item ∧
        outbox.items.lookup (storageKey (auditOutboxItemKey item)) = none ∧
        (call.run numbers outbox).2 =
          ⟨assignMember (storageKey (auditOutboxItemKey item)) item outbox.items⟩) ∨
      ∃ named stored, outbox.storedKey named = .ok (some stored) ∧
        (call = .markDelivered named ∧ (call.run numbers outbox).2 = outbox.delete stored ∨
          call = .markFailed named ∧ ∃ item, outbox.items.lookup stored = some item ∧
            (call.run numbers outbox).2 =
              ⟨assignMember stored { item with attempts := item.attempts + 1 } outbox.items⟩) := by
  cases call with
  | enqueue item =>
      simp only [OutboxCall.run, MemoryAuditOutbox.enqueue]
      split
      · left
        split <;> rfl
      · rename_i hlookup
        exact .inr (.inl ⟨item, rfl, hlookup, rfl⟩)
  | markDelivered named =>
      simp only [OutboxCall.run, MemoryAuditOutbox.markDelivered]
      split
      · exact .inl rfl
      · exact .inl rfl
      · rename_i stored hstored
        exact .inr (.inr ⟨named, stored, hstored, .inl ⟨rfl, rfl⟩⟩)
  | markFailed named =>
      simp only [OutboxCall.run, MemoryAuditOutbox.markFailed]
      split
      · exact .inl rfl
      · exact .inl rfl
      · rename_i stored hstored
        split
        · exact .inl rfl
        · rename_i item hlookup
          exact .inr (.inr ⟨named, stored, hstored, .inr ⟨rfl, item, hlookup, rfl⟩⟩)

theorem Keyed.call (h : outbox.Keyed) (numbers : Doubles D) (call : OutboxCall D) :
    (call.run numbers outbox).2.Keyed := by
  obtain hsame | ⟨item, -, -, hafter⟩ | ⟨named, stored, -,
    ⟨-, hafter⟩ | ⟨-, item, hlookup, hafter⟩⟩ :=
    run_cases numbers call outbox
  · rwa [hsame]
  · rw [hafter]
    exact h.assign rfl
  · rw [hafter]
    exact h.delete stored
  · rw [hafter]
    exact h.assign (h.own stored item (mem_of_lookup hlookup))

theorem Reached.keyed {numbers : Doubles D} (h : outbox.Reached numbers) : outbox.Keyed := by
  induction h with
  | empty => exact keyed_empty
  | call h call ih => exact ih.call numbers call

/-- What is pending for a key. -/
def pendingOf (outbox : MemoryAuditOutbox D) (key : AuditOutboxItemKey) :
    List (AuditOutboxItem D) :=
  (outbox.pending (some outbox.items.length)).filter fun item => auditOutboxItemKey item = key

theorem pendingOf_eq (outbox : MemoryAuditOutbox D) (key : AuditOutboxItemKey) :
    outbox.pendingOf key =
      (outbox.items.filter fun stored => auditOutboxItemKey stored.2 = key).map Prod.snd := by
  rw [pendingOf, pending, Option.getD_some, List.take_of_length_le (by rw [List.length_map]),
    List.filter_map]
  rfl

theorem pendingOf_delete {stored : JsString} {key : AuditOutboxItemKey}
    (h : ∀ item, (stored, item) ∈ outbox.items → auditOutboxItemKey item ≠ key) :
    (outbox.delete stored).pendingOf key = outbox.pendingOf key := by
  rw [pendingOf_eq, pendingOf_eq, MemoryAuditOutbox.delete, withoutKeys, List.filter_filter]
  congr 1
  apply List.filter_congr
  rintro ⟨name, item⟩ hmem
  by_cases hname : name = stored
  · subst hname
    simp [h item hmem]
  · simp [hname]

theorem pendingOf_assign {stored : JsString} {key : AuditOutboxItemKey}
    (h : ∀ item, (stored, item) ∈ outbox.items → auditOutboxItemKey item ≠ key)
    (hitem : auditOutboxItemKey item ≠ key) :
    pendingOf ⟨assignMember stored item outbox.items⟩ key = outbox.pendingOf key := by
  rw [pendingOf_eq, pendingOf_eq]
  obtain ⟨items⟩ := outbox
  simp only at h ⊢
  congr 1
  induction items with
  | nil => simp [assignMember, hitem]
  | cons first rest ih =>
      obtain ⟨name, old⟩ := first
      rw [assignMember]
      by_cases hname : name = stored
      · subst hname
        simp [hitem, h old List.mem_cons_self]
      · rw [if_neg hname, List.filter_cons, List.filter_cons,
          ih fun item hmem => h item (List.mem_cons_of_mem _ hmem)]

end MemoryAuditOutbox

end KyaOs.Audit
