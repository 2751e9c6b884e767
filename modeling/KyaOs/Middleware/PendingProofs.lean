import KyaOs.Middleware.Calls
import KyaOs.Proof.Generator
import Mathlib.Algebra.BigOperators.Group.List.Basic
import Mathlib.Data.List.Infix
import Mathlib.Data.List.Perm.Basic

/-!
# Proofs left for the transport

The proofs that wrappers left for the outer layer, by one-time id, and what is kept of
those no longer waiting. Each operation runs in one piece. What has been issued, and what
took each id, is kept beside them for the proofs; no operation reads it.
-/

namespace KyaOs.Middleware

open Js JsonValue Audit

def closedProofContextLimit : Nat := 16 * 1024
def closedProofByteBudget : Nat := 4 * 1024 * 1024
def pendingProofLimit : Nat := 10000
def pendingProofByteBudget : Nat := 16 * 1024 * 1024

/-- `KyaOsAuthorizationOutcome`. -/
inductive AuthorizationOutcome where
  | denied
  | stepUpRequired
  | needsAuthorization
  deriving DecidableEq

def AuthorizationOutcome.text : AuthorizationOutcome → JsString
  | .denied => js "denied"
  | .stepUpRequired => js "step_up_required"
  | .needsAuthorization => js "needs_authorization"

/-- An audit context, as data. -/
abbrev AuditContext := JsonValue JsNumber

structure PendingAllowedProof where
  toolName : JsString
  requestHash : Digest
  sessionId : JsString
  scopeId : Option JsString
  context : Option AuditContext
  /-- The wrapped call that left the proof; no code reads it. -/
  call : Nat

structure PendingOutcomeProof where
  toolName : JsString
  requestHash : Digest
  sessionId : JsString
  outcome : AuthorizationOutcome
  reason : JsString
  terminalAuditDelivered : Bool

inductive PendingProof where
  | allowed (proof : PendingAllowedProof)
  | outcome (proof : PendingOutcomeProof)

namespace PendingProof

def toolName : PendingProof → JsString
  | .allowed proof => proof.toolName
  | .outcome proof => proof.toolName

def sessionId : PendingProof → JsString
  | .allowed proof => proof.sessionId
  | .outcome proof => proof.sessionId

def context : PendingProof → Option AuditContext
  | .allowed proof => proof.context
  | .outcome _ => none

def toValue : PendingProof → JsonValue JsNumber
  | .allowed proof =>
    .object ([(js "kind", .string (js "allowed")), (js "toolName", .string proof.toolName),
        (js "requestHash", .string proof.requestHash),
        (js "sessionId", .string proof.sessionId)] ++
      (proof.scopeId.map fun scopeId => (js "scopeId", .string scopeId)).toList ++
      (proof.context.map fun context => (js "context", context)).toList)
  | .outcome proof =>
    .object [(js "kind", .string (js "outcome")), (js "toolName", .string proof.toolName),
      (js "requestHash", .string proof.requestHash), (js "sessionId", .string proof.sessionId),
      (js "outcome", .string proof.outcome.text), (js "reason", .string proof.reason),
      (js "terminalAuditDelivered", .bool proof.terminalAuditDelivered)]

end PendingProof

/-- A waiting proof, its timer aside. -/
structure WaitingProof where
  pending : PendingProof
  size : Nat

/-- What a proof no longer waiting was about. -/
structure ClosedProof where
  toolName : JsString
  context : Option AuditContext
  size : Nat

/-- What took a waiting proof. -/
inductive Taker where
  /-- A call that asked for the id. -/
  | call (call : Nat)
  | evicted
  /-- Its id was found where it cannot be redeemed. -/
  | found
  /-- The last transport closed. -/
  | lastClosed
  deriving DecidableEq

structure ProofStore where
  openTransports : Nat := 0
  pendingProofs : List (JsString × WaitingProof) := []
  pendingProofBytes : Int := 0
  closedProofs : List (JsString × ClosedProof) := []
  closedProofBytes : Int := 0
  /-- Taken, and still to be closed in the audit trail in the background. -/
  closing : List PendingProof := []
  /-- The ids issued so far, with their proofs; no code reads it. -/
  issued : List (JsString × PendingProof) := []
  /-- The ids taken so far, with what took them; no code reads it. -/
  taken : List (JsString × Taker) := []

namespace ProofStore

section Operations

variable (numbers : Doubles JsNumber)

/-- What is kept of a proof that is no longer waiting. -/
def closedOf (pending : PendingProof) : ClosedProof :=
  let contextSize := (pending.context.map fun context => (jsonText numbers context).length).getD 0
  let kept := pending.context.filter fun _ => contextSize ≤ closedProofContextLimit
  { toolName := pending.toolName
    context := kept
    size := pending.toolName.length + if kept.isSome then contextSize else 0 }

/-- The oldest closed proofs are forgotten, past the count or the size budget. -/
def forgetOldest : List (JsString × ClosedProof) → Int → List (JsString × ClosedProof) × Int
  | [], bytes => ([], bytes)
  | oldest :: rest, bytes =>
    if pendingProofLimit < rest.length + 1 ∨ closedProofByteBudget < bytes then
      forgetOldest rest (bytes - oldest.2.size)
    else (oldest :: rest, bytes)

/-- Removes and returns the proof waiting under `id`, if one is, and remembers what it
was about. -/
def takePendingProof (taker : Taker) (id : JsString) (store : ProofStore) :
    Option PendingProof × ProofStore :=
  match store.pendingProofs.lookup id with
  | none => (none, store)
  | some waiting =>
    let closed := closedOf numbers waiting.pending
    let (closedProofs, closedProofBytes) := forgetOldest
      (assignMember id closed store.closedProofs) (store.closedProofBytes + closed.size)
    (some waiting.pending,
      { store with
        pendingProofs := withoutKeys store.pendingProofs fun key => key = id
        pendingProofBytes := store.pendingProofBytes - waiting.size
        closedProofs
        closedProofBytes
        taken := store.taken ++ [(id, taker)] })

/-- `void closeUnsentProof(id)`: taken now, recorded in the background. -/
def closeInBackground (taker : Taker) (store : ProofStore) (id : JsString) : ProofStore :=
  match takePendingProof numbers taker id store with
  | (none, store) => store
  | (some pending, store) => { store with closing := store.closing ++ [pending] }

/-- Past the count or the size budget, with a proof of this size to come. -/
def Crowded (size : Nat) (store : ProofStore) : Prop :=
  store.pendingProofs ≠ [] ∧ (pendingProofLimit ≤ store.pendingProofs.length ∨
    pendingProofByteBudget < store.pendingProofBytes + size)

instance (size : Nat) (store : ProofStore) : Decidable (store.Crowded size) := by
  unfold Crowded
  infer_instance

/-- The oldest waiting proofs are closed as not sent, at most `rounds` of them. -/
def evictOldest (size : Nat) : Nat → ProofStore → ProofStore
  | 0, store => store
  | rounds + 1, store =>
    if store.Crowded size then
      match store.pendingProofs with
      | [] => store
      | (oldest, _) :: _ =>
        evictOldest size rounds (closeInBackground numbers .evicted store oldest)
    else store

/-- The store's part of `leaveToOuterLayer`, with the id it made. -/
def leaveToOuterLayer (pending : PendingProof) (id : JsString) (store : ProofStore) : ProofStore :=
  let size := (jsonText numbers pending.toValue).length
  let store := evictOldest numbers size store.pendingProofs.length store
  { store with
    pendingProofs := assignMember id ⟨pending, size⟩ store.pendingProofs
    pendingProofBytes := store.pendingProofBytes + size
    issued := store.issued ++ [(id, pending)] }

/-- Closes every waiting proof but `exempt` that was found: by its id, or by an id inside
one of the strings. -/
def closeFoundProofs (ids leaked : List JsString) (exempt : Option (JsonValue JsNumber))
    (store : ProofStore) : ProofStore :=
  let store := (ids.filter fun id => !Untyped.isString exempt id).foldl
    (closeInBackground numbers .found) store
  let found := (store.pendingProofs.map Prod.fst).filter fun id =>
    !Untyped.isString exempt id && leaked.any fun text => decide (id <:+: text)
  found.foldl (closeInBackground numbers .found) store

/-- A transport's release: with the last one, every waiting proof is closed. -/
def release (store : ProofStore) : ProofStore :=
  let store := { store with openTransports := store.openTransports - 1 }
  if store.openTransports = 0 then
    (store.pendingProofs.map Prod.fst).foldl (closeInBackground numbers .lastClosed) store
  else store

end Operations

section Consistency

variable {numbers : Doubles JsNumber} {store store' : ProofStore} {taker : Taker} {id : JsString}

/-- The counters are the sums of the sizes held, and every id issued, once each, waits or
has been taken. -/
structure Consistent (store : ProofStore) : Prop where
  pendingBytes : store.pendingProofBytes =
    (store.pendingProofs.map fun entry => (entry.2.size : Int)).sum
  closedBytes : store.closedProofBytes =
    (store.closedProofs.map fun entry => (entry.2.size : Int)).sum
  accounted : (store.issued.map Prod.fst).Perm
    (store.pendingProofs.map Prod.fst ++ store.taken.map Prod.fst)
  once : (store.issued.map Prod.fst).Nodup
  closedTaken : ∀ id ∈ store.closedProofs.map Prod.fst, id ∈ store.taken.map Prod.fst
  asIssued : ∀ entry ∈ store.pendingProofs, (entry.1, entry.2.pending) ∈ store.issued

theorem Consistent.nodup (h : store.Consistent) :
    (store.pendingProofs.map Prod.fst ++ store.taken.map Prod.fst).Nodup :=
  h.accounted.nodup_iff.mp h.once

/-- Nothing is taken twice. -/
theorem Consistent.takenOnce (h : store.Consistent) : (store.taken.map Prod.fst).Nodup :=
  (List.nodup_append.mp h.nodup).2.1

theorem consistent_empty : Consistent {} where
  pendingBytes := rfl
  closedBytes := rfl
  accounted := .refl _
  once := .nil
  closedTaken := by simp
  asIssued := by simp

theorem sum_forgetOldest {closed : List (JsString × ClosedProof)} {bytes : Int}
    (h : bytes = (closed.map fun entry => (entry.2.size : Int)).sum) :
    (forgetOldest closed bytes).2 =
      ((forgetOldest closed bytes).1.map fun entry => (entry.2.size : Int)).sum := by
  induction closed generalizing bytes with
  | nil => exact h
  | cons oldest rest ih =>
      rw [forgetOldest]
      split_ifs
      · refine ih ?_
        rw [h, List.map_cons, List.sum_cons]
        omega
      · exact h

theorem forgetOldest_sublist (closed : List (JsString × ClosedProof)) (bytes : Int) :
    (forgetOldest closed bytes).1.Sublist closed := by
  induction closed generalizing bytes with
  | nil => exact .refl _
  | cons oldest rest ih =>
      rw [forgetOldest]
      split_ifs
      · exact (ih _).cons _
      · exact .refl _

/-- What taking a waiting proof makes of the store. -/
structure Takes (numbers : Doubles JsNumber) (taker : Taker) (id : JsString)
    (pending : PendingProof) (store store' : ProofStore) : Prop where
  waiting : ∃ waiting, store.pendingProofs.lookup id = some waiting ∧
    waiting.pending = pending ∧
    store'.pendingProofBytes = store.pendingProofBytes - waiting.size
  pendingProofs : store'.pendingProofs = withoutKeys store.pendingProofs fun key => key = id
  closed : (store'.closedProofs, store'.closedProofBytes) = forgetOldest
    (assignMember id (closedOf numbers pending) store.closedProofs)
    (store.closedProofBytes + (closedOf numbers pending).size)
  closing : store'.closing = store.closing
  issued : store'.issued = store.issued
  taken : store'.taken = store.taken ++ [(id, taker)]

/-- An id is taken, or nothing waits under it. -/
theorem takePendingProof_cases (numbers : Doubles JsNumber) (taker : Taker) (id : JsString)
    (store : ProofStore) :
    takePendingProof numbers taker id store = (none, store) ∧
        store.pendingProofs.lookup id = none ∨
      ∃ pending store', takePendingProof numbers taker id store = (some pending, store') ∧
        Takes numbers taker id pending store store' := by
  unfold takePendingProof
  cases hlookup : store.pendingProofs.lookup id with
  | none => exact .inl ⟨rfl, rfl⟩
  | some waiting =>
      exact .inr ⟨_, _, rfl, ⟨⟨waiting, hlookup, rfl, rfl⟩, rfl, rfl, rfl, rfl, rfl⟩⟩

theorem Takes.waited {pending : PendingProof} (h : Takes numbers taker id pending store store')
    (hconsistent : store.Consistent) : (id, pending) ∈ store.issued := by
  obtain ⟨waiting, hlookup, rfl, -⟩ := h.waiting
  obtain ⟨before, after, hlist, -⟩ := List.lookup_eq_some_iff.mp hlookup
  exact hconsistent.asIssued (id, waiting) (by simp [hlist])

/-- The taken entry, before the others that wait. -/
theorem Takes.perm {pending : PendingProof} (h : Takes numbers taker id pending store store')
    (hconsistent : store.Consistent) :
    ∃ waiting, waiting.pending = pending ∧
      store'.pendingProofBytes = store.pendingProofBytes - waiting.size ∧
      store.pendingProofs.Perm ((id, waiting) :: store'.pendingProofs) := by
  obtain ⟨waiting, hlookup, hpending, hbytes⟩ := h.waiting
  refine ⟨waiting, hpending, hbytes, ?_⟩
  rw [h.pendingProofs]
  exact perm_withoutKeys (List.nodup_append.mp hconsistent.nodup).1 hlookup

theorem Takes.consistent {pending : PendingProof}
    (h : Takes numbers taker id pending store store') (hconsistent : store.Consistent) :
    store'.Consistent := by
  obtain ⟨waiting, hpending, hbytes, hperm⟩ := h.perm hconsistent
  have hkeys := hperm.map Prod.fst
  have hnew : id ∉ store.closedProofs.map Prod.fst := by
    intro hclosed
    have hwaits : id ∈ store.pendingProofs.map Prod.fst := hkeys.mem_iff.mpr (by simp)
    exact (List.nodup_append.mp hconsistent.nodup).2.2 id hwaits id
      (hconsistent.closedTaken id hclosed) rfl
  obtain ⟨hclosedProofs, hclosedBytes⟩ := Prod.mk.inj h.closed
  refine ⟨?_, ?_, ?_, ?_, ?_, ?_⟩
  · have hsum := (hperm.map fun entry => (entry.2.size : Int)).sum_eq
    rw [List.map_cons, List.sum_cons] at hsum
    rw [hbytes, hconsistent.pendingBytes, hsum, add_sub_cancel_left]
  · rw [hclosedBytes, hclosedProofs]
    refine sum_forgetOldest ?_
    rw [assignMember_new _ hnew, List.map_append, List.sum_append, hconsistent.closedBytes]
    simp
  · rw [h.issued, h.taken, List.map_append]
    refine hconsistent.accounted.trans ((hkeys.append_right _).trans ?_)
    simpa using (@List.perm_middle _ id
      (store'.pendingProofs.map Prod.fst ++ store.taken.map Prod.fst) []).symm
  · rw [h.issued]
    exact hconsistent.once
  · intro key hkey
    rw [hclosedProofs] at hkey
    have hmem := ((forgetOldest_sublist _ _).map Prod.fst).subset hkey
    rw [assignMember_new _ hnew, List.map_append, List.mem_append] at hmem
    rw [h.taken, List.map_append, List.mem_append]
    exact hmem.imp (hconsistent.closedTaken key) fun hlast => by simpa using hlast
  · intro entry hentry
    rw [h.issued]
    exact hconsistent.asIssued entry (hperm.mem_iff.mpr (List.mem_cons_of_mem _ hentry))

/-- What the waiting proofs, and those to be closed, come to. -/
def weight (f : PendingProof → Nat) (store : ProofStore) : Nat :=
  (store.pendingProofs.map fun entry => f entry.2.pending).sum + (store.closing.map f).sum

theorem Takes.weight {pending : PendingProof} (h : Takes numbers taker id pending store store')
    (hconsistent : store.Consistent) (f : PendingProof → Nat) :
    store'.weight f + f pending = store.weight f := by
  obtain ⟨waiting, rfl, -, hperm⟩ := h.perm hconsistent
  have hsum := (hperm.map fun entry => f entry.2.pending).sum_eq
  rw [List.map_cons, List.sum_cons] at hsum
  rw [ProofStore.weight, ProofStore.weight, h.closing, hsum]
  dsimp only
  omega

/-- Some waiting proofs were taken, by no call, to be closed in the background. -/
inductive ClosesTo (numbers : Doubles JsNumber) (store : ProofStore) : ProofStore → Prop
  | refl : ClosesTo numbers store store
  | step {closed : ProofStore} (taker : Taker) (id : JsString)
      (htaker : ∀ call, taker ≠ .call call) (h : ClosesTo numbers store closed) :
      ClosesTo numbers store (closeInBackground numbers taker closed id)

theorem ClosesTo.foldl (htaker : ∀ call, taker ≠ .call call)
    (ids : List JsString) (h : ClosesTo numbers store store') :
    ClosesTo numbers store (ids.foldl (closeInBackground numbers taker) store') := by
  induction ids generalizing store' with
  | nil => exact h
  | cons id rest ih => exact ih (.step taker id htaker h)

theorem closesTo_evictOldest (size rounds : Nat) (store : ProofStore) :
    ClosesTo numbers store (evictOldest numbers size rounds store) := by
  suffices ∀ store', ClosesTo numbers store store' →
      ClosesTo numbers store (evictOldest numbers size rounds store') from this store .refl
  induction rounds with
  | zero => exact fun _ h => h
  | succ rounds ih =>
      intro store' h
      rw [evictOldest]
      split_ifs
      · split
        · exact h
        · exact ih _ (.step _ _ (by simp) h)
      · exact h

theorem closesTo_closeFoundProofs (ids leaked : List JsString)
    (exempt : Option (JsonValue JsNumber)) (store : ProofStore) :
    ClosesTo numbers store (closeFoundProofs numbers ids leaked exempt store) :=
  .foldl (by simp) _ (.foldl (by simp) _ .refl)

theorem closesTo_release (store : ProofStore) :
    ClosesTo numbers { store with openTransports := store.openTransports - 1 }
      (release numbers store) := by
  unfold release
  dsimp only
  split_ifs
  · exact .foldl (by simp) _ .refl
  · exact .refl

/-- A closed proof changes nothing else. -/
theorem closeInBackground_cases (numbers : Doubles JsNumber) (taker : Taker) (store : ProofStore)
    (id : JsString) :
    closeInBackground numbers taker store id = store ∨
      ∃ pending taken, Takes numbers taker id pending store taken ∧
        closeInBackground numbers taker store id =
          { taken with closing := taken.closing ++ [pending] } := by
  unfold closeInBackground
  obtain ⟨hnone, -⟩ | ⟨pending, taken, hsome, htakes⟩ :=
    takePendingProof_cases numbers taker id store
  · exact .inl (by rw [hnone])
  · exact .inr ⟨pending, taken, htakes, by rw [hsome]⟩

theorem ClosesTo.consistent (h : ClosesTo numbers store store') (hconsistent : store.Consistent) :
    store'.Consistent := by
  induction h with
  | refl => exact hconsistent
  | @step closed taker id _ _ ih =>
      obtain hsame | ⟨pending, taken, htakes, hclosed⟩ :=
        closeInBackground_cases numbers taker closed id
      · rwa [hsame]
      · rw [hclosed]
        obtain ⟨hpendingBytes, hclosedBytes, haccounted, honce, hclosedTaken, hasIssued⟩ :=
          htakes.consistent ih
        exact ⟨hpendingBytes, hclosedBytes, haccounted, honce, hclosedTaken, hasIssued⟩

theorem ClosesTo.weight (h : ClosesTo numbers store store') (hconsistent : store.Consistent)
    (f : PendingProof → Nat) : store'.weight f = store.weight f := by
  induction h with
  | refl => rfl
  | @step closed taker id _ hcloses ih =>
      obtain hsame | ⟨pending, taken, htakes, hclosed⟩ :=
        closeInBackground_cases numbers taker closed id
      · rwa [hsame]
      · have hweight := htakes.weight (hcloses.consistent hconsistent) f
        rw [hclosed, ← ih, ← hweight, ProofStore.weight, ProofStore.weight]
        simp only [List.map_append, List.sum_append, List.map_cons, List.map_nil, List.sum_cons,
          List.sum_nil]
        omega

theorem ClosesTo.issued (h : ClosesTo numbers store store') : store'.issued = store.issued := by
  induction h with
  | refl => rfl
  | @step closed taker id _ _ ih =>
      obtain hsame | ⟨pending, taken, htakes, hclosed⟩ :=
        closeInBackground_cases numbers taker closed id
      · rwa [hsame]
      · rw [hclosed]
        exact htakes.issued.trans ih

/-- What is taken so is taken by no call. -/
theorem ClosesTo.taken (h : ClosesTo numbers store store') :
    ∃ others, store'.taken = store.taken ++ others ∧
      ∀ entry ∈ others, ∀ call, entry.2 ≠ .call call := by
  induction h with
  | refl => exact ⟨[], (List.append_nil _).symm, by simp⟩
  | @step closed taker id htaker _ ih =>
      obtain ⟨others, hothers, hnone⟩ := ih
      obtain hsame | ⟨pending, taken, htakes, hclosed⟩ :=
        closeInBackground_cases numbers taker closed id
      · exact ⟨others, by rwa [hsame], hnone⟩
      · refine ⟨others ++ [(id, taker)], ?_, ?_⟩
        · rw [hclosed, ← List.append_assoc, ← hothers]
          exact htakes.taken
        · intro entry hentry
          obtain hold | hnew := List.mem_append.mp hentry
          · exact hnone entry hold
          · obtain rfl := List.mem_singleton.mp hnew
            exact htaker

theorem Consistent.leave (h : store.Consistent) (pending : PendingProof)
    (hfresh : id ∉ store.issued.map Prod.fst) :
    (leaveToOuterLayer numbers pending id store).Consistent := by
  have hcloses := @closesTo_evictOldest numbers
    (jsonText numbers pending.toValue).length store.pendingProofs.length store
  rw [leaveToOuterLayer]
  generalize evictOldest numbers _ store.pendingProofs.length store = evicted at hcloses ⊢
  have hevicted := hcloses.consistent h
  have hfresh' : id ∉ evicted.issued.map Prod.fst := hcloses.issued ▸ hfresh
  have hnew : id ∉ evicted.pendingProofs.map Prod.fst := fun hwaits =>
    hfresh' (hevicted.accounted.mem_iff.mpr (List.mem_append_left _ hwaits))
  rw [assignMember_new _ hnew]
  refine ⟨?_, hevicted.closedBytes, ?_, ?_, hevicted.closedTaken, ?_⟩
  · simp [hevicted.pendingBytes]
  · simp only [List.map_append, List.map_cons, List.map_nil]
    refine (hevicted.accounted.append_right _).trans ?_
    rw [List.append_assoc, List.append_assoc]
    exact List.perm_append_comm.append_left _
  · rw [List.map_append, List.nodup_append]
    exact ⟨hevicted.once, by simp, fun _ hmem _ hlast heq =>
      hfresh' (by simpa [heq, List.mem_singleton.mp hlast] using hmem)⟩
  · intro entry hentry
    rw [List.mem_append] at hentry ⊢
    refine hentry.imp (hevicted.asIssued entry) fun hlast => ?_
    rw [List.mem_singleton] at hlast ⊢
    rw [hlast]

theorem issued_leave (pending : PendingProof) :
    (leaveToOuterLayer numbers pending id store).issued = store.issued ++ [(id, pending)] := by
  have hcloses := @closesTo_evictOldest numbers
    (jsonText numbers pending.toValue).length store.pendingProofs.length store
  rw [leaveToOuterLayer, hcloses.issued]

theorem taken_leave (pending : PendingProof) :
    ∃ others, (leaveToOuterLayer numbers pending id store).taken = store.taken ++ others ∧
      ∀ entry ∈ others, ∀ call, entry.2 ≠ .call call :=
  (closesTo_evictOldest _ _ store).taken

theorem weight_leave (h : store.Consistent) (pending : PendingProof)
    (hfresh : id ∉ store.issued.map Prod.fst) (f : PendingProof → Nat) :
    (leaveToOuterLayer numbers pending id store).weight f = store.weight f + f pending := by
  have hcloses := @closesTo_evictOldest numbers
    (jsonText numbers pending.toValue).length store.pendingProofs.length store
  rw [leaveToOuterLayer]
  generalize evictOldest numbers _ store.pendingProofs.length store = evicted at hcloses ⊢
  have hevicted := hcloses.consistent h
  have hnew : id ∉ evicted.pendingProofs.map Prod.fst := fun hwaits =>
    hfresh (hcloses.issued ▸ hevicted.accounted.mem_iff.mpr (List.mem_append_left _ hwaits))
  rw [← hcloses.weight h f, weight, weight, assignMember_new _ hnew]
  simp
  omega

end Consistency

end ProofStore

end KyaOs.Middleware
