import KyaOs.Card.Delegation
import KyaOs.Card.Revocation
import KyaOs.Concurrency.Conversations

/-!
# The status of a delegation chain

`evaluateDelegationChain`: the structural checks, then the status entries of the hops one
after the other, root to leaf. Each check is awaited, and its answers may differ from one
check to the next.
-/

namespace KyaOs.Card

open Js Concurrency Concurrency.Async

/-- Where the status of a hop is listed. -/
structure DelegationCredentialStatus where
  statusListIndex : JsString
  statusListCredential : JsString

/-- A hop of a chain, with its `credentialStatus`. -/
structure DelegationHop extends DelegationCredential where
  credentialStatus : Option DelegationCredentialStatus := none

def statusEntryOf (vc : DelegationHop) : Option BitstringStatusListEntry :=
  vc.credentialStatus.map fun status =>
    { statusListCredential := status.statusListCredential
      statusListIndex := status.statusListIndex }

structure RevocationChainResult where
  ok : Bool
  fresh : Bool
  reasons : List JsString

structure DelegationChainEvaluation extends DelegationChainResult where
  fresh : Bool

section Code

variable {I : Setting} (check : BitstringStatusListEntry → Async I RevocationStatus)

/-- Why a hop ends the walk. -/
def revokedReason (hop : Nat) (entry : BitstringStatusListEntry) : JsString :=
  js "revocation: hop " ++ indexText hop ++ js " (" ++ entry.statusListCredential ++ js "#" ++
    entry.statusListIndex ++
    js ") is revoked or unresolvable — fail-closed, subtree invalidated"

/-- The entries from one hop on, with what `fresh` has come to. -/
def walkRevocation : List BitstringStatusListEntry → Nat → Bool → Async I RevocationChainResult
  | [], _, fresh => return { ok := true, fresh, reasons := [] }
  | entry :: rest, hop, fresh => do
    let status ← check entry
    if status.revoked then
      return { ok := false, fresh := false, reasons := [revokedReason hop entry] }
    else walkRevocation rest (hop + 1) (fresh && status.fresh)

def evaluateRevocationChain (entries : List BitstringStatusListEntry) :
    Async I RevocationChainResult :=
  walkRevocation check entries 0 (0 < entries.length)

def evaluateDelegationChain (dateParse : JsString → Option Int) (numberText : JsNumber → JsString)
    (chain : List DelegationHop) (ctx : DelegationChainContext) :
    Async I DelegationChainEvaluation :=
  let structural := validateDelegationChain dateParse numberText
    (chain.map DelegationHop.toDelegationCredential) ctx
  if structural.ok then do
    let revocation ← evaluateRevocationChain check (chain.filterMap statusEntryOf)
    return { structural with
      ok := structural.ok && revocation.ok
      reasons := structural.reasons ++ revocation.reasons
      fresh := revocation.fresh }
  else return { structural with fresh := false }

end Code

/-- A checker that is asked about each entry. -/
abbrev StatusChecks : Setting where
  State := Unit
  Error := Error
  Request := BitstringStatusListEntry
  Answer _ := RevocationStatus

abbrev askStatus : BitstringStatusListEntry → Async StatusChecks RevocationStatus :=
  Async.ask (I := StatusChecks)

/-- The entry was answered not revoked and fresh. -/
def clear (entry : BitstringStatusListEntry) : Exchange StatusChecks :=
  ⟨entry, .ok { revoked := false, fresh := true }⟩

/-- Answered revoked, or from a list that is not live. -/
def NotLive (exchange : Exchange StatusChecks) : Prop :=
  ∃ status, exchange.answer = .ok status ∧ (status.revoked = true ∨ status.fresh = false)

section Walk

variable {log : List (Exchange StatusChecks)} {entries : List BitstringStatusListEntry}

/-- The walk is fresh only where every entry was answered so, and else was told otherwise. -/
theorem runs_walkRevocation {hop : Nat} {fresh : Bool} {result : RevocationChainResult}
    (h : (walkRevocation askStatus entries hop fresh).Runs log (.ok result)) :
    (result.fresh = fresh ∧ result.ok = true ∧ log = entries.map clear) ∨
      result.fresh = false ∧ ∃ exchange ∈ log, NotLive exchange := by
  induction entries generalizing log hop fresh with
  | nil =>
      obtain ⟨rfl, hresult⟩ := runs_pure.mp h
      cases hresult
      exact .inl ⟨rfl, rfl, rfl⟩
  | cons entry rest ih =>
      obtain ⟨first, later, status, rfl, hasked, hnext⟩ := runs_bind_ok.mp h
      obtain rfl := runs_ask.mp hasked
      have hhead : ⟨entry, .ok status⟩ ∈ [⟨entry, .ok status⟩] ++ later := by simp
      obtain ⟨revoked, statusFresh⟩ := status
      cases revoked with
      | true =>
          obtain ⟨-, hresult⟩ := runs_pure.mp hnext
          cases hresult
          exact .inr ⟨rfl, _, hhead, _, rfl, .inl rfl⟩
      | false =>
          obtain ⟨hfresh, hok, rfl⟩ | ⟨hfresh, exchange, hmem, hnot⟩ := ih hnext
          · cases statusFresh with
            | true => exact .inl ⟨by rw [hfresh, Bool.and_true], hok, rfl⟩
            | false => exact .inr ⟨by rw [hfresh, Bool.and_false], _, hhead, _, rfl, .inr rfl⟩
          · exact .inr ⟨hfresh, exchange, List.mem_append_right _ hmem, hnot⟩

theorem not_notLive_clear {exchange : Exchange StatusChecks} (h : exchange ∈ entries.map clear) :
    ¬ NotLive exchange := by
  obtain ⟨entry, -, rfl⟩ := List.mem_map.mp h
  rintro ⟨status, hanswer, hnot⟩
  cases hanswer
  simp at hnot

end Walk

section Freshness

variable {dateParse : JsString → Option Int} {numberText : JsNumber → JsString}
  {chain : List DelegationHop} {ctx : DelegationChainContext}
  {log : List (Exchange StatusChecks)} {result : DelegationChainEvaluation}

/-- Freshness is about every hop: each has a status entry, answered not revoked and fresh,
root to leaf, and none is answered otherwise. -/
structure FreshCovers (chain : List DelegationHop) (log : List (Exchange StatusChecks))
    (result : DelegationChainEvaluation) : Prop where
  every : result.ok = true → result.fresh = true →
    (∀ vc ∈ chain, (statusEntryOf vc).isSome = true) ∧
      log = (chain.filterMap statusEntryOf).map clear
  live : (∃ exchange ∈ log, NotLive exchange) → result.fresh = false

/-- A chain that fails the structural checks, or whose hops all carry a status entry, or
none, or one of whose entries is not live. -/
def StatusShown (dateParse : JsString → Option Int) (numberText : JsNumber → JsString)
    (chain : List DelegationHop) (ctx : DelegationChainContext)
    (log : List (Exchange StatusChecks)) : Prop :=
  (validateDelegationChain dateParse numberText
      (chain.map DelegationHop.toDelegationCredential) ctx).ok = false ∨
    (∀ vc ∈ chain, (statusEntryOf vc).isSome = true) ∨
    (∀ vc ∈ chain, statusEntryOf vc = none) ∨ ∃ exchange ∈ log, NotLive exchange

/-- A chain that was walked: what its result says, as far as it depends on the answers. -/
theorem runs_evaluateDelegationChain
    (h : (evaluateDelegationChain askStatus dateParse numberText chain ctx).Runs log
      (.ok result)) :
    (validateDelegationChain dateParse numberText
        (chain.map DelegationHop.toDelegationCredential) ctx).ok = false ∧ log = [] ∧
        result.fresh = false ∨
      (validateDelegationChain dateParse numberText
        (chain.map DelegationHop.toDelegationCredential) ctx).ok = true ∧
        ((result.ok = true ∧ log = (chain.filterMap statusEntryOf).map clear ∧
            (result.fresh = true ↔ chain.filterMap statusEntryOf ≠ [])) ∨
          result.fresh = false ∧ ∃ exchange ∈ log, NotLive exchange) := by
  unfold evaluateDelegationChain at h
  dsimp only at h
  split_ifs at h with hok
  · refine .inr ⟨hok, ?_⟩
    obtain ⟨first, later, revocation, rfl, hwalk, hresult⟩ := runs_bind_ok.mp h
    obtain ⟨rfl, hresult⟩ := runs_pure.mp hresult
    cases hresult
    rw [List.append_nil]
    obtain ⟨hfresh, hclear, rfl⟩ | hnot := runs_walkRevocation hwalk
    · refine .inl ⟨by simp [hok, hclear], rfl, ?_⟩
      simp [hfresh, List.length_pos_iff]
    · exact .inr hnot
  · obtain ⟨rfl, hresult⟩ := runs_pure.mp h
    cases hresult
    exact .inl ⟨by simpa using hok, rfl, rfl⟩

/-- Freshness covers the chain exactly where its hops are all listed, or none is, or one of
those listed is not live. -/
theorem evaluateDelegationChain_fresh_iff
    (h : (evaluateDelegationChain askStatus dateParse numberText chain ctx).Runs log
      (.ok result)) :
    FreshCovers chain log result ↔ StatusShown dateParse numberText chain ctx log := by
  obtain ⟨hrefused, rfl, hfresh⟩ | ⟨hvalid, ⟨hok, rfl, hfresh⟩ | ⟨hfresh, hnot⟩⟩ :=
    runs_evaluateDelegationChain h
  · refine iff_of_true ⟨?_, fun _ => hfresh⟩ (.inl hrefused)
    intro _ hfresh'
    rw [hfresh] at hfresh'
    cases hfresh'
  · have hlive : ¬ ∃ exchange ∈ (chain.filterMap statusEntryOf).map clear, NotLive exchange := by
      rintro ⟨exchange, hmem, hnot⟩
      exact not_notLive_clear hmem hnot
    constructor
    · intro hcovers
      by_cases hnone : chain.filterMap statusEntryOf = []
      · exact .inr (.inr (.inl (List.filterMap_eq_nil_iff.mp hnone)))
      · exact .inr (.inl (hcovers.every hok (hfresh.mpr hnone)).1)
    · intro hshown
      refine ⟨?_, fun hnot => absurd hnot hlive⟩
      intro _ hfresh'
      obtain hrefused | hevery | hnone | hnot := hshown
      · rw [hvalid] at hrefused
        cases hrefused
      · exact ⟨hevery, rfl⟩
      · exact absurd (List.filterMap_eq_nil_iff.mpr hnone) (hfresh.mp hfresh')
      · exact absurd hnot hlive
  · refine iff_of_true ⟨?_, fun _ => hfresh⟩ (.inr (.inr (.inr hnot)))
    intro _ hfresh'
    rw [hfresh] at hfresh'
    cases hfresh'

/-- The root is not listed, and its delegate's delegation is. -/
def halfListed : List DelegationHop := [
  { issuer := .did (js "did:web:owner")
    credentialSubject :=
      { id := js "urn:cap:1", invoker := some (js "did:web:agent")
        parentCapability := js "https://api.example", invocationTarget := js "https://api.example"
        allowedAction := [js "read"] } },
  { issuer := .did (js "did:web:agent")
    credentialSubject :=
      { id := js "urn:cap:2", invoker := some (js "did:web:sub")
        parentCapability := js "urn:cap:1", invocationTarget := js "https://api.example"
        allowedAction := [js "read"] }
    credentialStatus := some
      { statusListIndex := js "3", statusListCredential := js "https://api.example/status" } }]

/-- The leaf's entry, answered not revoked and fresh. -/
def leafClear : List (Exchange StatusChecks) := [clear
  { statusListIndex := js "3", statusListCredential := js "https://api.example/status" }]

theorem halfListed_runs : ∃ result,
    (evaluateDelegationChain askStatus (fun _ => none) (fun _ => []) halfListed
      { now := 0 }).Runs leafClear (.ok result) ∧ result.ok = true ∧ result.fresh = true := by
  have hvalid : (validateDelegationChain (fun _ => none) (fun _ => [])
      (halfListed.map DelegationHop.toDelegationCredential) { now := 0 }).ok = true := rfl
  obtain ⟨result, hruns⟩ : ∃ result, (evaluateDelegationChain askStatus (fun _ => none)
      (fun _ => []) halfListed { now := 0 }).Runs leafClear (.ok result) := by
    unfold evaluateDelegationChain
    dsimp only
    rw [if_pos hvalid]
    exact ⟨_, .await _ (.done _)⟩
  obtain ⟨hrefused, -, -⟩ | ⟨-, ⟨hok, -, hfresh⟩ | ⟨-, exchange, hmem, hnot⟩⟩ :=
    runs_evaluateDelegationChain hruns
  · cases hvalid.symm.trans hrefused
  · exact ⟨result, hruns, hok, hfresh.mpr (List.cons_ne_nil _ _)⟩
  · exact absurd hnot (@not_notLive_clear [_] _ hmem)

/-- Fresh and accepted, with a root whose status nobody can check. -/
theorem halfListed_fresh : ∃ result,
    (evaluateDelegationChain askStatus (fun _ => none) (fun _ => []) halfListed
      { now := 0 }).Runs leafClear (.ok result) ∧ ¬ FreshCovers halfListed leafClear result := by
  obtain ⟨result, hruns, hok, hfresh⟩ := halfListed_runs
  refine ⟨result, hruns, fun hcovers => ?_⟩
  have hroot := (hcovers.every hok hfresh).1 _ List.mem_cons_self
  cases hroot

theorem evaluateDelegationChain_fresh_iff_halfListed : ∃ result,
    FreshCovers halfListed leafClear result ↔
      StatusShown (fun _ => none) (fun _ => []) halfListed { now := 0 } leafClear := by
  obtain ⟨result, hruns, -, -⟩ := halfListed_runs
  exact ⟨result, evaluateDelegationChain_fresh_iff hruns⟩

end Freshness

end KyaOs.Card
