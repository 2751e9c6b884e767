import KyaOs.Utils.Untyped
import KyaOs.Utils.JsonMembers
import Mathlib.Data.List.Nodup

/-!
# Grant store

A grant caches an approved authorization. The in-memory store is an insertion-ordered
map by grant id. Times are milliseconds on the clock.
-/

namespace KyaOs.Providers

open Js

inductive GrantStatus where
  | active
  | expired
  | revoked
  deriving DecidableEq

structure GrantAuthorization where
  type : JsString
  provider : Option JsString := none

/-- A grant as a store answers it. The members that are copied from a credential hold
whatever the credential holds there. -/
structure Grant where
  id : JsString
  agentDid : JsonValue JsNumber
  userDid : Untyped := none
  scopes : List (JsonValue JsNumber)
  sessionId : Option JsString := none
  authorization : Option GrantAuthorization := none
  credentialJwt : Option JsString := none
  delegationCredential : Untyped := none
  issuedAt : ℚ
  expiresAt : Option JsNumber := none
  status : GrantStatus
  revocationReason : Option JsString := none

/-- `grant.scopes.includes(scope)`. -/
def Grant.lists (grant : Grant) (scope : JsString) : Bool :=
  grant.scopes.any (JsonValue.sameValueZero (.string scope))

/-- `grant.expiresAt !== undefined && grant.expiresAt <= now`. -/
def Grant.expired (grant : Grant) (now : ℚ) : Bool :=
  match grant.expiresAt with
  | none | some .nan => false
  | some (.finite expiresAt) => expiresAt ≤ now
  | some (.infinity negative) => negative

@[simp] theorem Grant.lists_iff {grant : Grant} {scope : JsString} :
    grant.lists scope = true ↔ .string scope ∈ grant.scopes := by
  simp [lists]

structure MemoryGrantStore where
  grants : List (JsString × Grant) := []

namespace MemoryGrantStore

variable (store : MemoryGrantStore)

/-- `bind`: a grant replaces the one with its id, in its place. -/
def bind (grant : Grant) : MemoryGrantStore :=
  { grants := assignMember grant.id grant store.grants }

/-- `activeGrants`: explicitly active and not past expiry. -/
def activeGrants (now : ℚ) : List Grant :=
  (store.grants.map Prod.snd).filter fun grant => grant.status = .active && !grant.expired now

/-- `coversScopes`; no required scopes are covered by any grant. -/
def coversScopes (grant : Grant) (requiredScopes : List JsString) : Bool :=
  requiredScopes.all grant.lists

def getByAgent (now : ℚ) (agentDid : JsString) (requiredScopes : List JsString) : List Grant :=
  (store.activeGrants now).filter fun grant =>
    JsonValue.strictEquals (.string agentDid) grant.agentDid && coversScopes grant requiredScopes

def getBySession (now : ℚ) (sessionId : JsString) (requiredScopes : List JsString) :
    List Grant :=
  (store.activeGrants now).filter fun grant =>
    grant.sessionId = some sessionId && coversScopes grant requiredScopes

def getById (id : JsString) : Option Grant := store.grants.lookup id

variable {store} {grant : Grant} {now : ℚ}

theorem getById_bind (id : JsString) :
    (store.bind grant).getById id = if id = grant.id then some grant else store.getById id :=
  lookup_assignMember _ _ _ _

theorem mem_of_getById {id : JsString} (h : store.getById id = some grant) :
    grant ∈ store.grants.map Prod.snd := by
  obtain ⟨before, after, hgrants, -⟩ := List.lookup_eq_some_iff.mp h
  simp [hgrants]

theorem mem_activeGrants :
    grant ∈ store.activeGrants now ↔
      grant ∈ store.grants.map Prod.snd ∧ grant.status = .active ∧ grant.expired now = false := by
  simp [activeGrants]

theorem mem_getByAgent {agentDid : JsString} {requiredScopes : List JsString} :
    grant ∈ store.getByAgent now agentDid requiredScopes ↔
      grant ∈ store.activeGrants now ∧ grant.agentDid = .string agentDid ∧
        ∀ scope ∈ requiredScopes, .string scope ∈ grant.scopes := by
  simp [getByAgent, coversScopes]

theorem mem_getBySession {sessionId : JsString} {requiredScopes : List JsString} :
    grant ∈ store.getBySession now sessionId requiredScopes ↔
      grant ∈ store.activeGrants now ∧ grant.sessionId = some sessionId ∧
        ∀ scope ∈ requiredScopes, .string scope ∈ grant.scopes := by
  simp [getBySession, coversScopes]

/-- Rows stand under their own ids. -/
def Keyed (store : MemoryGrantStore) : Prop :=
  (store.grants.map Prod.fst).Nodup ∧ ∀ row ∈ store.grants, row.2.id = row.1

theorem keyed_empty : Keyed {} := ⟨List.nodup_nil, by simp⟩

theorem keyed_bind (h : store.Keyed) : (store.bind grant).Keyed := by
  refine ⟨nodup_assignMember _ _ h.1, ?_⟩
  intro row hrow
  cases mem_assignMember hrow with
  | inl hassigned => rw [hassigned]
  | inr hold => exact h.2 row hold

/-- A row is found under its id. -/
theorem Keyed.getById (h : store.Keyed) (hmem : grant ∈ store.grants.map Prod.snd) :
    store.getById grant.id = some grant := by
  obtain ⟨⟨id, row⟩, hrow, rfl⟩ := List.mem_map.mp hmem
  obtain rfl : row.id = id := h.2 (id, row) hrow
  obtain ⟨before, after, hgrants⟩ := List.append_of_mem hrow
  refine List.lookup_eq_some_iff.mpr ⟨before, after, hgrants, ?_⟩
  intro earlier hearlier
  rw [bne_iff_ne]
  intro hsame
  have hnodup := h.1
  rw [hgrants, List.map_append, List.map_cons] at hnodup
  refine (List.disjoint_of_nodup_append hnodup) (List.mem_map_of_mem hearlier) ?_
  rw [← hsame]
  exact List.mem_cons_self

/-- A row found under an id has that id. -/
theorem Keyed.id_of_getById (h : store.Keyed) {id : JsString}
    (hfound : store.getById id = some grant) : id = grant.id := by
  obtain ⟨before, after, hgrants, -⟩ := List.lookup_eq_some_iff.mp hfound
  exact (h.2 (id, grant) (by simp [hgrants])).symm

end MemoryGrantStore

end KyaOs.Providers
