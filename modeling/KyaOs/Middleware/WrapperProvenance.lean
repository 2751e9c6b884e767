import KyaOs.Middleware.Provenance

/-!
# What a wrapper relays

Under a name that only the middleware sets a wrapper returns nothing relayed, where its
handler's result relays nothing under it or one of the wrapper's own steps strips it.
-/

namespace KyaOs.Middleware

open Js Untyped JsonValue Proof Concurrency Concurrency.Async

section Stripped

variable {key : JsString} {result : ToolResult} {exchange : Exchange Sessions}

/-- A handler's audit marker that is no object is overwritten where the audit is degraded. -/
def IsOverwritten (key : JsString) (result : ToolResult) : Prop :=
  key = auditMetaKey ∧ isObject ((metaOf result).member? auditMetaKey) = false

/-- Whether a result loses what it relays under a name when this event is not recorded. -/
def LostUnrecorded (key : JsString) (result : ToolResult) : SessionEvent → Prop
  | .tool _ .started .. => True
  | .tool _ .failed .. => IsOverwritten key result
  | .tool _ .completed .. | .proof .rejected .. =>
    key ∈ [kyaOsProofMetaKey, legacyProofMetaKey] ∨ IsOverwritten key result
  | _ => False

/-- The answers on which a wrapper takes from its handler's result what it relays. -/
inductive Strips (key : JsString) (result : ToolResult) : Exchange Sessions → Prop
  | ambiguous : Strips key result ⟨.ensureSession, .ok (.missing true)⟩
  | unhashed (request : ToolRequest JsNumber) (e : Error) :
      Strips key result ⟨.hashRequest request, .error e⟩
  | unrecorded {event : SessionEvent} (e : Error) (hlost : LostUnrecorded key result event) :
      Strips key result ⟨.recordAudit event, .error e⟩

def IsHandlerCall : SessionRequest → Prop
  | .callHandler .. => True
  | _ => False

/-- What a handler that only calls the tool returns in this conversation is stripped under a
name. -/
structure StrippedHandler (log : List (Exchange Sessions)) (key : JsString)
    (handler : SessionM Returned) : Prop where
  calls : handler.Only IsHandlerCall
  stripped : ∀ called result, called <:+: log → handler.Runs called (.ok result) →
    SingleMeta result.value ∧ ∃ exchange ∈ log, Strips key result.value exchange

theorem not_strips_of_handler (h : IsHandlerCall exchange.request) :
    ¬ Strips key result exchange := by
  intro hstrips
  cases hstrips <;> exact h

variable {config : SessionConfig} {first second event : SessionEvent} {delivered : Bool}
  {log : List (Exchange Sessions)}

theorem emitAudit_strips (hruns : (emitAudit config event).Runs log (.ok delivered))
    (hmem : exchange ∈ log) (hstrips : Strips key result exchange) :
    delivered = false ∧ LostUnrecorded key result event := by
  rw [emitAudit] at hruns
  split_ifs at hruns
  · obtain ⟨_, hrecorded, -⟩ | ⟨recording, rest, e, rfl, hfailed, hlost⟩ := runs_tryCatch.mp hruns
    · obtain ⟨recording, rest, _, rfl, hasked, hreturned⟩ := runs_bind_ok.mp hrecorded
      obtain ⟨rfl, -⟩ := runs_pure.mp hreturned
      rw [runs_ask.mp hasked, List.append_nil, List.mem_singleton] at hmem
      subst hmem
      cases hstrips
    · obtain ⟨rfl, hdelivered⟩ := runs_pure.mp hlost
      obtain ⟨_, _, _, -, -, hreturned⟩ | ⟨_, hasked, -⟩ := runs_bind.mp hfailed
      · cases (runs_pure.mp hreturned).2
      · rw [runs_ask.mp hasked, List.append_nil, List.mem_singleton] at hmem
        subst hmem
        cases hstrips with
        | unrecorded _ hlost => exact ⟨Except.ok.inj hdelivered, hlost⟩
  · rw [(runs_pure.mp hruns).1] at hmem
    cases hmem

theorem emitBoth_strips (hruns : (emitBoth config first second).Runs log (.ok delivered))
    (hmem : exchange ∈ log) (hstrips : Strips key result exchange) :
    delivered = false ∧ (LostUnrecorded key result first ∨ LostUnrecorded key result second) := by
  obtain ⟨before, after, _, rfl, hfirst, hnext⟩ := runs_bind_ok.mp hruns
  split_ifs at hnext with hdelivered
  · obtain hmem | hmem := List.mem_append.mp hmem
    · have hlost := (emitAudit_strips hfirst hmem hstrips).1
      rw [hdelivered] at hlost
      cases hlost
    · exact (emitAudit_strips hnext hmem hstrips).imp_right .inr
  · obtain ⟨rfl, hreturned⟩ := runs_pure.mp hnext
    rw [List.append_nil] at hmem
    exact ⟨Except.ok.inj hreturned, .inl (emitAudit_strips hfirst hmem hstrips).2⟩

theorem resolveSession_strips {sessionId : Option JsString} {session : FallbackSession}
    (hruns : (resolveSession sessionId).Runs log (.ok session)) (hmem : exchange ∈ log)
    (hstrips : Strips key result exchange) : session = .missing true := by
  cases sessionId with
  | some id =>
      rw [(runs_pure.mp hruns).1] at hmem
      cases hmem
  | none =>
      rw [runs_ask.mp hruns, List.mem_singleton] at hmem
      subst hmem
      cases hstrips
      rfl

end Stripped

section Wrapped

variable {minted log : List (Exchange Sessions)} {keys : List JsString}
  {config : SessionConfig} {call : Nat}
  {toolName : JsString} {callAudit : Option AuditContext} {args : PlainObject JsNumber}
  {sessionId scopeId : Option JsString} {result returned : Returned}

theorem allowedProofFailed_own (hsingle : SingleMeta result.value)
    (hruns : (allowedProofFailed config result callAudit).Runs log (.ok returned)) :
    Own minted ownMetaKeys returned.value := by
  obtain ⟨_, _, kept, -, hkept, hruns⟩ := runs_bind_ok.mp hruns
  obtain ⟨-, hkept⟩ := runs_ofExcept.mp hkept
  obtain ⟨_, _, delivered, -, -, hruns⟩ := runs_bind_ok.mp hruns
  obtain ⟨-, hreturned⟩ := runs_pure.mp hruns
  cases hreturned
  have hown : Own minted ownMetaKeys (withProofError result kept unprovenProofError).value :=
    own_withProofError hsingle (own_handlerMeta hkept.symm) (by simp [proofErrors])
  split_ifs
  · exact hown
  · exact hown.degraded (by simp [degradedReasons]) true

theorem leaveToOuterLayer_own (h : Own minted keys result.value) {pending : PendingProof}
    (hruns : (leaveToOuterLayer result pending).Runs log (.ok returned)) :
    Own minted keys returned.value := by
  obtain ⟨_, _, id, -, -, hruns⟩ := runs_bind_ok.mp hruns
  obtain ⟨-, hreturned⟩ := runs_pure.mp hruns
  cases hreturned
  exact h.assign (by decide) _

theorem completeUnproven_own (h : Own minted keys result.value) {verificationCode : JsString}
    (hruns : (completeUnproven config call toolName callAudit verificationCode result).Runs log
      (.ok returned)) : Own minted keys returned.value := by
  obtain ⟨_, _, delivered, -, -, hruns⟩ := runs_bind_ok.mp hruns
  obtain ⟨-, hreturned⟩ := runs_pure.mp hruns
  cases hreturned
  split_ifs
  · exact h
  · exact h.degraded (by simp [degradedReasons]) true

theorem sessionUnavailable_ambiguous (hsingle : SingleMeta result.value)
    (hruns : (sessionUnavailable config call toolName callAudit true result).Runs log
      (.ok returned)) : Own minted ownMetaKeys returned.value := by
  obtain ⟨_, _, reported, -, hreported, hruns⟩ := runs_bind_ok.mp hruns
  obtain ⟨-, hreported⟩ := runs_ofExcept.mp hreported
  obtain ⟨kept, hkept, hreported⟩ := bind_eq_ok.mp hreported.symm
  cases hreported
  have hown : Own minted ownMetaKeys
      (withProofError result kept ambiguousSessionProofError).value :=
    own_withProofError hsingle (own_handlerMeta hkept) (by simp [proofErrors])
  exact completeUnproven_own hown hruns

theorem sessionUnavailable_own (h : Own minted keys result.value) {ambiguous : Bool}
    (hruns : (sessionUnavailable config call toolName callAudit ambiguous result).Runs log
      (.ok returned)) : Own minted keys returned.value := by
  cases ambiguous with
  | true => exact (sessionUnavailable_ambiguous h.single hruns).under h.within
  | false =>
      obtain ⟨_, _, reported, -, hreported, hruns⟩ := runs_bind_ok.mp hruns
      cases (runs_ofExcept.mp hreported).2
      exact completeUnproven_own h hruns

theorem settleError_own (h : Own minted keys result.value)
    (hruns : (settleError config call toolName callAudit result).Runs log (.ok returned)) :
    Own minted keys returned.value := by
  rw [settleError] at hruns
  split_ifs at hruns
  · obtain ⟨-, hreturned⟩ := runs_pure.mp hruns
    cases hreturned
    exact h
  · obtain ⟨_, _, delivered, -, -, hruns⟩ := runs_bind_ok.mp hruns
    obtain ⟨-, hreturned⟩ := runs_pure.mp hruns
    cases hreturned
    split_ifs
    · exact h
    · exact h.degraded (by simp [degradedReasons]) false

theorem leaveAllowed_own (h : Own minted keys result.value) {session : SessionContext}
    (hruns : (leaveAllowed config call toolName callAudit args scopeId result session).Runs log
      (.ok returned)) : Own minted keys returned.value := by
  obtain ⟨_, _, hashed, -, -, hruns⟩ := runs_bind_ok.mp hruns
  cases hashed with
  | ok requestHash => exact leaveToOuterLayer_own h hruns
  | error e => exact (allowedProofFailed_own h.single hruns).under h.within

theorem settleSuccess_own (h : Own minted keys result.value)
    (hruns : (settleSuccess config call toolName callAudit args sessionId scopeId result).Runs log
      (.ok returned)) : Own minted keys returned.value := by
  obtain ⟨_, _, session, -, -, hruns⟩ := runs_bind_ok.mp hruns
  cases session with
  | missing ambiguous => exact sessionUnavailable_own h hruns
  | found resolved =>
      dsimp only at hruns
      split_ifs at hruns
      · exact sessionUnavailable_own h hruns
      · obtain ⟨_, _, session, -, -, hruns⟩ := runs_bind_ok.mp hruns
        cases session with
        | none => exact completeUnproven_own h hruns
        | some session => exact leaveAllowed_own h hruns

theorem settleResult_own (h : Own minted keys result.value)
    (hruns : (settleResult config call toolName callAudit args sessionId scopeId result).Runs log
      (.ok returned)) : Own minted keys returned.value := by
  rw [settleResult] at hruns
  split_ifs at hruns
  · obtain ⟨-, hreturned⟩ := runs_pure.mp hruns
    cases hreturned
    exact h
  · obtain ⟨_, _, isError, -, -, hruns⟩ := runs_bind_ok.mp hruns
    split_ifs at hruns
    · exact settleError_own h hruns
    · exact settleSuccess_own h hruns

section Stripping

variable {key : JsString} {exchange : Exchange Sessions} (hsingle : SingleMeta result.value)
  (hkey : key ∈ ownMetaKeys) (hmem : exchange ∈ log) (hstrips : Strips key result.value exchange)

include hsingle hmem hstrips

theorem completeUnproven_stripped {verificationCode : JsString}
    (hruns : (completeUnproven config call toolName callAudit verificationCode result).Runs log
      (.ok returned)) : Own minted [key] returned.value := by
  obtain ⟨recording, rest, delivered, rfl, hrecorded, hruns⟩ := runs_bind_ok.mp hruns
  obtain ⟨rfl, hreturned⟩ := runs_pure.mp hruns
  rw [List.append_nil] at hmem
  obtain ⟨rfl, hlost⟩ := emitBoth_strips hrecorded hmem hstrips
  cases hreturned
  obtain hproof | ⟨rfl, hplain⟩ := or_self_iff.mp hlost
  · exact own_degraded_stripped hsingle hproof _
  · exact own_degraded_overwritten hsingle hplain (by simp [degradedReasons]) true

theorem settleError_stripped
    (hruns : (settleError config call toolName callAudit result).Runs log (.ok returned)) :
    Own minted [key] returned.value := by
  rw [settleError] at hruns
  split_ifs at hruns
  · rw [(runs_pure.mp hruns).1] at hmem
    cases hmem
  · obtain ⟨recording, rest, delivered, rfl, hrecorded, hruns⟩ := runs_bind_ok.mp hruns
    obtain ⟨rfl, hreturned⟩ := runs_pure.mp hruns
    rw [List.append_nil] at hmem
    obtain ⟨rfl, rfl, hplain⟩ := emitAudit_strips hrecorded hmem hstrips
    cases hreturned
    exact own_degraded_overwritten hsingle hplain (by simp [degradedReasons]) false

include hkey

theorem sessionUnavailable_stripped {ambiguous : Bool}
    (hruns : (sessionUnavailable config call toolName callAudit ambiguous result).Runs log
      (.ok returned)) : Own minted [key] returned.value := by
  cases ambiguous with
  | true => exact (sessionUnavailable_ambiguous hsingle hruns).under (single_within hkey)
  | false =>
      obtain ⟨_, rest, reported, rfl, hreported, hruns⟩ := runs_bind_ok.mp hruns
      obtain ⟨rfl, hreported⟩ := runs_ofExcept.mp hreported
      cases hreported
      exact completeUnproven_stripped hsingle hmem hstrips hruns

theorem leaveAllowed_stripped {session : SessionContext}
    (hruns : (leaveAllowed config call toolName callAudit args scopeId result session).Runs log
      (.ok returned)) : Own minted [key] returned.value := by
  obtain ⟨hashing, rest, hashed, rfl, hhashed, hruns⟩ := runs_bind_ok.mp hruns
  obtain ⟨_, hasked, hanswered⟩ := runs_outcome.mp hhashed
  cases hanswered
  cases hashed with
  | error e =>
      exact (allowedProofFailed_own hsingle hruns).under (single_within hkey)
  | ok requestHash =>
      obtain ⟨leaving, _, id, rfl, hleft, hruns⟩ := runs_bind_ok.mp hruns
      rw [runs_ask.mp hasked, runs_ask.mp hleft, (runs_pure.mp hruns).1] at hmem
      obtain rfl | rfl : exchange = _ ∨ exchange = _ := by simpa using hmem
      · cases hstrips
      · cases hstrips

theorem settleSuccess_stripped
    (hruns : (settleSuccess config call toolName callAudit args sessionId scopeId result).Runs log
      (.ok returned)) : Own minted [key] returned.value := by
  obtain ⟨resolving, rest, session, rfl, hresolved, hruns⟩ := runs_bind_ok.mp hruns
  rw [List.mem_append] at hmem
  cases session with
  | missing ambiguous =>
      obtain hmem | hmem := hmem
      · cases resolveSession_strips hresolved hmem hstrips
        exact (sessionUnavailable_ambiguous hsingle hruns).under (single_within hkey)
      · exact sessionUnavailable_stripped hsingle hkey hmem hstrips hruns
  | found resolved =>
      have hmem : exchange ∈ rest := by
        refine hmem.resolve_left fun hmem => ?_
        cases resolveSession_strips hresolved hmem hstrips
      dsimp only at hruns
      split_ifs at hruns
      · exact sessionUnavailable_stripped hsingle hkey hmem hstrips hruns
      · obtain ⟨looking, rest, session, rfl, hlooked, hruns⟩ := runs_bind_ok.mp hruns
        have hmem : exchange ∈ rest := by
          refine (List.mem_append.mp hmem).resolve_left fun hmem => ?_
          rw [runs_ask.mp hlooked, List.mem_singleton] at hmem
          subst hmem
          cases hstrips
        cases session with
        | none => exact completeUnproven_stripped hsingle hmem hstrips hruns
        | some session => exact leaveAllowed_stripped hsingle hkey hmem hstrips hruns

theorem settleResult_stripped
    (hruns : (settleResult config call toolName callAudit args sessionId scopeId result).Runs log
      (.ok returned)) : Own minted [key] returned.value := by
  rw [settleResult] at hruns
  split_ifs at hruns
  · rw [(runs_pure.mp hruns).1] at hmem
    cases hmem
  · obtain ⟨_, rest, isError, rfl, hmember, hsettles⟩ := runs_bind_ok.mp hruns
    obtain ⟨rfl, -⟩ := runs_ofExcept.mp hmember
    split_ifs at hsettles
    · exact settleError_stripped hsingle hmem hstrips hsettles
    · exact settleSuccess_stripped hsingle hkey hmem hstrips hsettles

end Stripping

theorem own_auditUnavailable (numbers : Doubles JsNumber) {reason : JsString}
    (hreason : reason ∈ degradedReasons) :
    Own minted ownMetaKeys (auditUnavailableResponse numbers reason).value where
  own := by
    have hmeta : metaOf (auditUnavailableResponse numbers reason).value =
        some (.object (assignMember auditMetaKey (degraded [] reason) [])) := rfl
    rw [hmeta]
    exact (ownUnder_of_absent fun _ _ => rfl).assign fun _ => .audit (.fresh hreason)
  single := by
    have hnames : [js "content", js "isError", js "_meta"].count (js "_meta") ≤ 1 := by decide
    exact hnames
  within := List.Subset.refl _

/-- What a handler returns in this conversation relays nothing under these names. -/
def OwnHandler (minted log : List (Exchange Sessions)) (keys : List JsString)
    (handler : SessionM Returned) : Prop :=
  ∀ called result, called <:+: log → handler.Runs called (.ok result) →
    Own minted keys result.value

/-- Stamping changes none of the members that only the middleware sets. -/
theorem Own.stamped (h : Own minted keys result.value) :
    Own minted keys (stampLifecycle config result).value :=
  h.assign (by decide) _

/-- What a wrapper returns is what it settles a result of its handler to, with its stamp, where
the start of the call was recorded. -/
theorem wrapWithProof_settles {context : Option KyaOsCallContext} {handler : SessionM Returned}
    (hruns : (wrapWithProof config call toolName args sessionId context handler).Runs log
      (.ok returned)) :
    ∃ settled, returned = stampLifecycle config settled ∧
      (settled = auditUnavailableResponse config.numbers
          (js "Required intent audit delivery failed before tool execution") ∨
        ∃ started called settling result, log = started ++ called ++ settling ∧
          (∀ exchange ∈ started, ∀ key, ¬ Strips key result.value exchange) ∧
          handler.Runs called (.ok result) ∧
          (settleResult config call toolName (context.map auditContext) args sessionId
            (context.bind KyaOsCallContext.scopeId) result).Runs settling (.ok settled)) := by
  obtain ⟨required, _, _, hrequired, hrequires, hruns⟩ := runs_bind_ok.mp hruns
  obtain ⟨_, _, settled, hran, hsettled, hstamped⟩ := runs_bind_ok.mp hruns
  obtain ⟨rfl, hreturned⟩ := runs_pure.mp hstamped
  refine ⟨settled, Except.ok.inj hreturned, ?_⟩
  obtain ⟨started, _, delivered, hstarted, hstarts, hcalled⟩ := runs_bind_ok.mp hsettled
  split_ifs at hcalled with hdelivered
  · obtain ⟨called, settling, result, hcall, hresult, hsettles⟩ := runs_bind_ok.mp hcalled
    obtain ⟨_, hhandled, hsame⟩ | ⟨_, _, e, -, -, hthrown⟩ := runs_tryCatch.mp hresult
    · cases hsame
      refine .inr ⟨required ++ started, called, settling, result, ?_, ?_, hhandled, hsettles⟩
      · simp [hrequired, hran, hstarted, hcall]
      · intro exchange hmem key hstrips
        obtain hmem | hmem := List.mem_append.mp hmem
        · rw [runs_ask.mp hrequires, List.mem_singleton] at hmem
          subst hmem
          cases hstrips
        · have hlost := (emitAudit_strips hstarts hmem hstrips).1
          rw [hdelivered] at hlost
          cases hlost
    · obtain ⟨_, _, _, -, -, hthrown⟩ := runs_bind_ok.mp hthrown
      cases (runs_throw.mp hthrown).2
  · obtain ⟨-, hunavailable⟩ := runs_pure.mp hcalled
    exact .inl (Except.ok.inj hunavailable)

theorem infix_of_settles {started called settling : List (Exchange Sessions)}
    (hlog : log = started ++ called ++ settling) : called <:+: log :=
  ⟨started, settling, hlog.symm⟩

/-- A wrapper relays only what its handler does. -/
theorem wrapWithProof_own {context : Option KyaOsCallContext} {handler : SessionM Returned}
    (hkeys : keys ⊆ ownMetaKeys) (hhandler : OwnHandler minted log keys handler)
    (hruns : (wrapWithProof config call toolName args sessionId context handler).Runs log
      (.ok returned)) : Own minted keys returned.value := by
  obtain ⟨settled, rfl, rfl | ⟨started, called, settling, result, hlog, -, hhandled, hsettles⟩⟩ :=
    wrapWithProof_settles hruns
  · exact ((own_auditUnavailable _ (by simp [degradedReasons])).under hkeys).stamped
  · exact (settleResult_own (hhandler called result (infix_of_settles hlog) hhandled)
      hsettles).stamped

/-- A wrapper that strips its handler's results relays nothing of them, whatever they hold. -/
theorem wrapWithProof_stripped {context : Option KyaOsCallContext} {handler : SessionM Returned}
    {key : JsString} (hkey : key ∈ ownMetaKeys) (hhandler : StrippedHandler log key handler)
    (hruns : (wrapWithProof config call toolName args sessionId context handler).Runs log
      (.ok returned)) : Own minted [key] returned.value := by
  have hkeys : [key] ⊆ ownMetaKeys := single_within hkey
  obtain ⟨settled, rfl, rfl | ⟨started, called, settling, result, hlog, hstarted, hhandled,
    hsettles⟩⟩ := wrapWithProof_settles hruns
  · exact ((own_auditUnavailable _ (by simp [degradedReasons])).under hkeys).stamped
  · obtain ⟨hsingle, exchange, hmem, hstrips⟩ :=
      hhandler.stripped called result (infix_of_settles hlog) hhandled
    rw [hlog, List.append_assoc, List.mem_append, List.mem_append] at hmem
    obtain hmem | hmem | hmem := hmem
    · exact absurd hstrips (hstarted exchange hmem key)
    · exact absurd hstrips (not_strips_of_handler (hhandler.calls.requests hhandled exchange hmem))
    · exact (settleResult_stripped hsingle hkey hmem hstrips hsettles).stamped

/-- What is left of an outcome relays only what its response does. -/
theorem attachOutcomeProof_own {response : ToolResult} (h : Own minted keys response)
    {reason : JsString} {outcome : AuthorizationOutcome}
    (hruns : (attachOutcomeProof config call toolName args sessionId response reason outcome).Runs
      log (.ok returned)) : Own minted keys returned.value := by
  obtain ⟨_, _, proved, -, hproved, hstamped⟩ := runs_bind_ok.mp hruns
  obtain ⟨-, hreturned⟩ := runs_pure.mp hstamped
  cases hreturned
  have hown : Own minted keys proved.value := by
    obtain ⟨_, _, delivered, -, -, hmarked⟩ := runs_bind_ok.mp hproved
    have haudited : Own minted keys (withMetadata ⟨response, true⟩ (assignMember auditMetaKey
        (outcomeMarker outcome delivered) (spreadOf (metaOf response)))).value :=
      own_withMetadata h.single h.within ((h.own.spread h.within).assign
        fun _ => .audit (.outcome outcome delivered))
    obtain ⟨_, _, session, -, -, hleft⟩ := runs_bind_ok.mp hmarked
    cases session with
    | error e =>
        obtain ⟨_, _, _, -, -, hleft⟩ := runs_bind_ok.mp hleft
        obtain ⟨-, hreturned⟩ := runs_pure.mp hleft
        cases hreturned
        exact haudited
    | ok session =>
        cases session with
        | none =>
            obtain ⟨-, hreturned⟩ := runs_pure.mp hleft
            cases hreturned
            exact haudited
        | some session =>
            obtain ⟨_, _, hashed, -, -, hleft⟩ := runs_bind_ok.mp hleft
            cases hashed with
            | ok requestHash => exact leaveToOuterLayer_own haudited hleft
            | error e =>
                obtain ⟨_, _, _, -, -, hleft⟩ := runs_bind_ok.mp hleft
                obtain ⟨-, hmark⟩ := runs_ofExcept.mp hleft
                exact haudited.unproven hmark.symm
  exact hown.stamped

end Wrapped

end KyaOs.Middleware
