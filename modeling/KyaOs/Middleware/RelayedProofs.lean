import KyaOs.Middleware.SentProvenance

/-!
# Relayed proofs do not leave as ours

What `send` emits for a tracked call. A result that no wrapper stamped loses what it relays
before it is proved; a stamped one is trusted to relay nothing, except where a proof or a
proof error is set on it.
-/

namespace KyaOs.Middleware

open Js Untyped JsonValue Proof Concurrency Concurrency.Async

section Messages

variable {config : SessionConfig} {number : Nat} {tracked : PendingCall}
  {log : List (Exchange Sessions)} {message proved emitted : Members JsNumber}
  {raw result sent : ToolResult} {key : JsString}

theorem single_of_wellFormed (h : raw.WellFormed) : SingleMeta raw := by
  cases h with
  | object hkeys => exact List.nodup_iff_count_le_one.mp hkeys _
  | array => exact single_array _
  | string text => exact single_array (text.map fun u => .string [u])
  | _ => exact Nat.zero_le 1

theorem own_of_no_meta (h : metaOf raw = none) (hsingle : SingleMeta raw) :
    Own log ownMetaKeys raw where
  own := ownUnder_of_absent fun _ _ => by
    rw [h]
    rfl
  single := hsingle
  within := List.Subset.refl _

/-- What `withoutOutcomeMeta` leaves relays nothing. -/
theorem own_received {received : ToolResult}
    (h : tryWithoutMetaKeys raw outcomeMetaKeys false = .ok received) (hsingle : SingleMeta raw) :
    Own log ownMetaKeys received where
  own := ownUnder_of_absent fun _ hkey =>
    member?_tryWithoutMetaKeys h (List.mem_append_left _ hkey)
  single := single_tryWithoutMetaKeys h hsingle
  within := List.Subset.refl _

theorem own_copy {keys : List JsString} (h : Own log keys raw) :
    Own log keys (.object (spreadOf (some raw))) where
  own := by
    have hmeta : metaOf (.object (spreadOf (some raw))) = metaOf raw :=
      lookup_spreadOf (some raw) isNamed_meta
    rw [hmeta]
    exact h.own
  single := h.single
  within := h.within

theorem proveUnstamped_own (hsingle : SingleMeta raw)
    (hruns : (proveUnstamped config number tracked raw).Runs log (.ok result)) :
    Own [] ownMetaKeys result := by
  obtain ⟨_, rest, received, -, hreceived, hproves⟩ := runs_bind_ok.mp hruns
  obtain ⟨-, hreceived⟩ := runs_ofExcept.mp hreceived
  have hown : Own [] ownMetaKeys received := own_received hreceived.symm hsingle
  obtain ⟨_, hwrapped, hresult⟩ | ⟨_, _, _, -, -, hfailed⟩ := runs_tryCatch.mp hproves
  · cases hresult
    obtain ⟨_, _, proofed, -, hproofed, hchosen⟩ := runs_bind_ok.mp hwrapped
    obtain ⟨-, hresult⟩ := runs_pure.mp hchosen
    cases hresult
    have hhandler : ∀ log, OwnHandler [] log ownMetaKeys
        (pure ⟨.object (spreadOf (some received)), false⟩) := by
      intro log called result _ hruns
      obtain ⟨-, hresult⟩ := runs_pure.mp hruns
      cases hresult
      exact own_copy hown
    rw [chooseProofed]
    split_ifs
    · exact wrapWithProof_own (List.Subset.refl _) (hhandler _) hproofed
    · exact hown
  · obtain ⟨-, hresult⟩ := runs_pure.mp hfailed
    cases hresult
    exact own_withProofError hown.single (hown.own.spread hown.within) (by simp [proofErrors])

theorem metaOf_of_falsy (h : Untyped.truthy (some raw) = false) : metaOf raw = none := by
  cases raw with
  | object members => cases h
  | _ => rfl

/-- A result that is to be sent relays nothing under a name, where it was not stamped or relays
nothing under it. -/
theorem proveTracked_own (hraw : message.lookup (js "result") = some raw)
    (hkey : key ∈ ownMetaKeys) (hsingle : SingleMeta raw)
    (hown : hasOwnStamp config raw = false ∨ Own [] [key] raw)
    (hruns : (proveTracked config number (some tracked) message).Runs log (.ok proved)) :
    ∃ result, proved.lookup (js "result") = some result ∧ Own [] [key] result := by
  simp only [proveTracked, hraw] at hruns
  split_ifs at hruns with hunstamped
  · obtain ⟨_, _, result, -, hproves, hassigned⟩ := runs_bind_ok.mp hruns
    obtain ⟨-, hproved⟩ := runs_pure.mp hassigned
    cases hproved
    exact ⟨result, by simp [lookup_assignMember],
      (proveUnstamped_own hsingle hproves).under (single_within hkey)⟩
  · obtain ⟨-, hproved⟩ := runs_pure.mp hruns
    cases hproved
    refine ⟨raw, hraw, ?_⟩
    obtain hstamp | hown := hown
    · have hfalsy : Untyped.truthy (some raw) = false := by simpa [hstamp] using hunstamped
      exact (own_of_no_meta (metaOf_of_falsy hfalsy) hsingle).under (single_within hkey)
    · exact hown

/-- A stamped result is not proved again. -/
theorem proveTracked_stamped (hstamp : hasOwnStamp config raw = true)
    (hraw : message.lookup (js "result") = some raw)
    (hruns : (proveTracked config number (some tracked) message).Runs log (.ok proved)) :
    log = [] ∧ proved = message := by
  simp only [proveTracked, hraw, hstamp, Bool.not_true, Bool.and_false] at hruns
  exact (runs_pure.mp hruns).imp_right Except.ok.inj

theorem sendOwnResult_sent {answered : Option PendingCall}
    (hresult : proved.lookup (js "result") = some result)
    (hruns : (sendOwnResult config answered proved).Runs log (.ok emitted)) :
    ∃ sent, emitted.lookup (js "result") = some sent ∧
      (isObject (some result) = false ∧ sent = result ∨
        (sendResult config result (answered.map PendingCall.toolName)).Runs log (.ok sent)) := by
  simp only [sendOwnResult, hresult] at hruns
  split_ifs at hruns with hobject
  · obtain ⟨first, rest, sent, rfl, hsent, hassigned⟩ := runs_bind_ok.mp hruns
    obtain ⟨rfl, hemitted⟩ := runs_pure.mp hassigned
    cases hemitted
    rw [List.append_nil]
    exact ⟨sent, by simp [lookup_assignMember], .inr hsent⟩
  · obtain ⟨-, hemitted⟩ := runs_pure.mp hruns
    cases hemitted
    exact ⟨result, hresult, .inl ⟨by simpa using hobject, rfl⟩⟩

theorem scrubParams_result
    (hruns : (scrubParams config message).Runs log (.ok emitted)) :
    emitted.lookup (js "result") = message.lookup (js "result") := by
  have hother : js "result" ≠ js "params" := by decide
  rw [scrubParams] at hruns
  split at hruns
  · obtain ⟨_, _, params, -, -, hassigned⟩ := runs_bind_ok.mp hruns
    obtain ⟨-, hemitted⟩ := runs_pure.mp hassigned
    cases hemitted
    rw [lookup_assignMember, if_neg hother]
  · obtain ⟨-, hemitted⟩ := runs_pure.mp hruns
    cases hemitted
    rfl

theorem scrubErrorData_result
    (hruns : (scrubErrorData config message).Runs log (.ok emitted)) :
    emitted.lookup (js "result") = message.lookup (js "result") := by
  have hother : js "result" ≠ js "error" := by decide
  rw [scrubErrorData] at hruns
  split at hruns
  · split at hruns
    · obtain ⟨_, _, data, -, -, hassigned⟩ := runs_bind_ok.mp hruns
      obtain ⟨-, hemitted⟩ := runs_pure.mp hassigned
      cases hemitted
      rw [lookup_assignMember, if_neg hother]
    · obtain ⟨-, hemitted⟩ := runs_pure.mp hruns
      cases hemitted
      rfl
  · obtain ⟨-, hemitted⟩ := runs_pure.mp hruns
    cases hemitted
    rfl

theorem scrubParams_lookless (message : Members JsNumber) :
    Lookless (scrubParams config message) := by
  rw [scrubParams]
  split
  · exact (scrubOutgoing_lookless _).bind fun _ => only_pure
  · exact only_pure

theorem scrubErrorData_lookless (message : Members JsNumber) :
    Lookless (scrubErrorData config message) := by
  rw [scrubErrorData]
  split
  · split
    · exact (scrubOutgoing_lookless _).bind fun _ => only_pure
    · exact only_pure
  · exact only_pure

/-- The steps that a message's result comes through: sessions are found only in the first two. -/
theorem sendMessage_sent
    (hruns : (sendMessage config number (some tracked) message).Runs
      (log ++ [⟨.innerSend emitted, .ok ()⟩]) (.ok ())) :
    ∃ first second proved next, second ⊆ log ∧
      (∀ exchange ∈ log, IsFound exchange → exchange ∈ first ++ second) ∧
      (proveTracked config number (answeredCall (some tracked) message) message).Runs first
        (.ok proved) ∧
      (sendOwnResult config (answeredCall (some tracked) message) proved).Runs second (.ok next) ∧
      emitted.lookup (js "result") = next.lookup (js "result") := by
  obtain ⟨first, _, proved, hfirst, hproves, hrest⟩ := runs_bind_ok.mp hruns
  obtain ⟨second, _, next, hsecond, hsends, hrest⟩ := runs_bind_ok.mp hrest
  obtain ⟨third, _, params, hthird, hparams, hrest⟩ := runs_bind_ok.mp hrest
  obtain ⟨fourth, last, data, hfourth, hdata, hemits⟩ := runs_bind_ok.mp hrest
  obtain rfl := runs_ask.mp hemits
  have hlog : log ++ [⟨.innerSend emitted, .ok ()⟩] =
      ((first ++ second) ++ (third ++ fourth)) ++ [⟨.innerSend data, .ok ()⟩] := by
    rw [hfirst, hsecond, hthird, hfourth]
    simp
  obtain ⟨rfl, hlast⟩ := List.append_inj' hlog rfl
  cases hlast
  refine ⟨first, second, proved, next, ?_, ?_, hproves, hsends, ?_⟩
  · intro exchange hmem
    simp [hmem]
  · intro exchange hmem hisFound
    refine (List.mem_append.mp hmem).resolve_right fun hmem => ?_
    exact not_found_append (not_found_of_lookless (scrubParams_lookless _) hparams)
      (not_found_of_lookless (scrubErrorData_lookless _) hdata) exchange hmem hisFound
  · rw [scrubErrorData_result hdata, scrubParams_result hparams]

/-- What a wrapper returned of a result that relays nothing under a name, or that it stripped
under it; or what it made of an outcome that relays nothing. -/
inductive FromWrapper (config : SessionConfig) (key : JsString) : Untyped → Prop
  | wrapped {number : Nat} {toolName : JsString} {args : PlainObject JsNumber}
      {sessionId : Option JsString} {context : Option KyaOsCallContext}
      {handler : SessionM Returned} {log : List (Exchange Sessions)} {returned : Returned}
      (hhandler : OwnHandler [] log [key] handler ∨ StrippedHandler log key handler)
      (hruns : (wrapWithProof config number toolName args sessionId context handler).Runs log
        (.ok returned)) : FromWrapper config key (metaOf returned.value)
  | outcome {number : Nat} {toolName : JsString} {args : PlainObject JsNumber}
      {sessionId : Option JsString} {response : ToolResult} {reason : JsString}
      {outcome : AuthorizationOutcome} {log : List (Exchange Sessions)} {returned : Returned}
      (hresponse : Own [] [key] response)
      (hruns : (attachOutcomeProof config number toolName args sessionId response reason
        outcome).Runs log (.ok returned)) : FromWrapper config key (metaOf returned.value)

theorem FromWrapper.own {metadata : Untyped} (hkey : key ∈ ownMetaKeys)
    (h : FromWrapper config key metadata) : OwnUnder [] [key] metadata := by
  cases h with
  | wrapped hhandler hruns =>
      obtain hown | hstripped := hhandler
      · exact (wrapWithProof_own (single_within hkey) hown hruns).own
      · exact (wrapWithProof_stripped hkey hstripped hruns).own
  | outcome hresponse hruns => exact (attachOutcomeProof_own hresponse hruns).own

/-- Why nothing relayed leaves under a name: no wrapper stamped the result, or the wrapper left
nothing relayed, or the result names an allowed call's proof, whose session must be found where
the name is that of the audit marker. -/
inductive Spared (config : SessionConfig) (log : List (Exchange Sessions)) (raw : ToolResult)
    (key : JsString) : Prop
  | unstamped (hstamp : hasOwnStamp config raw = false)
  | wrapper (hwrapper : FromWrapper config key (metaOf raw))
  | redeemed (hnamed : (ownPending config raw).isSome)
      (hallowed : ∀ id pending, ⟨.takePendingProof id, .ok (some (.outcome pending))⟩ ∉ log)
      (hfound : key = auditMetaKey → ∃ exchange ∈ log, IsFound exchange)

end Messages

section Sample

/-- A proof of another server. -/
def upstreamProof : JsonValue JsNumber := .object [(js "jws", .string (js "upstream"))]

def relayCall : PendingCall := { toolName := js "read", args := {} }

def answerWith (result : ToolResult) : Members JsNumber :=
  [(js "id", .string (js "1")), (js "result", result)]

/-- A result relayed with the proof of its own server. -/
def relayedResult : ToolResult :=
  .object [(js "content", .array []), (js "_meta", .object [(kyaOsProofMetaKey, upstreamProof)])]

def relayedError : ToolResult :=
  .object [(js "content", .array []), (js "isError", .bool true),
    (js "_meta", .object [(kyaOsProofMetaKey, upstreamProof)])]

def stampedMembers : Members JsNumber :=
  [(js "content", .array []), (js "isError", .bool true),
    (js "_meta", .object [(kyaOsProofMetaKey, upstreamProof),
      (lifecycleStampMetaKey, .string (js "stamp"))])]

/-- What a wrapper returns of the relayed error. -/
def stampedError : ToolResult := .object stampedMembers

def relayLog : List (Exchange Sessions) :=
  [⟨.requireProofLayer, .ok ()⟩, ⟨.callHandler relayCall.args none none, .ok ⟨relayedError, false⟩⟩]

def relaySendLog : List (Exchange Sessions) := [⟨.closeFoundProofs [] [] none, .ok ()⟩]

/-- The wrapped call of a handler that returns. -/
theorem wrapWithProof_calls {handler : SessionM Returned}
    {called settling : List (Exchange Sessions)} {result settled : Returned}
    (hcalled : handler.Runs called (.ok result))
    (hsettles : (settleResult sentConfig 0 (js "read") none relayCall.args none none result).Runs
      settling (.ok settled)) :
    (wrapWithProof sentConfig 0 (js "read") relayCall.args none none handler).Runs
      (⟨.requireProofLayer, .ok ()⟩ :: (called ++ settling))
      (.ok (stampLifecycle sentConfig settled)) := by
  refine runs_ask_bind.mpr ⟨.ok (), _, rfl, ?_⟩
  refine runs_bind_ok.mpr ⟨_, [], settled, (List.append_nil _).symm, ?_, runs_pure.mpr ⟨rfl, rfl⟩⟩
  refine runs_bind_ok.mpr ⟨[], _, true, rfl, runs_pure.mpr ⟨rfl, rfl⟩, ?_⟩
  exact runs_bind_ok.mpr ⟨called, settling, result, rfl,
    runs_tryCatch.mpr (.inl ⟨_, hcalled, rfl⟩), hsettles⟩

theorem callHandler_runs (result : Returned) :
    (Async.ask (I := Sessions) (.callHandler relayCall.args none none)).Runs
      [⟨.callHandler relayCall.args none none, .ok result⟩] (.ok result) :=
  runs_ask.mpr rfl

/-- A successful result of a call that has no session. -/
theorem settleResult_missing {result reported : Returned} (ambiguous : Bool)
    (haudited : result.audited = false)
    (hsuccess : Untyped.member (some result.value) (js "isError") = .ok none)
    (hreported : (if ambiguous then do
        return withProofError result (← handlerMeta result) ambiguousSessionProofError
      else return result : Except Error Returned) = .ok reported) :
    (settleResult sentConfig 0 (js "read") none relayCall.args none none result).Runs
      [⟨.ensureSession, .ok (.missing ambiguous)⟩] (.ok reported) := by
  rw [settleResult, if_neg (by simp [haudited])]
  refine runs_bind_ok.mpr ⟨[], _, none, rfl, runs_ofExcept.mpr ⟨rfl, hsuccess.symm⟩, ?_⟩
  refine runs_ask_bind.mpr ⟨.ok (.missing ambiguous), _, rfl, ?_⟩
  refine runs_bind_ok.mpr ⟨[], _, reported, rfl, runs_ofExcept.mpr ⟨rfl, hreported.symm⟩, ?_⟩
  exact runs_bind_ok.mpr ⟨[], [], true, rfl,
    runs_bind_ok.mpr ⟨[], [], true, rfl, runs_pure.mpr ⟨rfl, rfl⟩, runs_pure.mpr ⟨rfl, rfl⟩⟩,
    runs_pure.mpr ⟨rfl, rfl⟩⟩

theorem wrapWithProof_relays :
    (wrapWithProof sentConfig 0 (js "read") relayCall.args none none
      (Async.ask (I := Sessions) (.callHandler relayCall.args none none))).Runs relayLog
        (.ok ⟨stampedError, false⟩) := by
  have hsettles : (settleResult sentConfig 0 (js "read") none relayCall.args none none
      ⟨relayedError, false⟩).Runs [] (.ok ⟨relayedError, false⟩) := by
    refine runs_bind_ok.mpr ⟨[], [], some (.bool true), rfl, runs_ofExcept.mpr ⟨rfl, rfl⟩, ?_⟩
    exact runs_bind_ok.mpr ⟨[], [], true, rfl, runs_pure.mpr ⟨rfl, rfl⟩, runs_pure.mpr ⟨rfl, rfl⟩⟩
  exact wrapWithProof_calls (callHandler_runs _) hsettles

theorem scrub_stampedError :
    scrubPrivateMeta sentConfig.numbers stampedError (some (js "stamp")) false =
      .ok { value := relayedError, leaked := [], ids := [] } := by
  have hshallow : isShallow sentConfig.numbers (some (js "stamp")) stampedMembers = true := by
    decide +kernel
  rw [scrubPrivateMeta, stampedError, scrubShallow, if_pos hshallow]
  rfl

/-- An answer with its result as it is proved and sent, and nothing else to scrub. -/
theorem sendMessage_sends {message : Members JsNumber} {stamped sent : ToolResult}
    {first second : List (Exchange Sessions)}
    (hanswers : answeredCall (some relayCall) message = some relayCall)
    (hproves : (proveTracked sentConfig 0 (some relayCall) message).Runs first
      (.ok (answerWith stamped)))
    (hobject : isObject (some stamped) = true)
    (hsends : (sendResult sentConfig stamped (some (js "read"))).Runs second (.ok sent)) :
    (sendMessage sentConfig 0 (some relayCall) message).Runs
      ((first ++ second) ++ [⟨.innerSend (answerWith sent), .ok ()⟩]) (.ok ()) := by
  have hlookup : (answerWith stamped).lookup (js "result") = some stamped := rfl
  have hassigns : (sendOwnResult sentConfig (some relayCall) (answerWith stamped)).Runs second
      (.ok (answerWith sent)) := by
    simp only [sendOwnResult, hlookup, hobject, if_true]
    exact runs_bind_ok.mpr ⟨second, [], sent, (List.append_nil _).symm, hsends,
      runs_pure.mpr ⟨rfl, rfl⟩⟩
  rw [sendMessage, hanswers]
  refine runs_bind_ok.mpr ⟨first, _, _, List.append_assoc _ _ _, hproves, ?_⟩
  refine runs_bind_ok.mpr ⟨second, _, _, rfl, hassigns, ?_⟩
  refine runs_bind_ok.mpr ⟨[], _, _, rfl, runs_pure.mpr ⟨rfl, rfl⟩, ?_⟩
  refine runs_bind_ok.mpr ⟨[], _, _, rfl, runs_pure.mpr ⟨rfl, rfl⟩, ?_⟩
  exact runs_ask.mpr rfl

/-- A stamped result that names no proof is sent as it is scrubbed. -/
theorem sendResult_unnamed {stamped scrubbed : ToolResult}
    (hunnamed : ownPending sentConfig stamped = none)
    (hscrub : scrubPrivateMeta sentConfig.numbers stamped (some (js "stamp")) false =
      .ok { value := scrubbed, leaked := [], ids := [] }) :
    (sendResult sentConfig stamped (some (js "read"))).Runs relaySendLog (.ok scrubbed) := by
  rw [sendResult, hunnamed]
  refine runs_bind_ok.mpr ⟨[], _, _, rfl, runs_ofExcept.mpr ⟨rfl, hscrub.symm⟩, ?_⟩
  refine runs_ask_bind.mpr ⟨.ok (), _, rfl, ?_⟩
  exact runs_bind_ok.mpr ⟨[], [], ⟨scrubbed, false⟩, rfl, runs_pure.mpr ⟨rfl, rfl⟩,
    runs_pure.mpr ⟨rfl, rfl⟩⟩

def provingLog : List (Exchange Sessions) :=
  [⟨.requireProofLayer, .ok ()⟩, ⟨.ensureSession, .ok (.missing false)⟩]

/-- A relayed result without what it relays. -/
def receivedResult : ToolResult := .object [(js "content", .array [])]

def stampedReceived : Members JsNumber :=
  [(js "content", .array []),
    (js "_meta", .object [(lifecycleStampMetaKey, .string (js "stamp"))])]

theorem scrub_stampedReceived :
    scrubPrivateMeta sentConfig.numbers (.object stampedReceived) (some (js "stamp")) false =
      .ok { value := receivedResult, leaked := [], ids := [] } := by
  have hshallow : isShallow sentConfig.numbers (some (js "stamp")) stampedReceived = true := by
    decide +kernel
  rw [scrubPrivateMeta, scrubShallow, if_pos hshallow]
  rfl

theorem proveUnstamped_relayed :
    (proveUnstamped sentConfig 0 relayCall relayedResult).Runs provingLog
      (.ok (.object stampedReceived)) := by
  refine runs_bind_ok.mpr ⟨[], _, receivedResult, rfl, runs_ofExcept.mpr ⟨rfl, rfl⟩, ?_⟩
  refine runs_tryCatch.mpr (.inl ⟨_, ?_, rfl⟩)
  refine runs_bind_ok.mpr ⟨_, [], ⟨.object stampedReceived, false⟩, (List.append_nil _).symm, ?_,
    runs_pure.mpr ⟨rfl, rfl⟩⟩
  exact wrapWithProof_calls (runs_pure.mpr ⟨rfl, rfl⟩) (settleResult_missing false rfl rfl rfl)

theorem sendMessage_unwrapped :
    (sendMessage sentConfig 0 (some relayCall) (answerWith relayedResult)).Runs
      ((provingLog ++ relaySendLog) ++ [⟨.innerSend (answerWith receivedResult), .ok ()⟩])
      (.ok ()) := by
  have hproves : (proveTracked sentConfig 0 (some relayCall) (answerWith relayedResult)).Runs
      provingLog (.ok (answerWith (.object stampedReceived))) :=
    runs_bind_ok.mpr ⟨_, [], _, (List.append_nil _).symm, proveUnstamped_relayed,
      runs_pure.mpr ⟨rfl, rfl⟩⟩
  exact sendMessage_sends rfl hproves rfl (sendResult_unnamed rfl scrub_stampedReceived)

def relayingMembers : Members JsNumber :=
  [(js "content", .array []), (js "_meta", .object [(kyaOsProofMetaKey, upstreamProof),
    (lifecycleStampMetaKey, .string (js "stamp")), (pendingProofMetaKey, .string (js "p"))])]

/-- What a wrapper returns of the relayed result, naming the pending proof `p`. -/
def relayingResult : ToolResult := .object relayingMembers

def redeemedLog : List (Exchange Sessions) :=
  [⟨.closeFoundProofs [js "p"] [] (some (.string (js "p"))), .ok ()⟩,
    ⟨.takePendingProof (js "p"), .ok (some (.allowed sentPending))⟩,
    ⟨.getSession (js "session"), .ok (some sentSession)⟩,
    ⟨.generateProof (js "p") (hashedRequest (js "read"))
      (some { data := boundData sentConfig relayedResult }) sentSession sentOptions,
      .ok sentProof⟩,
    ⟨.logAuditRecord sentSession (js "digest") (some (js "digest")) (some (js "scope")), .ok ()⟩]

def redeemedResult : ToolResult :=
  (withMetadata ⟨relayedResult, false⟩ (withProofMeta sentConfig [] sentProof)).value

theorem sendResult_redeems :
    (sendResult sentConfig relayingResult (some (js "read"))).Runs redeemedLog
      (.ok redeemedResult) := by
  have hshallow : isShallow sentConfig.numbers (some (js "stamp")) relayingMembers = true := by
    decide +kernel
  have hscrub : scrubPrivateMeta sentConfig.numbers relayingResult (some (js "stamp")) true =
      .ok { value := relayedResult, leaked := [], ids := [js "p"] } := by
    rw [scrubPrivateMeta, relayingResult, scrubShallow, if_pos hshallow]
    rfl
  exact sendResult_proves rfl hscrub rfl

theorem sendMessage_redeems :
    (sendMessage sentConfig 0 (some relayCall) (answerWith relayingResult)).Runs
      (redeemedLog ++ [⟨.innerSend (answerWith redeemedResult), .ok ()⟩]) (.ok ()) := by
  have hproves : (proveTracked sentConfig 0 (some relayCall) (answerWith relayingResult)).Runs []
      (.ok (answerWith relayingResult)) := runs_pure.mpr ⟨rfl, rfl⟩
  exact sendMessage_sends rfl hproves rfl sendResult_redeems

def ambiguousLog : List (Exchange Sessions) :=
  [⟨.requireProofLayer, .ok ()⟩,
    ⟨.callHandler relayCall.args none none, .ok ⟨relayedResult, false⟩⟩,
    ⟨.ensureSession, .ok (.missing true)⟩]

def stampedAmbiguous : Members JsNumber :=
  [(js "content", .array []),
    (js "_meta", .object [(js "proofError", .string ambiguousSessionProofError),
      (lifecycleStampMetaKey, .string (js "stamp"))])]

def ambiguousResult : ToolResult :=
  .object [(js "content", .array []),
    (js "_meta", .object [(js "proofError", .string ambiguousSessionProofError)])]

theorem wrapWithProof_ambiguous :
    (wrapWithProof sentConfig 0 (js "read") relayCall.args none none
      (Async.ask (I := Sessions) (.callHandler relayCall.args none none))).Runs ambiguousLog
        (.ok ⟨.object stampedAmbiguous, false⟩) :=
  wrapWithProof_calls (callHandler_runs ⟨relayedResult, false⟩)
    (settleResult_missing true rfl rfl rfl)

theorem scrub_stampedAmbiguous :
    scrubPrivateMeta sentConfig.numbers (.object stampedAmbiguous) (some (js "stamp")) false =
      .ok { value := ambiguousResult, leaked := [], ids := [] } := by
  have hshallow : isShallow sentConfig.numbers (some (js "stamp")) stampedAmbiguous = true := by
    decide +kernel
  rw [scrubPrivateMeta, scrubShallow, if_pos hshallow]
  rfl

/-- The tool's only answer in this call relays, and the call's session is ambiguous. -/
theorem stripped_ambiguous (key : JsString) :
    StrippedHandler ambiguousLog key
      (Async.ask (I := Sessions) (.callHandler relayCall.args none none)) where
  calls := only_ask trivial
  stripped called result hinfix hruns := by
    have hanswered : (⟨.callHandler relayCall.args none none, .ok result⟩ : Exchange Sessions) ∈
        ambiguousLog := by
      rw [runs_ask.mp hruns] at hinfix
      exact hinfix.subset (List.mem_singleton_self _)
    have hresult : result = ⟨relayedResult, false⟩ := by simpa [ambiguousLog] using hanswered
    refine ⟨?_, _, by simp [ambiguousLog], .ambiguous⟩
    rw [hresult]
    have hnames : [js "content", js "_meta"].count (js "_meta") ≤ 1 := by decide
    exact hnames

end Sample

end KyaOs.Middleware
