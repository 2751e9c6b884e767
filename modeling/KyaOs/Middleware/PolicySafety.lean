import KyaOs.Middleware.HandlerCalls

/-!
# What the policy gate lets through

Whatever the ports answer or throw, the policy gate calls the innermost handler only when
the policy engine allowed the call, or asked for approvals and enough distinct approvers
signed the hash of what the handler gets: the call without its control arguments.
-/

namespace KyaOs.Middleware

open Js Untyped JsonValue Audit Proof Concurrency Concurrency.Async

variable {config : DelegationConfig} {opts : PolicyGateOptions} {toolName : JsString}
  {handlerArgs : PlainObject JsNumber} {log : List (Exchange Gates)}

/-- The grant approves the call whose arguments the handler gets. -/
structure Approves (config : DelegationConfig) (opts : PolicyGateOptions) (toolName : JsString)
    (handlerArgs : PlainObject JsNumber) (quorum : Quorum) (log : List (Exchange Gates))
    (g : JsonValue JsNumber) : Prop where
  decision : Untyped.member? (some g) (js "decision") = some (.string (js "approve"))
  approver : quorum.approvers = [] ∨ ∃ did ∈ quorum.approvers,
    Untyped.member? (some g) (js "approverDid") = some (.string did)
  binds : ∃ shape text digest,
    shape ∈ approvedAction toolName opts.approvalsKey handlerArgs ::
      alternateRequestShapes (approvedAction toolName opts.approvalsKey handlerArgs) ∧
    canonicalizeJson config.runtime.numbers (canonicalRequest config.runtime.numbers shape) =
      .ok text ∧
    ⟨.hash (encodeUtf8 text), .ok digest⟩ ∈ log ∧
    Untyped.member? (some g) (js "requestHash") = some (.string digest)
  signature : ⟨.isValidApprovalSignature g, .ok true⟩ ∈ log

/-- Enough grants of distinct approvers. -/
def QuorumMet (config : DelegationConfig) (opts : PolicyGateOptions) (toolName : JsString)
    (handlerArgs : PlainObject JsNumber) (quorum : Quorum) (log : List (Exchange Gates)) : Prop :=
  ∃ (n : ℚ) (approving : List (JsonValue JsNumber)),
    quorum.n = .finite n ∧ 0 < n ∧ n ≤ approving.length ∧
    approving.Pairwise (fun g g' => sameApprover (Untyped.member? (some g') (js "approverDid"))
      (Untyped.member? (some g) (js "approverDid")) = false) ∧
    ∀ g ∈ approving, Approves config opts toolName handlerArgs quorum log g

/-- What lets a call through the policy gate. -/
inductive Permitted (config : DelegationConfig) (opts : PolicyGateOptions) (toolName : JsString)
    (handlerArgs : PlainObject JsNumber) (log : List (Exchange Gates)) : Prop
  | allowed (request : PolicyRequest) (hrequest : request.toolName = toolName)
      (hdecided : ⟨.evaluatePolicy request, .ok .allow⟩ ∈ log)
  | approved (request : PolicyRequest) (quorum : Quorum) (reason : JsString)
      (hrequest : request.toolName = toolName)
      (hdecided : ⟨.evaluatePolicy request, .ok (.stepUp quorum reason)⟩ ∈ log)
      (hquorum : QuorumMet config opts toolName handlerArgs quorum log)

section Quorum

variable {actionHashes : List Digest} {quorum : Quorum}

/-- What is known of each approver's grant while the loop runs. -/
structure Counted (opts : PolicyGateOptions) (actionHashes : List Digest) (quorum : Quorum)
    (log : List (Exchange Gates)) (g : JsonValue JsNumber) : Prop where
  binds : bindsAction actionHashes quorum g = true
  signature : ⟨.isValidApprovalSignature g, .ok true⟩ ∈ log

theorem Counted.mono {log' : List (Exchange Gates)} {g : JsonValue JsNumber}
    (h : Counted opts actionHashes quorum log g) (hlog : log ⊆ log') :
    Counted opts actionHashes quorum log' g where
  binds := h.binds
  signature := hlog h.signature

/-- The approvers are those of counted grants, no two of them the same. -/
structure ApproversOf (opts : PolicyGateOptions) (actionHashes : List Digest) (quorum : Quorum)
    (log : List (Exchange Gates)) (approvers : List Untyped)
    (approving : List (JsonValue JsNumber)) : Prop where
  dids : approvers = approving.map fun g => Untyped.member? (some g) (js "approverDid")
  distinct : approving.Pairwise fun g g' =>
    sameApprover (Untyped.member? (some g') (js "approverDid"))
      (Untyped.member? (some g) (js "approverDid")) = false
  counted : ∀ g ∈ approving, Counted opts actionHashes quorum log g

theorem ApproversOf.mono {log' : List (Exchange Gates)} {approvers : List Untyped}
    {approving : List (JsonValue JsNumber)}
    (h : ApproversOf opts actionHashes quorum log approvers approving) (hlog : log ⊆ log') :
    ApproversOf opts actionHashes quorum log' approvers approving where
  dids := h.dids
  distinct := h.distinct
  counted g hmem := (h.counted g hmem).mono hlog

/-- Adding an approver counts its grant, unless it was counted before. -/
theorem ApproversOf.add {approvers : List Untyped} {approving : List (JsonValue JsNumber)}
    {g : JsonValue JsNumber} (h : ApproversOf opts actionHashes quorum log approvers approving)
    (hcounted : Counted opts actionHashes quorum log g) :
    ∃ approving', ApproversOf opts actionHashes quorum log
      (addApprover approvers (Untyped.member? (some g) (js "approverDid"))) approving' := by
  rw [addApprover]
  split_ifs with hknown
  · exact ⟨approving, h⟩
  · refine ⟨approving ++ [g], ?_, ?_, ?_⟩
    · rw [h.dids, List.map_append, List.map_singleton]
    · rw [List.pairwise_append]
      refine ⟨h.distinct, List.pairwise_singleton _ _, fun g' hmem g'' hlast => ?_⟩
      obtain rfl := List.mem_singleton.mp hlast
      rw [h.dids, Bool.not_eq_true, List.any_eq_false] at hknown
      simpa using hknown _ (List.mem_map_of_mem hmem)
    · intro g' hmem
      cases List.mem_append.mp hmem with
      | inl hmem => exact h.counted g' hmem
      | inr hlast => exact List.mem_singleton.mp hlast ▸ hcounted

/-- A signature counts when a check of it answered so. -/
theorem isValidSignature_runs {g : JsonValue JsNumber} {valid : Bool}
    (h : (isValidSignature opts g).Runs log (.ok valid)) :
    valid = true → ⟨.isValidApprovalSignature g, .ok true⟩ ∈ log := by
  rintro rfl
  rw [isValidSignature] at h
  split_ifs at h
  · rw [runs_ask.mp h]
    exact List.mem_singleton_self _
  · cases (runs_pure.mp h).2

theorem collectApprovers_runs {before : List (Exchange Gates)} {approvers final : List Untyped}
    {approving grants : List (JsonValue JsNumber)}
    (happrovers : ApproversOf opts actionHashes quorum before approvers approving)
    (h : (collectApprovers opts actionHashes quorum approvers grants).Runs log (.ok final)) :
    ∃ approving', ApproversOf opts actionHashes quorum (before ++ log) final approving' := by
  induction grants generalizing before approvers approving log with
  | nil =>
      obtain ⟨rfl, hfinal⟩ := runs_pure.mp h
      cases hfinal
      exact ⟨approving, happrovers.mono (List.subset_append_left _ _)⟩
  | cons g rest ih =>
      obtain ⟨first, later, read, rfl, hread, hrest⟩ := runs_bind_ok.mp h
      obtain ⟨rfl, -⟩ := runs_ofExcept.mp hread
      rw [List.nil_append]
      split_ifs at hrest with hbinds
      · obtain ⟨asked, later, valid, rfl, hvalid, hrest⟩ := runs_bind_ok.mp hrest
        rw [← List.append_assoc]
        have hbefore := happrovers.mono (List.subset_append_left before asked)
        split_ifs at hrest with haccepted
        · have hcounted : Counted opts actionHashes quorum (before ++ asked) g :=
            ⟨hbinds, List.mem_append_right _ (isValidSignature_runs hvalid haccepted)⟩
          obtain ⟨approving', hadded⟩ := hbefore.add hcounted
          exact ih hadded hrest
        · exact ih hbefore hrest
      · exact ih happrovers hrest

/-- The hashes accepted for an action are hashes of its shapes. -/
theorem hashShapes_runs {shapes : List (ToolRequest JsNumber)} {hashes : List Digest}
    (h : (hashShapes config.toGateConfig shapes).Runs log (.ok hashes)) :
    ∀ digest ∈ hashes, ∃ shape ∈ shapes, ∃ text,
      canonicalizeJson config.runtime.numbers (canonicalRequest config.runtime.numbers shape) =
        .ok text ∧ ⟨.hash (encodeUtf8 text), .ok digest⟩ ∈ log := by
  induction shapes generalizing log hashes with
  | nil =>
      obtain ⟨-, hhashes⟩ := runs_pure.mp h
      cases hhashes
      exact fun _ hmem => absurd hmem List.not_mem_nil
  | cons shape rest ih =>
      obtain ⟨first, later, digest, rfl, hshape, hrest⟩ := runs_bind_ok.mp h
      obtain ⟨others, last, digests, rfl, hothers, hreturned⟩ := runs_bind_ok.mp hrest
      obtain ⟨rfl, hreturned⟩ := runs_pure.mp hreturned
      cases hreturned
      obtain ⟨none, asked, text, rfl, htext, hasked⟩ := runs_bind_ok.mp hshape
      obtain ⟨rfl, hcanonical⟩ := runs_ofExcept.mp htext
      rw [runs_ask.mp hasked]
      intro digest' hmem
      cases List.mem_cons.mp hmem with
      | inl hhead =>
          rw [hhead]
          exact ⟨shape, List.mem_cons_self, text, hcanonical.symm, by simp⟩
      | inr hmem =>
          obtain ⟨shape', hshape', text', htext', hlog⟩ := ih hothers digest' hmem
          exact ⟨shape', List.mem_cons_of_mem _ hshape', text', htext', by simp [hlog]⟩

theorem includesValue_iff {values : List JsString} {value : Untyped} :
    includesValue values value = true ↔ ∃ text ∈ values, value = some (.string text) := by
  simp [includesValue]

/-- A satisfied quorum was met by grants over the action. -/
theorem verifyApprovalQuorum_runs {grants : List (JsonValue JsNumber)}
    {before : List (Exchange Gates)} (hhashes : ∀ digest ∈ actionHashes, ∃ shape ∈
      approvedAction toolName opts.approvalsKey handlerArgs ::
        alternateRequestShapes (approvedAction toolName opts.approvalsKey handlerArgs),
      ∃ text, canonicalizeJson config.runtime.numbers
        (canonicalRequest config.runtime.numbers shape) = .ok text ∧
        ⟨.hash (encodeUtf8 text), .ok digest⟩ ∈ before)
    (h : (verifyApprovalQuorum opts grants actionHashes quorum).Runs log (.ok true)) :
    QuorumMet config opts toolName handlerArgs quorum (before ++ log) := by
  rw [verifyApprovalQuorum] at h
  split_ifs at h with hunsatisfiable
  · cases (runs_pure.mp h).2
  obtain ⟨collected, last, approvers, rfl, hcollected, hreturned⟩ := runs_bind_ok.mp h
  obtain ⟨rfl, hreached⟩ := runs_pure.mp hreturned
  have hempty : ApproversOf opts actionHashes quorum ([] : List (Exchange Gates)) [] [] :=
    ⟨rfl, .nil, fun _ hmem => absurd hmem List.not_mem_nil⟩
  obtain ⟨approving, happroving⟩ := collectApprovers_runs hempty hcollected
  have hsize : approvers.length = approving.length := by
    rw [happroving.dids, List.length_map]
  rw [hsize] at hreached
  have hreached := (Except.ok.inj hreached).symm
  have hquorum : ∃ n : ℚ, quorum.n = .finite n ∧ 0 < n ∧ n ≤ approving.length := by
    rw [Quorum.isUnsatisfiable] at hunsatisfiable
    rw [Quorum.isReachedBy] at hreached
    cases hn : quorum.n with
    | finite n =>
        simp only [hn, decide_eq_true_eq, not_le] at hunsatisfiable hreached
        exact ⟨n, rfl, hunsatisfiable, hreached⟩
    | infinity negative => simp_all
    | nan => simp_all
  obtain ⟨n, hn, hpositive, henough⟩ := hquorum
  refine ⟨n, approving, hn, hpositive, henough, happroving.distinct, fun g hmem => ?_⟩
  obtain ⟨hbinds, hsignature⟩ := happroving.counted g hmem
  simp only [bindsAction, Bool.and_eq_true, Untyped.isString_iff, Bool.or_eq_true,
    List.isEmpty_iff, includesValue_iff] at hbinds
  obtain ⟨⟨hdecision, digest, hdigest, hhash⟩, happrover⟩ := hbinds
  obtain ⟨shape, hshape, text, htext, hlog⟩ := hhashes digest hdigest
  refine ⟨hdecision, happrover, ⟨shape, text, digest, hshape, htext, ?_, hhash⟩, ?_⟩
  · exact List.mem_append_left _ hlog
  · exact List.mem_append_right _ (List.mem_append_left _ hsignature)

end Quorum

section Asks

variable {α : Type} {sid : Option JsString} {context : Option CallContext}

theorem not_asks {p : GateM α} (h : Spares p) :
    ¬ p.Asks log (.callHandler handlerArgs sid context) :=
  fun hasks => h.asks hasks _ _ _ rfl

/-- The handler is called after a part that leaves it alone. -/
theorem asks_after {β : Type} {p : GateM α} {next : α → GateM β} (h : Spares p)
    (hasks : (p >>= next).Asks log (.callHandler handlerArgs sid context)) :
    ∃ first rest a, log = first ++ rest ∧ p.Runs first (.ok a) ∧
      (next a).Asks rest (.callHandler handlerArgs sid context) := by
  obtain hinside | hafter := asks_bind.mp hasks
  · exact absurd hinside (not_asks h)
  · exact hafter

theorem innermost_asks {args' : PlainObject JsNumber} {sid' : Option JsString}
    {context' : Option CallContext}
    (h : (innermost args' sid' context').Asks log (.callHandler handlerArgs sid context)) :
    handlerArgs = args' := by
  have hsame := (asks_ask.mp h).2
  cases hsame
  rfl

theorem Approves.mono {quorum : Quorum} {log' : List (Exchange Gates)} {g : JsonValue JsNumber}
    (h : Approves config opts toolName handlerArgs quorum log g) (hlog : log ⊆ log') :
    Approves config opts toolName handlerArgs quorum log' g where
  decision := h.decision
  approver := h.approver
  binds := by
    obtain ⟨shape, text, digest, hshape, htext, hhash, hrequest⟩ := h.binds
    exact ⟨shape, text, digest, hshape, htext, hlog hhash, hrequest⟩
  signature := hlog h.signature

theorem QuorumMet.mono {quorum : Quorum} {log' : List (Exchange Gates)}
    (h : QuorumMet config opts toolName handlerArgs quorum log) (hlog : log ⊆ log') :
    QuorumMet config opts toolName handlerArgs quorum log' := by
  obtain ⟨n, approving, hn, hpositive, henough, hdistinct, happroves⟩ := h
  exact ⟨n, approving, hn, hpositive, henough, hdistinct,
    fun g hmem => (happroves g hmem).mono hlog⟩

variable {callArgs args' : PlainObject JsNumber} {sid' : Option JsString}
  {context' : Option CallContext}

/-- A step-up runs the handler only with its quorum. -/
theorem stepUp_asks {quorum : Quorum} {reason : JsString}
    (h : (stepUp config.toGateConfig opts toolName innermost callArgs args' sid' context' quorum
      reason).Asks log (.callHandler handlerArgs sid context)) :
    handlerArgs = withoutControlArgs callArgs ∧
      QuorumMet config opts toolName handlerArgs quorum log := by
  obtain ⟨hashed, rest, requestHash, rfl, hhashed, hrest⟩ := asks_after hashShape_plain.spares h
  obtain ⟨shapes, rest, hashes, rfl, hshapes, hrest⟩ := asks_after (hashShapes_plain _).spares hrest
  obtain ⟨voted, rest, satisfied, rfl, hvoted, hrest⟩ :=
    asks_after verifyApprovalQuorum_plain.spares hrest
  split_ifs at hrest with hsatisfied
  · obtain ⟨recorded, rest, done, rfl, hrecorded, hrest⟩ :=
      asks_after recordAudit_plain.spares hrest
    have hargs := innermost_asks hrest
    subst hsatisfied
    rw [hargs]
    refine ⟨rfl, (verifyApprovalQuorum_runs (hashShapes_runs hshapes) hvoted).mono ?_⟩
    intro exchange hmem
    simp only [List.mem_append] at hmem ⊢
    tauto
  · refine absurd hrest (not_asks ?_)
    exact Only.bind (ask_spares (by simp [IsOther])) fun now => ask_spares (by simp [IsOther])

theorem applyDecision_asks (request : PolicyRequest) {decision : PolicyDecision}
    (hrequest : request.toolName = toolName)
    (h : (applyDecision config.toGateConfig opts toolName innermost callArgs args' sid' context'
      decision).Asks log (.callHandler handlerArgs sid context)) :
    handlerArgs = withoutControlArgs callArgs ∧
      Permitted config opts toolName handlerArgs
        (⟨.evaluatePolicy request, .ok decision⟩ :: log) := by
  obtain ⟨recorded, rest, done, rfl, -, hrest⟩ := asks_after recordAudit_plain.spares h
  cases decision with
  | allow =>
      obtain ⟨approved, rest, done, rfl, -, hrest⟩ := asks_after recordAudit_plain.spares hrest
      exact ⟨innermost_asks hrest, .allowed request hrequest List.mem_cons_self⟩
  | deny reason => exact absurd hrest (not_asks (ask_spares (by simp [IsOther])))
  | stepUp quorum reason =>
      obtain ⟨hargs, hquorum⟩ := stepUp_asks hrest
      refine ⟨hargs, .approved request quorum reason hrequest List.mem_cons_self ?_⟩
      exact hquorum.mono fun exchange hmem =>
        List.mem_cons_of_mem _ (List.mem_append_right _ hmem)

theorem Permitted.mono {log' : List (Exchange Gates)}
    (h : Permitted config opts toolName handlerArgs log) (hlog : log ⊆ log') :
    Permitted config opts toolName handlerArgs log' := by
  cases h with
  | allowed request hrequest hdecided => exact .allowed request hrequest (hlog hdecided)
  | approved request quorum reason hrequest hdecided hquorum =>
      exact .approved request quorum reason hrequest (hlog hdecided) (hquorum.mono hlog)

/-- The policy gate runs its handler, with the call less its control arguments, only when
the engine allowed the call or its quorum was met. -/
theorem withPolicyGate_asks
    (h : (withPolicyGate config.toGateConfig opts toolName innermost callArgs sid'
        context').Asks log
      (.callHandler handlerArgs sid context)) :
    handlerArgs = withoutControlArgs callArgs ∧
      Permitted config opts toolName handlerArgs log := by
  obtain ⟨entered, rest, done, rfl, -, hrest⟩ := asks_after (ask_spares (by simp [IsOther])) h
  obtain ⟨resolved, rest, name, rfl, -, hrest⟩ := asks_after resolveNamespace_plain.spares hrest
  obtain ⟨classified, rest, risk, rfl, -, hrest⟩ :=
    asks_after (ask_spares (by simp [IsOther])) hrest
  obtain ⟨evaluated, rest, decision, rfl, hevaluated, hrest⟩ :=
    asks_after (ask_spares (by simp [IsOther])) hrest
  obtain ⟨hargs, hpermitted⟩ := applyDecision_asks (buildPolicyRequest opts
    (principalOf context' (restoreApprovals opts.approvalsKey callArgs
      (context'.bind (·.approvals)))) toolName name risk) rfl hrest
  refine ⟨hargs, hpermitted.mono ?_⟩
  rw [runs_ask.mp hevaluated]
  intro exchange hmem
  simp only [List.mem_append, List.mem_cons, List.not_mem_nil, or_false] at hmem ⊢
  tauto

end Asks

section Unproving

variable {callArgs args : PlainObject JsNumber} {sessionId : Option JsString}
  {context : Option CallContext} {handler : ToolHandler}
  (hhandler : ∀ args sessionId context, (handler args sessionId context).Only IsUnproving)

include hhandler in
theorem stepUp_unproving {quorum : Quorum} {reason : JsString} :
    (stepUp config.toGateConfig opts toolName handler callArgs args sessionId context quorum
      reason).Only IsUnproving := by
  refine hashShape_plain.unproving.bind fun requestHash => ?_
  refine (hashShapes_plain _).unproving.bind fun hashes => ?_
  refine verifyApprovalQuorum_plain.unproving.bind fun satisfied => ?_
  split_ifs
  · exact recordAudit_plain.unproving.bind fun _ => hhandler _ _ _
  · exact Only.bind (ask_unproving trivial) fun now => ask_unproving trivial

include hhandler in
theorem applyDecision_unproving (decision : PolicyDecision) :
    (applyDecision config.toGateConfig opts toolName handler callArgs args sessionId context
      decision).Only IsUnproving := by
  refine recordAudit_plain.unproving.bind fun _ => ?_
  cases decision with
  | allow => exact recordAudit_plain.unproving.bind fun _ => hhandler _ _ _
  | deny reason => exact ask_unproving trivial
  | stepUp quorum reason => exact stepUp_unproving hhandler

include hhandler in
theorem withPolicyGate_unproving :
    (withPolicyGate config.toGateConfig opts toolName handler callArgs sessionId context).Only
      IsUnproving := by
  refine Only.bind (ask_unproving trivial) fun _ => ?_
  refine resolveNamespace_plain.unproving.bind fun name => ?_
  refine Only.bind (ask_unproving trivial) fun risk => ?_
  exact Only.bind (ask_unproving trivial) fun decision => applyDecision_unproving hhandler decision

end Unproving

end KyaOs.Middleware
