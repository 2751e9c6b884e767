import KyaOs.Middleware.ProofRedemption

/-!
# Every run redeems a proof once

`Kept` holds after every served request, so each id is taken once and what its taker may
spend is all that is spent. A proof is asked for by a call that sends a result, which
names the id under the middleware's own stamp, in which nothing leaks, and which answers
the tool the proof was left for.
-/

namespace KyaOs.Middleware

open Js Untyped JsonValue Proof Concurrency Concurrency.Async

variable {config : SessionConfig} {calls : Nat → SessionCall} {m : Meter}
  {history : History Sessions Nat} {final : Config Sessions Nat (Option ToolResult)}

theorem kept_empty : Kept m {} [] where
  consistent := ProofStore.consistent_empty
  taken := by simp
  issued := by simp
  answered := by simp
  balance := le_rfl

/-- Whatever is served keeps the store consistent with the history. -/
theorem Kept.serves {numbers : Doubles JsNumber} {number : Nat} {request : SessionRequest}
    {s s' : ProofStore} {answer : Except Error request.Answer} (h : Kept m s history)
    (hserves : serves numbers number request s answer s') :
    Kept m s' (history ++ [(number, ⟨request, answer⟩)]) := by
  cases request with
  | requireProofLayer =>
      obtain ⟨rfl, -⟩ := hserves
      exact h.same number rfl (by simp) (by simp)
  | leaveToOuterLayer pending =>
      obtain ⟨id, hfresh, rfl, rfl⟩ | ⟨e, rfl, rfl⟩ := hserves
      · exact h.leaves hfresh
      · exact h.same number rfl (by simp) (by simp)
  | takePendingProof id =>
      obtain ⟨pending, htaken, rfl⟩ := hserves
      obtain ⟨hnone, -⟩ | ⟨pending', taken, hsome, htakes⟩ :=
        ProofStore.takePendingProof_cases numbers (.call number) id s
      · rw [hnone] at htaken
        cases htaken
        exact h.same number rfl (by simp) (by simp)
      · rw [hsome] at htaken
        cases htaken
        exact h.takes htakes
  | closedProof id =>
      obtain ⟨rfl, rfl⟩ := hserves
      exact h.same number rfl (by simp) (by simp)
  | closeFoundProofs ids leaked exempt =>
      obtain ⟨rfl, rfl⟩ := hserves
      exact h.closesTo number (ProofStore.closesTo_closeFoundProofs ids leaked exempt s) rfl
        (by simp) (by simp)
  | nextClosing =>
      obtain ⟨-, rfl, rfl⟩ | ⟨before, pending, after, hclosing, rfl, rfl⟩ := hserves
      · exact h.same number rfl (by simp) (by simp)
      · obtain ⟨hpendingBytes, hclosedBytes, haccounted, honce, hclosedTaken, hasIssued⟩ :=
          h.consistent
        refine h.other number
          ⟨hpendingBytes, hclosedBytes, haccounted, honce, hclosedTaken, hasIssued⟩ rfl
          ⟨[], (List.append_nil _).symm, by simp⟩ ?_ (by simp) (by simp)
        have hgain : m.gain ⟨.nextClosing, .ok (some pending)⟩ = m.ofPending pending := rfl
        rw [hgain, ProofStore.weight, ProofStore.weight, hclosing]
        simp only [List.map_append, List.map_cons, List.sum_append, List.sum_cons]
        omega
  | openTransport =>
      obtain ⟨rfl, rfl⟩ := hserves
      obtain ⟨hpendingBytes, hclosedBytes, haccounted, honce, hclosedTaken, hasIssued⟩ :=
        h.consistent
      exact h.other number
        ⟨hpendingBytes, hclosedBytes, haccounted, honce, hclosedTaken, hasIssued⟩ rfl
        ⟨[], (List.append_nil _).symm, by simp⟩ (Nat.zero_add _).le (by simp) (by simp)
  | releaseTransport =>
      obtain ⟨rfl, rfl⟩ := hserves
      have hcloses := @ProofStore.closesTo_release numbers s
      obtain ⟨hpendingBytes, hclosedBytes, haccounted, honce, hclosedTaken, hasIssued⟩ :=
        h.consistent
      have hconsistent : ProofStore.Consistent { s with openTransports := s.openTransports - 1 } :=
        ⟨hpendingBytes, hclosedBytes, haccounted, honce, hclosedTaken, hasIssued⟩
      refine h.other number (hcloses.consistent hconsistent) hcloses.issued hcloses.taken ?_
        (by simp) (by simp)
      rw [hcloses.weight hconsistent]
      exact (Nat.zero_add _).le
  | recordAudit event | callHandler args sessionId context | ensureSession | getSession sessionId
  | hashRequest request | generateProof id request response session options
  | logAuditRecord session requestHash responseHash scopeId | innerSend message =>
      obtain rfl := hserves
      exact h.same number rfl (by simp) (by simp)

theorem kept_of_records (m : Meter)
    (h : (middleware config calls).Records (Program.initial {}) history final) :
    Kept m final.state history :=
  h.invariant (fun number => code_affords (m := m) (calls number) number) kept_empty
    (fun _ _ _ _ _ _ hkept hserves => hkept.serves hserves) fun _ _ _ _ hact => hact.elim

/-- What is spent in a run is what the ids taken, and one call, entitle to. -/
theorem spent_le (m : Meter) {first : Nat} (hothers : ∀ c, c ≠ first → m.terminal c = 0)
    (h : (middleware config calls).Records (Program.initial {}) history final) :
    history.total m.spent ≤
      m.terminal first + (final.state.taken.map fun entry => m.proof entry.1).sum := by
  have htotal := h.total_le (fun number => code_affords (m := m) (calls number) number) hothers
  have hbalance := (kept_of_records m h).balance
  have hcost : history.total m.cost = history.total m.spent + history.total m.left := by
    simp only [History.total, Meter.cost, List.sum_map_add]
  omega

section Asking

variable {log : List (Exchange Sessions)} {id : JsString} {request : ToolRequest JsNumber}
  {response : Option (ToolResponse JsNumber)} {session : SessionContext} {options : ProofOptions}

/-- Code that can pay for no proof of an id asks for none. -/
theorem proof_of_asks {α : Type} {p : SessionM α} {m : Meter}
    (h : p.Affords m.cost (fun _ => 0) (Leaves 0 0) 0)
    (hasks : p.Asks log (.generateProof id request response session options)) :
    m.proof id = 0 := by
  have hcost := h.asks hasks (.error .nonError)
  have hproof : m.cost ⟨.generateProof id request response session options, .error .nonError⟩ =
    m.proof id := rfl
  have hfree : total (fun _ : Exchange Sessions => 0) log = 0 := by simp [total]
  omega

/-- Each proof counts one. -/
def Meter.proofs : Meter := ⟨fun _ => 0, fun _ => 1⟩

/-- Each proof of another id counts one. -/
def Meter.proofsBut (id : JsString) : Meter :=
  ⟨fun _ => 0, fun other => if other = id then 0 else 1⟩

theorem ofPending_proofs (pending : PendingProof) : Meter.proofs.ofPending pending = 0 := by
  cases pending <;> rfl

theorem not_asks_proof {α : Type} {p : SessionM α}
    (h : p.Affords Meter.proofs.cost (fun _ => 0) (Leaves 0 0) 0) :
    ¬ p.Asks log (.generateProof id request response session options) :=
  fun hasks => Nat.one_ne_zero (proof_of_asks h hasks)

theorem proofs_free {request : SessionRequest}
    (h : ∀ answer, Meter.proofs.cost ⟨request, answer⟩ = 0) :
    (Async.ask (I := Sessions) request).Affords Meter.proofs.cost (fun _ => 0) (Leaves 0 0) 0 :=
  affords_free h

theorem not_leaked_asks {named : Untyped} {sent : Returned} :
    ¬ (sendLeaked config named sent).Asks log
      (.generateProof id request response session options) := by
  intro h
  unfold sendLeaked at h
  split at h
  · exact not_asks_done h
  · rename_i named
    obtain htake | ⟨first, rest, taken, -, -, h⟩ := asks_bind.mp h
    · unfold takeNamed at htake
      split at htake
      · cases (asks_ask.mp htake).2
      · exact not_asks_done htake
    · cases taken with
      | none => exact not_asks_done h
      | some pending =>
          exact not_asks_proof (unprovenAtSend_affords (ofPending_proofs pending).le) h

/-- A proof is asked for under the id taken, where the tool is its own. -/
theorem asks_redeem {named : JsString} {sent : Returned} {pending : PendingProof}
    {answering : Option JsString}
    (h : (redeem config named sent pending answering).Asks log
      (.generateProof id request response session options)) :
    id = named ∧ ∀ toolName ∈ answering, toolName = pending.toolName := by
  constructor
  · have hpending : (Meter.proofsBut named).ofPending pending = 0 := by cases pending <;> rfl
    have hafford := @redeem_affords config (.proofsBut named) (fun _ => 0) named sent pending
      answering
    rw [hpending, Nat.add_zero, show (Meter.proofsBut named).proof named = 0 from if_pos rfl]
      at hafford
    by_contra hother
    have hone : (Meter.proofsBut named).proof id = 1 := if_neg hother
    exact absurd (proof_of_asks hafford h) (hone ▸ Nat.one_ne_zero)
  · unfold redeem at h
    split_ifs at h with hmismatch
    · obtain hclose | ⟨first, rest, closed, -, -, h⟩ := asks_bind.mp h
      · exact absurd hclose (not_asks_proof (closeTaken_affords (ofPending_proofs pending).le))
      · exact absurd h not_asks_done
    · intro toolName htool
      by_contra hother
      exact hmismatch (by simpa [Option.mem_def.mp htool] using hother)

/-- What a call that sends this result has done when it asks for a proof. -/
structure Redeems (config : SessionConfig) (result : ToolResult) (answering : Option JsString)
    (log : List (Exchange Sessions)) (id : JsString) (pending : PendingProof) : Prop where
  /-- The result's own metadata has the middleware's stamp, and the id. -/
  named : ownPending config result = some (.string id)
  unleaked : ∃ found, scrubPrivateMeta config.numbers result (some config.lifecycleStamp)
    (ownPending config result).isSome = .ok found ∧ found.leaked = []
  took : ⟨.takePendingProof id, .ok (some pending)⟩ ∈ log
  tool : ∀ toolName ∈ answering, toolName = pending.toolName

theorem asks_sendScrubbed {named : Untyped} {found : Scrubbed} {answering : Option JsString}
    (h : (sendScrubbed config named found answering).Asks log
      (.generateProof id request response session options)) :
    found.leaked = [] ∧ named = some (.string id) ∧ ∃ pending,
      ⟨.takePendingProof id, .ok (some pending)⟩ ∈ log ∧
        ∀ toolName ∈ answering, toolName = pending.toolName := by
  unfold sendScrubbed at h
  split_ifs at h with hleaked
  · exact absurd h not_leaked_asks
  · refine ⟨not_ne_iff.mp hleaked, ?_⟩
    split at h
    · exact absurd h not_asks_done
    · unfold sendNaming at h
      split at h
      · rename_i named
        obtain htake | ⟨first, rest, taken, rfl, hruns, hnext⟩ := asks_bind.mp h
        · cases (asks_ask.mp htake).2
        · obtain rfl := runs_ask.mp hruns
          cases taken with
          | none => exact absurd hnext (not_asks_proof sendExpired_affords)
          | some pending =>
              obtain ⟨rfl, htool⟩ := asks_redeem hnext
              exact ⟨rfl, pending, List.mem_append_left _ (List.mem_singleton_self _), htool⟩
      · exact absurd h (not_asks_proof sendExpired_affords)

theorem asks_sendResult {result : ToolResult} {answering : Option JsString}
    (h : (sendResult config result answering).Asks log
      (.generateProof id request response session options)) :
    ∃ pending, Redeems config result answering log id pending := by
  obtain hscrub | ⟨_, rest, found, rfl, hscrub, hfound⟩ := asks_bind.mp h
  · exact absurd hscrub not_asks_done
  obtain ⟨rfl, hscrubbed⟩ := runs_ofExcept.mp hscrub
  obtain hclose | ⟨closed, rest, _, rfl, -, hclosed⟩ := asks_bind.mp hfound
  · cases (asks_ask.mp hclose).2
  obtain hsend | ⟨_, _, _, _, _, hsent⟩ := asks_bind.mp hclosed
  · obtain ⟨hleaked, hnamed, pending, htook, htool⟩ := asks_sendScrubbed hsend
    exact ⟨pending, hnamed, ⟨found, hscrubbed.symm, hleaked⟩,
      List.mem_append_right _ (List.mem_append_right _ htook), htool⟩
  · exact absurd hsent not_asks_done

/-- A call sends this result, as its conversation so far decides: what a message holds may
have been proved before, in the place of a wrapper. -/
inductive Sends (config : SessionConfig) (number : Nat) (log : List (Exchange Sessions)) :
    SessionCall → ToolResult → Option JsString → Prop
  | result (result : ToolResult) (answering : Option JsString) :
      Sends config number log (.send result answering) result answering
  | message {tracked : Option PendingCall} {message stamped : Members JsNumber}
      {result : ToolResult} {first : List (Exchange Sessions)} (hfirst : first <+: log)
      (hstamped : (proveTracked config number (answeredCall tracked message) message).Runs first
        (.ok stamped))
      (hresult : stamped.lookup (js "result") = some result) :
      Sends config number log (.message tracked message) result
        ((answeredCall tracked message).map PendingCall.toolName)

theorem Sends.mono {number : Nat} {sessionCall : SessionCall} {result : ToolResult}
    {answering : Option JsString} {log' : List (Exchange Sessions)}
    (h : Sends config number log sessionCall result answering) (hlog : log <+: log') :
    Sends config number log' sessionCall result answering := by
  cases h with
  | result => exact .result _ _
  | message hfirst hstamped hresult => exact .message (hfirst.trans hlog) hstamped hresult

/-- A call sends one result. -/
theorem Sends.unique {number : Nat} {sessionCall : SessionCall} {result result' : ToolResult}
    {answering answering' : Option JsString}
    (h : Sends config number log sessionCall result answering)
    (h' : Sends config number log sessionCall result' answering') :
    result' = result ∧ answering' = answering := by
  cases h with
  | result =>
      cases h'
      exact ⟨rfl, rfl⟩
  | message hfirst hstamped hresult =>
      cases h' with
      | message hfirst' hstamped' hresult' =>
          obtain ⟨rest, hrest⟩ := hfirst
          obtain ⟨rest', hrest'⟩ := hfirst'
          cases (@proveTracked_affords _ .proofs (fun _ => 0) _ _ _).runs_unique hstamped
            hstamped' (hrest.trans hrest'.symm)
          exact ⟨Option.some.inj (hresult'.symm.trans hresult), rfl⟩

theorem not_unsent_asks {timed : JsString} :
    ¬ (closeUnsentProof config timed).Asks log
      (.generateProof id request response session options) := by
  intro h
  obtain htake | ⟨_, _, taken, _, _, hnext⟩ := asks_bind.mp h
  · cases (asks_ask.mp htake).2
  · cases taken with
    | none => exact not_asks_done hnext
    | some pending => exact not_asks_proof (closeTaken_affords (ofPending_proofs pending).le) hnext

theorem not_background_asks :
    ¬ (closeInBackground config).Asks log
      (.generateProof id request response session options) := by
  intro h
  obtain htake | ⟨_, _, taken, _, _, hnext⟩ := asks_bind.mp h
  · cases (asks_ask.mp htake).2
  · cases taken with
    | none => exact not_asks_done hnext
    | some pending => exact not_asks_proof (closeTaken_affords (ofPending_proofs pending).le) hnext

theorem Redeems.mono {result : ToolResult} {answering : Option JsString}
    {log' : List (Exchange Sessions)} {pending : PendingProof}
    (h : Redeems config result answering log id pending) (hlog : log ⊆ log') :
    Redeems config result answering log' id pending :=
  ⟨h.named, h.unleaked, hlog h.took, h.tool⟩

theorem asks_sendMessage {number : Nat} {tracked : Option PendingCall}
    {message : Members JsNumber}
    (h : (sendMessage config number tracked message).Asks log
      (.generateProof id request response session options)) :
    ∃ result answering pending, Sends config number log (.message tracked message) result
      answering ∧ Redeems config result answering log id pending := by
  obtain hprove | ⟨first, rest, stamped, rfl, hstamped, hnext⟩ := asks_bind.mp h
  · exact absurd hprove (not_asks_proof proveTracked_affords)
  obtain hsend | ⟨_, _, _, _, _, hparams⟩ := asks_bind.mp hnext
  · unfold sendOwnResult at hsend
    split at hsend
    · rename_i result hresult
      split_ifs at hsend
      · obtain hsend | ⟨_, _, _, _, _, hreturn⟩ := asks_bind.mp hsend
        · obtain ⟨pending, hredeems⟩ := asks_sendResult hsend
          exact ⟨result, _, pending, .message ⟨rest, rfl⟩ hstamped hresult,
            hredeems.mono (List.subset_append_right _ _)⟩
        · exact absurd hreturn not_asks_done
      · exact absurd hsend not_asks_done
    · exact absurd hsend not_asks_done
  · refine absurd hparams (not_asks_proof (Affords.bind (m := 0) scrubParams_affords fun _ =>
      Affords.bind (m := 0) scrubErrorData_affords fun _ => ?_))
    exact proofs_free fun _ => rfl

/-- Only a call that sends a result asks for a proof. -/
theorem asks_code {sessionCall : SessionCall} {number : Nat}
    (h : (sessionCall.code config number).Asks log
      (.generateProof id request response session options)) :
    ∃ result answering pending, Sends config number log sessionCall result answering ∧
      Redeems config result answering log id pending := by
  cases sessionCall with
  | wrapped toolName args sessionId context =>
      refine absurd h (not_asks_proof (affords_andReturn (wrapWithProof_affords (m := .proofs) ?_)))
      exact proofs_free fun _ => rfl
  | outcome toolName args sessionId response reason outcome =>
      exact absurd h (not_asks_proof (affords_andReturn attachOutcomeProof_affords))
  | send result answering =>
      obtain hsend | ⟨_, _, _, _, _, hreturn⟩ := asks_bind.mp h
      · obtain ⟨pending, hredeems⟩ := asks_sendResult hsend
        exact ⟨result, answering, pending, .result _ _, hredeems⟩
      · exact absurd hreturn not_asks_done
  | scrub value =>
      exact absurd h (not_asks_proof (affords_andReturn scrubOutgoing_affords))
  | timer timed =>
      obtain hclose | ⟨_, _, _, _, _, hreturn⟩ := asks_bind.mp h
      · exact absurd hclose not_unsent_asks
      · exact absurd hreturn not_asks_done
  | background =>
      obtain hclose | ⟨_, _, _, _, _, hreturn⟩ := asks_bind.mp h
      · exact absurd hclose not_background_asks
      · exact absurd hreturn not_asks_done
  | transport =>
      refine absurd h (not_asks_proof (affords_andEnd (Affords.bind (m := 0) ?_ fun _ => ?_)))
      · exact proofs_free fun _ => rfl
      · exact proofs_free fun _ => rfl
  | message tracked outgoing =>
      obtain hmessage | ⟨_, _, _, _, _, hreturn⟩ := asks_bind.mp h
      · obtain ⟨result, answering, pending, hsends, hredeems⟩ := asks_sendMessage hmessage
        exact ⟨result, answering, pending, hsends, hredeems⟩
      · exact absurd hreturn not_asks_done

end Asking

/-- The generator was asked for a proof of this id. -/
def proves (id : JsString) : Exchange Sessions → Bool
  | ⟨.generateProof proved _ _ _ _, _⟩ => proved = id
  | _ => false

/-- The call's terminal tool event, completed or failed. -/
def concludes (call : Nat) : Exchange Sessions → Bool
  | ⟨.recordAudit (.tool concluded phase _ _ _ _), _⟩ =>
    concluded = call && (phase = .completed || phase = .failed)
  | _ => false

theorem spent_proof (id : JsString) :
    Meter.spent ⟨fun _ => 0, fun other => if other = id then 1 else 0⟩ =
      fun exchange => if proves id exchange then 1 else 0 := by
  funext exchange
  obtain ⟨request, answer⟩ := exchange
  cases request with
  | recordAudit event => cases event <;> simp [Meter.spent, Meter.ofEvent, proves]
  | _ => simp [Meter.spent, proves]

theorem spent_terminal (call : Nat) :
    Meter.spent ⟨fun other => if other = call then 1 else 0, fun _ => 0⟩ =
      fun exchange => if concludes call exchange then 1 else 0 := by
  funext exchange
  obtain ⟨request, answer⟩ := exchange
  cases request with
  | recordAudit event =>
      cases event with
      | tool concluded phase toolName outcome reasonCode context =>
          cases phase <;> simp [Meter.spent, Meter.ofEvent, concludes]
      | _ => simp [Meter.spent, Meter.ofEvent, concludes]
  | _ => simp [Meter.spent, concludes]

theorem sum_once {ids : List JsString} (h : ids.Nodup) (id : JsString) :
    (ids.map fun other => if other = id then 1 else 0).sum ≤ 1 := by
  have hcount : (ids.map fun other => if other = id then 1 else 0).sum = ids.count id := by
    clear h
    induction ids with
    | nil => rfl
    | cons other rest ih => simp [List.count_cons, ih, Nat.add_comm]
  exact hcount.trans_le (List.nodup_iff_count_le_one.mp h id)

theorem exists_of_proves {id : JsString} {c : Nat} {exchange : Exchange Sessions}
    (h : proves id exchange) (hmem : (c, exchange) ∈ history) :
    ∃ request response session options answer,
      (c, ⟨.generateProof id request response session options, answer⟩) ∈ history := by
  obtain ⟨request, answer⟩ := exchange
  cases request with
  | generateProof proved request response session options =>
      obtain rfl : proved = id := by simpa [proves] using h
      exact ⟨request, response, session, options, answer, hmem⟩
  | _ => simp [proves] at h

/-- A call that asked for a proof sends a result that names its id. -/
theorem redeems_of_asked {c : Nat} {id : JsString} {request : ToolRequest JsNumber}
    {response : Option (ToolResponse JsNumber)} {session : SessionContext}
    {options : ProofOptions} {answer : Except Error DetachedProof}
    (h : (middleware config calls).Records (Program.initial {}) history final)
    (hmem : (c, ⟨.generateProof id request response session options, answer⟩) ∈ history) :
    ∃ result answering pending, Sends config c (history.of c) (calls c) result answering ∧
      Redeems config result answering (history.of c) id pending := by
  obtain ⟨before, after, hhistory⟩ := List.append_of_mem hmem
  obtain ⟨result, answering, pending, hsends, hredeems⟩ := asks_code (h.asks hhistory)
  have hprefix : History.of before c <+: history.of c := by
    rw [hhistory, History.of_append]
    exact List.prefix_append _ _
  exact ⟨result, answering, pending, hsends.mono hprefix, hredeems.mono hprefix.subset⟩

/-- What took an id and makes no proof for it. -/
inductive TakenUnproved (config : SessionConfig) (calls : Nat → SessionCall)
    (history : History Sessions Nat) (id : JsString) : Taker → Prop
  | evicted : TakenUnproved config calls history id .evicted
  | found : TakenUnproved config calls history id .found
  | lastClosed : TakenUnproved config calls history id .lastClosed
  | timer {c : Nat} {timed : JsString} (h : calls c = .timer timed) :
      TakenUnproved config calls history id (.call c)
  /-- Sending a result in which the stamp was found. -/
  | leaked {c : Nat} {result : ToolResult} {answering : Option JsString} {found : Scrubbed}
      (hsends : Sends config c (history.of c) (calls c) result answering)
      (hfound : scrubPrivateMeta config.numbers result (some config.lifecycleStamp)
        (ownPending config result).isSome = .ok found)
      (hleaked : found.leaked ≠ []) : TakenUnproved config calls history id (.call c)
  /-- Sending the result of another tool. -/
  | mismatched {c : Nat} {result : ToolResult} {toolName : JsString} {pending : PendingProof}
      (hsends : Sends config c (history.of c) (calls c) result (some toolName))
      (htook : (c, ⟨.takePendingProof id, .ok (some pending)⟩) ∈ history)
      (hother : toolName ≠ pending.toolName) : TakenUnproved config calls history id (.call c)

/-- What holds of a run's history and of the store it ends in. -/
structure RedeemedOnce (config : SessionConfig) (calls : Nat → SessionCall)
    (history : History Sessions Nat) (store : ProofStore) : Prop where
  /-- An id leads to one proof at most. -/
  once : ∀ id, (history.countP fun entry => proves id entry.2) ≤ 1
  /-- A proof is made for a result that is sent, names its id under the middleware's stamp and
  answers the tool it was left for. -/
  own : ∀ c id request response session options answer,
    (c, ⟨.generateProof id request response session options, answer⟩) ∈ history →
      ∃ result answering pending leaver,
        (leaver, ⟨.leaveToOuterLayer pending, .ok id⟩) ∈ history ∧
        Sends config c (history.of c) (calls c) result answering ∧
        Redeems config result answering (history.of c) id pending
  /-- An id taken otherwise first is never proved. -/
  never : ∀ id taker, (id, taker) ∈ store.taken → TakenUnproved config calls history id taker →
    (history.countP fun entry => proves id entry.2) = 0
  terminal : ∀ call, (history.countP fun entry => concludes call entry.2) ≤ 1
  pendingBytes : store.pendingProofBytes =
    (store.pendingProofs.map fun entry => (entry.2.size : Int)).sum
  closedBytes : store.closedProofBytes =
    (store.closedProofs.map fun entry => (entry.2.size : Int)).sum

/-- In every run each pending proof is redeemed at most once, and only by its own result. -/
theorem middleware_redeemsOnce
    (h : (middleware config calls).Records (Program.initial {}) history final) :
    RedeemedOnce config calls history final.state where
  once id := by
    have hspent := @spent_le _ _ _ _ ⟨fun _ => 0, fun other => if other = id then 1 else 0⟩ 0
      (fun _ _ => rfl) h
    rw [spent_proof, History.total_ite] at hspent
    have honce := sum_once (kept_of_records ⟨fun _ => 0, fun _ => 0⟩ h).consistent.takenOnce id
    rw [List.map_map] at honce
    exact (hspent.trans (Nat.zero_add _).le).trans honce
  own c id request response session options answer hmem := by
    have hkept := kept_of_records ⟨fun _ => 0, fun _ => 0⟩ h
    obtain ⟨result, answering, pending, hsends, hredeems⟩ := redeems_of_asked h hmem
    have hissued := hkept.answered c id pending (History.mem_of.mp hredeems.took)
    obtain ⟨leaver, hleft⟩ := (hkept.issued id pending).mp hissued
    exact ⟨result, answering, pending, leaver, hleft, hsends, hredeems⟩
  never id taker htaken hunproved := by
    have hkept := kept_of_records ⟨fun _ => 0, fun _ => 0⟩ h
    rw [List.countP_eq_zero]
    rintro ⟨c, exchange⟩ hmem hproves
    obtain ⟨request, response, session, options, answer, hasked⟩ := exists_of_proves hproves hmem
    obtain ⟨result, answering, pending, hsends, hredeems⟩ := redeems_of_asked h hasked
    have htook := History.mem_of.mp hredeems.took
    have hcall : (id, Taker.call c) ∈ final.state.taken :=
      (hkept.taken id c).mpr ⟨pending, htook⟩
    obtain ⟨-, rfl⟩ := Prod.mk.inj
      (List.inj_on_of_nodup_map hkept.consistent.takenOnce htaken hcall rfl)
    cases hunproved with
    | timer htimer =>
        rw [htimer] at hsends
        cases hsends
    | leaked hsent hfound hleaked =>
        obtain ⟨rfl, rfl⟩ := hsent.unique hsends
        obtain ⟨found, hfound', hnone⟩ := hredeems.unleaked
        rw [hfound] at hfound'
        cases hfound'
        exact hleaked hnone
    | mismatched hsent htook' hother =>
        obtain ⟨rfl, rfl⟩ := hsent.unique hsends
        obtain ⟨-, rfl⟩ := Prod.mk.inj (List.inj_on_of_nodup_map hkept.consistent.once
          (hkept.answered c id _ htook') (hkept.answered c id pending htook) rfl)
        exact hother (hredeems.tool _ rfl)
  terminal call := by
    have hspent := @spent_le _ _ _ _ ⟨fun other => if other = call then 1 else 0, fun _ => 0⟩
      call (fun c hc => if_neg hc) h
    rw [spent_terminal, History.total_ite] at hspent
    simpa using hspent
  pendingBytes := (kept_of_records ⟨fun _ => 0, fun _ => 0⟩ h).consistent.pendingBytes
  closedBytes := (kept_of_records ⟨fun _ => 0, fun _ => 0⟩ h).consistent.closedBytes

def redemptionConfig : SessionConfig where
  numbers := sampleRuntime.numbers
  lifecycleStamp := js "stamp"
  audit := true
  emitLegacyProofKey := false
  responseProofProfile := responseProofProfileBody

def sampleSession : SessionContext := { sessionId := js "s", audience := js "a" }

/-- A proof; its claims are not read. -/
def sampleProof : DetachedProof where
  jws := js "j"
  proofMeta := {
    did := js "d", kid := js "k", ts := 1, nonce := js "n", audience := js "a"
    sessionId := js "s", requestHash := [], responseHash := none, prf := none, scopeId := none
    delegationRef := none, clientDid := none, outcome := none, reason := none }

/-- A server of one call; its random source makes one id. -/
def redemptionServer (number : Nat) : Server Sessions
  | .requireProofLayer, s => (if s.openTransports = 0 then .error .nonError else .ok (), s)
  | .recordAudit _, s => (.ok (), s)
  | .callHandler .., s => (.ok ⟨.object [(js "content", .array [])], false⟩, s)
  | .ensureSession, s => (.ok (.found (js "s")), s)
  | .getSession _, s => (.ok (some sampleSession), s)
  | .hashRequest _, s => (.ok [], s)
  | .leaveToOuterLayer pending, s =>
    if js "p" ∈ s.issued.map Prod.fst then (.error .nonError, s)
    else (.ok (js "p"), s.leaveToOuterLayer redemptionConfig.numbers pending (js "p"))
  | .takePendingProof id, s =>
    let taken := ProofStore.takePendingProof redemptionConfig.numbers (.call number) id s
    (.ok taken.1, taken.2)
  | .closedProof id, s => (.ok (s.closedProofs.lookup id), s)
  | .closeFoundProofs ids leaked exempt, s =>
    (.ok (), ProofStore.closeFoundProofs redemptionConfig.numbers ids leaked exempt s)
  | .generateProof .., s => (.ok sampleProof, s)
  | .logAuditRecord .., s => (.ok (), s)
  | .nextClosing, s => (.ok s.closing.head?, { s with closing := s.closing.tail })
  | .openTransport, s => (.ok (), { s with openTransports := s.openTransports + 1 })
  | .releaseTransport, s => (.ok (), ProofStore.release redemptionConfig.numbers s)
  | .innerSend _, s => (.ok (), s)

theorem sampleServer_serves (number : Nat) (request : SessionRequest) (s : ProofStore) :
    serves redemptionConfig.numbers number request s (redemptionServer number request s).1
      (redemptionServer number request s).2 := by
  cases request with
  | requireProofLayer =>
      refine ⟨rfl, ?_⟩
      by_cases hopen : s.openTransports = 0 <;> simp [redemptionServer, hopen]
  | leaveToOuterLayer pending =>
      unfold redemptionServer
      dsimp only
      split_ifs with hissued
      · exact .inr ⟨_, rfl, rfl⟩
      · exact .inl ⟨_, hissued, rfl, rfl⟩
  | takePendingProof id => exact ⟨_, rfl, rfl⟩
  | nextClosing =>
      unfold redemptionServer
      obtain ⟨openTransports, pendingProofs, pendingProofBytes, closedProofs, closedProofBytes,
        closing, issued, taken⟩ := s
      cases closing with
      | nil => exact .inl ⟨rfl, rfl, rfl⟩
      | cons pending rest => exact .inr ⟨[], pending, rest, rfl, rfl, rfl⟩
  | closedProof id => exact ⟨rfl, rfl⟩
  | closeFoundProofs ids leaked exempt => exact ⟨rfl, rfl⟩
  | openTransport => exact ⟨rfl, rfl⟩
  | releaseTransport => exact ⟨rfl, rfl⟩
  | _ => rfl

/-- What the wrapped tool returns. -/
def sampleResult : ToolResult :=
  .object [(js "content", .array []),
    (js "_meta", .object [(pendingProofMetaKey, .string (js "p")),
      (lifecycleStampMetaKey, .string (js "stamp"))])]

def sampleCalls : Nat → SessionCall
  | 0 => .transport
  | 1 => .wrapped (js "t") { members := [] } none none
  | _ => .send sampleResult (some (js "t"))

/-- The transport has opened; no other call was made. -/
theorem opened_records : ∃ history, ∃ opened : Config Sessions Nat (Option ToolResult),
    (middleware redemptionConfig sampleCalls).Records (Program.initial {}) history opened ∧
      (history.all fun entry => entry.1 = 0 && !proves (js "p") entry.2 && !concludes 1 entry.2) ∧
      opened.state = { openTransports := 1 } ∧ ∀ c, c ≠ 0 → opened.calls c = none := by
  let start : Config Sessions Nat (Option ToolResult) := Program.initial {}
  let k := fun answer : Except Error Unit => Async.andThen
    (onReturn (fun _ => Async.ask (I := Sessions) .releaseTransport) answer)
    (onReturn fun _ => (pure none : SessionM (Option ToolResult)))
  obtain ⟨made, hmade⟩ := start.exists_moves 0 {} ⟨{}, .ready (.await .openTransport k)⟩
  obtain ⟨asked, hasked⟩ := made.exists_moves 0 made.state ⟨{}, .waiting .openTransport k⟩
  obtain ⟨opened, hopened⟩ := asked.exists_moves 0 { openTransports := 1 } ⟨{}, .ready (k (.ok ()))⟩
  have hrecords : (middleware redemptionConfig sampleCalls).Records start [] asked :=
    (Program.Records.refl.call rfl hmade).run hmade.moved hasked
  have hserves : (middleware redemptionConfig sampleCalls).serves 0 .openTransport asked.state
      (.ok ()) { openTransports := 1 } := by
    rw [hasked.state, hmade.state]
    exact ⟨rfl, rfl⟩
  refine ⟨_, opened, hrecords.serve hasked.moved hserves hopened, rfl, hopened.state, ?_⟩
  intro c hc
  rw [hopened.others c hc, hasked.others c hc, hmade.others c hc]
  rfl

/-- A result sent twice gets one proof, for the first. -/
theorem middleware_redeemsOnce_sample :
    ∃ history, ∃ final : Config Sessions Nat (Option ToolResult),
    RedeemedOnce redemptionConfig sampleCalls history final.state ∧
      (history.countP fun entry => proves (js "p") entry.2) = 1 ∧
      (history.countP fun entry => concludes 1 entry.2) = 1 := by
  let code (c : Nat) := (sampleCalls c).code redemptionConfig c
  let left := (code 1).play (redemptionServer 1) { openTransports := 1 }
  let sent := (code 2).play (redemptionServer 2) left.2
  let again := (code 3).play (redemptionServer 3) sent.2
  have hcounts : (left.1 ++ sent.1 ++ again.1).countP (proves (js "p")) = 1 ∧
      (left.1 ++ sent.1 ++ again.1).countP (concludes 1) = 1 := by decide +kernel
  obtain ⟨history, opened, hrecords, hquiet, hstate, hnone⟩ := opened_records
  obtain ⟨called, hcalled, hcalledState, hcalledOthers⟩ :=
    hrecords.play (sampleServer_serves 1) (hnone 1 (by decide))
  obtain ⟨first, hfirst, hfirstState, hfirstOthers⟩ := hcalled.play (c := 2) (sampleServer_serves 2)
    ((hcalledOthers 2 (by decide)).trans (hnone 2 (by decide)))
  obtain ⟨second, hsecond, -, -⟩ := hfirst.play (c := 3) (sampleServer_serves 3)
    ((hfirstOthers 3 (by decide)).trans
      ((hcalledOthers 3 (by decide)).trans (hnone 3 (by decide))))
  rw [hfirstState, hcalledState, hstate] at hsecond
  refine ⟨_, second, middleware_redeemsOnce hsecond, ?_⟩
  have hzero : (history.countP fun entry => proves (js "p") entry.2) = 0 ∧
      (history.countP fun entry => concludes 1 entry.2) = 0 := by
    simp only [List.countP_eq_zero]
    rw [List.all_eq_true] at hquiet
    constructor
    · intro entry hmem hproves
      simpa [hproves] using hquiet entry hmem
    · intro entry hmem hconcludes
      simpa [hconcludes] using hquiet entry hmem
  obtain ⟨hproofs, hevents⟩ := hcounts
  simp only [List.countP_append, List.countP_map, hzero, Nat.zero_add] at hproofs hevents ⊢
  exact ⟨hproofs, hevents⟩

end KyaOs.Middleware
