import KyaOs.Authz.PendingFlows
import KyaOs.Concurrency.Actions

/-!
# The events of pending flows

What every event of a run is to come of, and what each action can do to the stored flows and the
events, said once.
-/

namespace KyaOs.Oidc

open Js Concurrency

/-- A request presents a flow's state, a printed code, and the flow's own secrets. -/
structure TokenRequest.Presents (numbers : Doubles JsNumber) (request : TokenRequest)
    (pending : PendingFlow) (result : Untyped) : Prop where
  state : result.member? (js "state") = some (.string pending.state)
  code : ∃ code text, result.member? (js "code") = some code ∧ code.toText numbers = .ok text ∧
    request.params.lookup (js "code") = some (usvString text)
  codeVerifier : request.params.lookup (js "code_verifier") = some (usvString pending.codeVerifier)
  redirectUri : request.params.lookup (js "redirect_uri") = some (usvString pending.redirectUri)

/-- A 2xx answer whose body is an object without an `error` member. -/
def TokenResponse.Grants (response : TokenResponse) : Prop :=
  response.ok = true ∧ ∃ members, response.json = .ok (.object members) ∧
    members.lookup (js "error") = none

namespace OidcEvent

/-- What must have come before an event. -/
def FollowsFrom (numbers : Doubles JsNumber) (earlier : List OidcEvent) : OidcEvent → Prop
  | .stored .. => True
  | .consumed _ resumeToken pending now => ∃ expiresAt,
      .stored resumeToken ⟨pending, expiresAt⟩ ∈ earlier ∧ expiresAt.le (.finite now) = false
  | .requested call resumeToken result request => ∃ pending now,
      .consumed call resumeToken pending now ∈ earlier ∧ request.Presents numbers pending result
  | .answered call _ => ∃ resumeToken result request,
      .requested call resumeToken result request ∈ earlier
  | .credited call credential => ∃ resumeToken pending now result request response,
      .consumed call resumeToken pending now ∈ earlier ∧
      .requested call resumeToken result request ∈ earlier ∧
      .answered call (.ok response) ∈ earlier ∧ response.Grants ∧
      credential.agentDid = pending.agentDid

def stored? : OidcEvent → Option JsString
  | .stored resumeToken _ => some resumeToken
  | _ => none

def consumed? : OidcEvent → Option (Nat × JsString)
  | .consumed call resumeToken _ _ => some (call, resumeToken)
  | _ => none

def requested? : OidcEvent → Option (Nat × JsString)
  | .requested call resumeToken _ _ => some (call, resumeToken)
  | _ => none

end OidcEvent

open OidcEvent

/-- Each event of a list, latest first, has what must have come before it. -/
def Justified (numbers : Doubles JsNumber) (events : List OidcEvent) : Prop :=
  ∀ event earlier, event :: earlier <:+ events → event.FollowsFrom numbers earlier

namespace OidcWorld

variable (w : OidcWorld)

/-- The tokens under which a flow was stored. -/
def storedTokens : List JsString := w.events.filterMap stored?

/-- The tokens of the requests to the token endpoint. -/
def requestedTokens : List JsString := (w.events.filterMap requested?).map Prod.snd

/-- What every interleaving of calls keeps. -/
structure SingleUse (numbers : Doubles JsNumber) : Prop where
  justified : Justified numbers w.events
  /-- There are no more requests for a token than flows stored under it. -/
  counted : ∀ resumeToken,
    w.requestedTokens.count resumeToken ≤ w.storedTokens.count resumeToken
  once : w.storedTokens.Nodup → w.requestedTokens.Nodup

/-- No request has an empty code. -/
def CodesSent : Prop :=
  ∀ call resumeToken result request, .requested call resumeToken result request ∈ w.events →
    ∃ unit units, request.params.lookup (js "code") = some (unit :: units)

/-- A code that comes with its flow's state is no value, such as an empty list, that is true and
prints as the empty text. -/
def SendsCode (numbers : Doubles JsNumber) : OidcAction → Prop
  | .present call => ∀ resumeToken pending result,
      w.calls call = some (.consumed resumeToken (some pending) result) →
      result.member? (js "state") = some (.string pending.state) →
      ∀ code, result.member? (js "code") = some code → Untyped.truthy (some code) = true →
        code.toText numbers ≠ .ok []
  | _ => True

end OidcWorld

variable {config : GenericOidcAdapterConfig} {platform : OidcPlatform}
  {numbers : Doubles JsNumber}

theorem units_ne_nil (c : Char) : units c ≠ [] := by
  rw [units]
  split_ifs <;> exact List.cons_ne_nil _ _

@[simp] theorem usvString_eq_nil {text : JsString} : usvString text = [] ↔ text = [] := by
  constructor
  · intro h
    have hpoints : codePoints text = [] := by
      cases hpoints : codePoints text with
      | nil => rfl
      | cons c rest =>
          rw [usvString, hpoints, List.flatMap_cons, List.append_eq_nil_iff] at h
          exact absurd h.1 (units_ne_nil c)
    cases text with
    | nil => rfl
    | cons u rest =>
        cases rest with
        | nil => cases hpoints
        | cons v rest =>
            rw [codePoints] at hpoints
            split_ifs at hpoints
  · rintro rfl
    rfl

namespace MemoryPendingFlowStore

variable {store store' : MemoryPendingFlowStore} {now : ℚ} {resumeToken : JsString}
  {pending : PendingFlow}

theorem delete_sublist : (store.delete resumeToken).pending.Sublist store.pending :=
  List.filter_sublist

theorem get_sublist : (store.get now resumeToken).2.pending.Sublist store.pending := by
  rw [get]
  split
  · exact List.Sublist.refl _
  · split_ifs
    · exact delete_sublist
    · exact List.Sublist.refl _

theorem consume_sublist : (store.consume now resumeToken).2.pending.Sublist store.pending := by
  rw [consume]
  split
  · exact List.Sublist.refl _
  · exact delete_sublist

/-- A consumed flow was held, and had not expired. -/
theorem consume_live (h : store.consume now resumeToken = (some pending, store')) :
    ∃ expiresAt, (resumeToken, ⟨pending, expiresAt⟩) ∈ store.pending ∧
      expiresAt.le (.finite now) = false ∧ store' = store.delete resumeToken := by
  rw [consume] at h
  split at h
  · cases h
  · rename_i entry hlookup
    obtain ⟨before, after, hlisted, -⟩ := List.lookup_eq_some_iff.mp hlookup
    obtain ⟨hflow, rfl⟩ := Prod.mk.inj h
    split_ifs at hflow with hexpired
    obtain rfl := Option.some.inj hflow
    exact ⟨entry.expiresAt, by simp [hlisted], by simpa [PendingEntry.expired] using hexpired, rfl⟩

end MemoryPendingFlowStore

/-- A request is made for a consumed flow, with its state and a true code. -/
theorem present_request {pending : Option PendingFlow} {result : Untyped} {flow : PendingFlow}
    {request : TokenRequest}
    (h : config.present platform pending result = .ok (.inr (flow, request))) :
    pending = some flow ∧ result.member? (js "state") = some (.string flow.state) ∧
      ∃ code text, result.member? (js "code") = some code ∧ Untyped.truthy (some code) = true ∧
        code.toText platform.numbers = .ok text ∧ request = config.tokenRequest flow text := by
  rw [GenericOidcAdapterConfig.present.eq_def] at h
  split at h
  · cases h
  · rename_i held
    dsimp only at h
    split_ifs at h with hcode hstate
    · cases h
    · cases h
    split at h
    · cases h
    · rename_i code hmember
      obtain ⟨text, htext, hrequest⟩ := bind_eq_ok.mp h
      cases hrequest
      rw [hmember] at hcode
      exact ⟨rfl, by simpa using hstate, code, text, hmember, by simpa using hcode, htext, rfl⟩

/-- Nothing is requested of a flow whose state and true code are presented only where the code
has no text. -/
theorem present_verified {pending : PendingFlow} {result : Untyped} {code : JsonValue JsNumber}
    {text : JsString} (hstate : result.member? (js "state") = some (.string pending.state))
    (hcode : result.member? (js "code") = some code) (htruthy : Untyped.truthy (some code) = true)
    (htext : code.toText platform.numbers = .ok text) :
    config.present platform (some pending) result =
      .ok (.inr (pending, config.tokenRequest pending text)) := by
  rw [GenericOidcAdapterConfig.present]
  simp only [hcode, htruthy, hstate, Bool.not_true, Bool.false_eq_true, if_false, htext,
    Untyped.isString, beq_self_eq_true]
  rfl

theorem tokenRequest_presents {pending : PendingFlow} {result : Untyped}
    {code : JsonValue JsNumber} {text : JsString}
    (hstate : result.member? (js "state") = some (.string pending.state))
    (hcode : result.member? (js "code") = some code) (htext : code.toText numbers = .ok text) :
    (config.tokenRequest pending text).Presents numbers pending result where
  state := hstate
  code := ⟨code, text, hcode, htext, rfl⟩
  codeVerifier := rfl
  redirectUri := rfl

theorem granted_credential {pending : PendingFlow} {answer : Except Error TokenResponse}
    {credential : OidcCredential} (h : (granted pending answer).credential = some credential) :
    ∃ response, answer = .ok response ∧ response.Grants ∧
      credential.agentDid = pending.agentDid := by
  rw [granted.eq_def] at h
  split at h
  · cases h
  · rename_i response
    split_ifs at h with hok
    · cases h
    split at h
    · cases h
    · rename_i body hjson
      split at h
      · cases h
      · rename_i hproblem
        have herror : ∃ members, body = .object members ∧ members.lookup (js "error") = none := by
          rw [tokenResponseProblem.eq_def] at hproblem
          split at hproblem
          · rename_i members
            split_ifs at hproblem with herror
            exact ⟨members, rfl, Option.not_isSome_iff_eq_none.mp herror⟩
          · cases hproblem
        obtain ⟨members, rfl, herror⟩ := herror
        split at h
        · cases h
        · cases h
          exact ⟨response, rfl, ⟨by simpa using hok, members, hjson, herror⟩, rfl⟩

/-- The call has consumed no flow and awaits no answer. -/
def OidcPhase.Idle : OidcPhase → Prop
  | .consumed _ (some _) _ | .exchanging _ => False
  | _ => True

namespace OidcWorld

variable {w w' : OidcWorld} {action : OidcAction}

/-- The five things an action can do to the world, and when it sends a code. -/
inductive Transition (config : GenericOidcAdapterConfig) (platform : OidcPlatform)
    (w : OidcWorld) : OidcWorld → Prop → Prop
  | idle {w' : OidcWorld} : w'.events = w.events → w'.store.pending.Sublist w.store.pending →
      (∀ call, w'.calls call = w.calls call ∨ ∃ phase, w'.calls call = some phase ∧ phase.Idle) →
      Transition config platform w w' True
  | put {call : Nat} {params : FlowParams} {codeVerifier resumeToken : JsString} {now : ℚ} :
      Transition config platform w (w.put config call params codeVerifier resumeToken now) True
  | consume {call : Nat} {resumeToken : JsString} {pending : PendingFlow} {result : Untyped}
      {now : ℚ} {expiresAt : JsNumber} : w.calls call = none →
      (resumeToken, ⟨pending, expiresAt⟩) ∈ w.store.pending → expiresAt.le (.finite now) = false →
      Transition config platform w (setPhase { w with
        store := w.store.delete resumeToken
        events := .consumed call resumeToken pending now :: w.events } call
        (.consumed resumeToken (some pending) result)) True
  | request {call : Nat} {resumeToken : JsString} {pending : PendingFlow} {result : Untyped}
      {code : JsonValue JsNumber} {text : JsString} :
      w.calls call = some (.consumed resumeToken (some pending) result) →
      result.member? (js "state") = some (.string pending.state) →
      result.member? (js "code") = some code → code.toText platform.numbers = .ok text →
      Transition config platform w (setPhase { w with
        events := .requested call resumeToken result (config.tokenRequest pending text) ::
          w.events } call (.exchanging pending)) (text ≠ [])
  | answer {call : Nat} {pending : PendingFlow} {answer : Except Error TokenResponse} :
      w.calls call = some (.exchanging pending) →
      Transition config platform w (w.answer call pending answer) True

theorem calls_setPhase {call : Nat} {phase : OidcPhase} (other : Nat) :
    (w.setPhase call phase).calls other = if other = call then some phase else w.calls other := by
  simp only [setPhase, Function.update_apply]

/-- Nothing but a call's phase is changed. -/
theorem Transition.idle_setPhase {store : MemoryPendingFlowStore} {call : Nat} {phase : OidcPhase}
    (hstore : store.pending.Sublist w.store.pending) (hphase : phase.Idle) :
    Transition config platform w (setPhase { w with store } call phase) True := by
  refine .idle rfl hstore ?_
  intro other
  rw [calls_setPhase]
  split_ifs
  · exact .inr ⟨phase, rfl, hphase⟩
  · exact .inl rfl

theorem transition_present {call : Nat} {resumeToken : JsString} {pending : Option PendingFlow}
    {result : Untyped} (hcall : w.calls call = some (.consumed resumeToken pending result)) :
    ∃ sends, Transition config platform w
      (w.present config platform call resumeToken pending result) sends ∧
        (sends ↔ w.SendsCode platform.numbers (.present call)) := by
  -- Where nothing is requested, a true code that comes with the state has no text.
  have hquiet : (∀ flow request,
      config.present platform pending result ≠ .ok (.inr (flow, request))) →
        w.SendsCode platform.numbers (.present call) := by
    intro hnone resumeToken' flow result' hcall' hstate code hcode htruthy htext
    rw [hcall] at hcall'
    cases hcall'
    exact hnone _ _ (present_verified hstate hcode htruthy htext)
  rw [OidcWorld.present]
  cases hpresent : config.present platform pending result with
  | error error =>
      refine ⟨True, .idle_setPhase (List.Sublist.refl _) trivial, iff_of_true trivial (hquiet ?_)⟩
      intro flow request hrequest
      rw [hpresent] at hrequest
      cases hrequest
  | ok next =>
      cases next with
      | inl verified =>
          refine ⟨True, .idle_setPhase (List.Sublist.refl _) trivial,
            iff_of_true trivial (hquiet ?_)⟩
          intro flow request hrequest
          rw [hpresent] at hrequest
          cases hrequest
      | inr next =>
          obtain ⟨flow, request⟩ := next
          obtain ⟨rfl, hstate, code, text, hcode, htruthy, htext, rfl⟩ := present_request hpresent
          refine ⟨_, .request hcall hstate hcode htext, ?_⟩
          constructor
          · intro hnonempty resumeToken' flow' result' hcall' _ code' hcode' _ htext'
            rw [hcall] at hcall'
            cases hcall'
            rw [hcode] at hcode'
            cases hcode'
            rw [htext] at htext'
            exact hnonempty (Except.ok.inj htext')
          · intro hsends hempty
            exact hsends _ _ _ hcall hstate code hcode htruthy (hempty ▸ htext)

theorem transition_of_act (h : w.act config platform action = some w') :
    ∃ sends, Transition config platform w w' sends ∧
      (sends ↔ w.SendsCode platform.numbers action) := by
  cases action with
  | initiateFlow call params bytes =>
      simp only [act] at h
      split at h
      · obtain rfl := Option.some.inj h
        exact ⟨True, .idle_setPhase (List.Sublist.refl _) trivial, Iff.rfl⟩
      · cases h
  | put call bytes now =>
      simp only [act] at h
      split at h
      · obtain rfl := Option.some.inj h
        exact ⟨True, .put, Iff.rfl⟩
      · cases h
  | challenge call now =>
      simp only [act] at h
      split at h
      · obtain rfl := Option.some.inj h
        exact ⟨True, .idle_setPhase (List.Sublist.refl _) trivial, Iff.rfl⟩
      · cases h
  | verifyAuthorization call flowState result now =>
      simp only [act] at h
      split at h
      · rename_i hnone
        obtain rfl := Option.some.inj h
        have hsublist := @MemoryPendingFlowStore.consume_sublist w.store now flowState
        rw [OidcWorld.consume]
        split
        · rename_i store hconsume
          rw [hconsume] at hsublist
          exact ⟨True, .idle_setPhase hsublist trivial, Iff.rfl⟩
        · rename_i pending store hconsume
          obtain ⟨expiresAt, hheld, hlive, rfl⟩ :=
            MemoryPendingFlowStore.consume_live hconsume
          exact ⟨True, .consume hnone hheld hlive, Iff.rfl⟩
      · cases h
  | present call =>
      simp only [act] at h
      split at h
      · rename_i hcall
        obtain rfl := Option.some.inj h
        exact transition_present hcall
      · cases h
  | answer call answer =>
      simp only [act] at h
      split at h
      · rename_i hcall
        obtain rfl := Option.some.inj h
        exact ⟨True, .answer hcall, Iff.rfl⟩
      · cases h
  | pendingVerifierFor resumeToken now =>
      obtain rfl := Option.some.inj h
      exact ⟨True, .idle rfl MemoryPendingFlowStore.get_sublist fun _ => .inl rfl, Iff.rfl⟩
  | cleanup now =>
      obtain rfl := Option.some.inj h
      exact ⟨True, .idle rfl List.filter_sublist fun _ => .inl rfl, Iff.rfl⟩

end OidcWorld

end KyaOs.Oidc
