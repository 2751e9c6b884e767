import KyaOs.Authz.FlowSteps

/-!
# One exchange per resume token

Every token request comes of its own live consume, and every credential of such a request,
whatever is stored, consumed, swept and answered meanwhile. The code that is sent is not empty
unless a callback's `code` is no string and prints as the empty text.
-/

namespace KyaOs.Oidc

open Js Concurrency OidcEvent

variable {config : GenericOidcAdapterConfig} {platform : OidcPlatform}
  {numbers : Doubles JsNumber}

section Events

variable {event : OidcEvent} {earlier events : List OidcEvent} {call : Nat}

theorem OidcEvent.FollowsFrom.mono (h : event.FollowsFrom numbers earlier)
    (hsub : earlier ⊆ events) : event.FollowsFrom numbers events := by
  cases event with
  | stored => trivial
  | consumed =>
      obtain ⟨expiresAt, hstored, hlive⟩ := h
      exact ⟨expiresAt, hsub hstored, hlive⟩
  | requested =>
      obtain ⟨pending, now, hconsumed, hpresents⟩ := h
      exact ⟨pending, now, hsub hconsumed, hpresents⟩
  | answered =>
      obtain ⟨resumeToken, result, request, hrequested⟩ := h
      exact ⟨resumeToken, result, request, hsub hrequested⟩
  | credited =>
      obtain ⟨resumeToken, pending, now, result, request, response, hconsumed, hrequested,
        hanswered, hgrants⟩ := h
      exact ⟨resumeToken, pending, now, result, request, response, hsub hconsumed,
        hsub hrequested, hsub hanswered, hgrants⟩

theorem justified_nil : Justified numbers [] := by
  intro event earlier hsuffix
  cases List.suffix_nil.mp hsuffix

theorem Justified.cons (h : Justified numbers events) (hevent : event.FollowsFrom numbers events) :
    Justified numbers (event :: events) := by
  intro event' earlier hsuffix
  obtain heq | hold := List.suffix_cons_iff.mp hsuffix
  · cases heq
    exact hevent
  · exact h event' earlier hold

theorem Justified.of_mem (h : Justified numbers events) (hmem : event ∈ events) :
    event.FollowsFrom numbers events := by
  obtain ⟨later, earlier, rfl⟩ := List.append_of_mem hmem
  refine (h event earlier (List.suffix_append _ _)).mono ?_
  exact List.Subset.trans (List.subset_cons_self _ _) (List.subset_append_right _ _)

theorem mem_requested {resumeToken : JsString} :
    (call, resumeToken) ∈ events.filterMap requested? ↔
      ∃ result request, .requested call resumeToken result request ∈ events := by
  rw [List.mem_filterMap]
  constructor
  · rintro ⟨event, hmem, hevent⟩
    cases event with
    | requested call' resumeToken' result request =>
        cases hevent
        exact ⟨result, request, hmem⟩
    | _ => cases hevent
  · rintro ⟨result, request, hmem⟩
    exact ⟨_, hmem, rfl⟩

/-- A request's call has consumed its token. -/
theorem Justified.requested_subset (h : Justified numbers events) :
    events.filterMap requested? ⊆ events.filterMap consumed? := by
  rintro ⟨call, resumeToken⟩ hmem
  obtain ⟨result, request, hrequested⟩ := mem_requested.mp hmem
  obtain ⟨pending, now, hconsumed, -⟩ := h.of_mem hrequested
  exact List.mem_filterMap.mpr ⟨_, hconsumed, rfl⟩

/-- What the events say of how far a call has come. -/
def OidcPhase.Fits (events : List OidcEvent) (call : Nat) : Option OidcPhase → Prop
  | none => ∀ resumeToken, (call, resumeToken) ∉ events.filterMap requested?
  | some (.consumed resumeToken (some pending) _) =>
      (∃ now, .consumed call resumeToken pending now ∈ events) ∧
        ∀ resumeToken, (call, resumeToken) ∉ events.filterMap requested?
  | some (.exchanging pending) => ∃ resumeToken now result request,
      .consumed call resumeToken pending now ∈ events ∧
        .requested call resumeToken result request ∈ events
  | some _ => True

theorem OidcPhase.Idle.fits {phase : OidcPhase} (h : phase.Idle) :
    OidcPhase.Fits events call (some phase) := by
  cases phase with
  | consumed resumeToken pending result =>
      cases pending with
      | none => trivial
      | some pending => cases h
  | exchanging pending => cases h
  | _ => trivial

/-- An event of another call changes nothing. -/
theorem OidcPhase.Fits.cons {phase : Option OidcPhase} (h : Fits events call phase)
    (hother : ∀ resumeToken, event.requested? ≠ some (call, resumeToken)) :
    Fits (event :: events) call phase := by
  have hnone : (∀ resumeToken, (call, resumeToken) ∉ events.filterMap requested?) →
      ∀ resumeToken, (call, resumeToken) ∉ (event :: events).filterMap requested? := by
    intro hnone resumeToken hmem
    rw [List.mem_filterMap] at hmem
    obtain ⟨event', hevent', hrequested⟩ := hmem
    obtain rfl | hold := List.mem_cons.mp hevent'
    · exact hother _ hrequested
    · exact hnone _ (List.mem_filterMap.mpr ⟨event', hold, hrequested⟩)
  cases phase with
  | none => exact hnone h
  | some phase =>
      cases phase with
      | consumed resumeToken pending result =>
          cases pending with
          | none => trivial
          | some pending =>
              obtain ⟨⟨now, hconsumed⟩, hfresh⟩ := h
              exact ⟨⟨now, List.mem_cons_of_mem _ hconsumed⟩, hnone hfresh⟩
      | exchanging pending =>
          obtain ⟨resumeToken, now, result, request, hconsumed, hrequested⟩ := h
          exact ⟨resumeToken, now, result, request, List.mem_cons_of_mem _ hconsumed,
            List.mem_cons_of_mem _ hrequested⟩
      | _ => trivial

end Events

namespace OidcWorld

variable {w w' : OidcWorld} {action : OidcAction}

/-- The tokens that were consumed in time. -/
def consumedTokens (w : OidcWorld) : List JsString := (w.events.filterMap consumed?).map Prod.snd

/-- The tokens of the flows that are held. -/
def heldTokens (w : OidcWorld) : List JsString := w.store.pending.map Prod.fst

/-- What every action keeps. -/
structure Inv (numbers : Doubles JsNumber) (w : OidcWorld) : Prop where
  justified : Justified numbers w.events
  held : ∀ resumeToken entry, (resumeToken, entry) ∈ w.store.pending →
    .stored resumeToken entry ∈ w.events
  /-- A stored flow is held, or was consumed at most once. -/
  balanced : ∀ resumeToken, w.consumedTokens.count resumeToken + w.heldTokens.count resumeToken ≤
    w.storedTokens.count resumeToken
  requests : (w.events.filterMap requested?).Nodup
  fits : ∀ call, OidcPhase.Fits w.events call (w.calls call)

theorem Inv.singleUse (h : w.Inv numbers) : w.SingleUse numbers := by
  have hcounted : ∀ resumeToken,
      w.requestedTokens.count resumeToken ≤ w.storedTokens.count resumeToken := by
    intro resumeToken
    obtain ⟨requests, hperm, hsublist⟩ :=
      List.subperm_of_subset h.requests h.justified.requested_subset
    calc w.requestedTokens.count resumeToken
        = (requests.map Prod.snd).count resumeToken :=
          ((hperm.map Prod.snd).count_eq resumeToken).symm
      _ ≤ w.consumedTokens.count resumeToken := (hsublist.map Prod.snd).count_le resumeToken
      _ ≤ w.storedTokens.count resumeToken :=
          Nat.le_trans (Nat.le_add_right _ _) (h.balanced resumeToken)
  refine ⟨h.justified, hcounted, ?_⟩
  intro hstored
  rw [List.nodup_iff_count_le_one] at hstored ⊢
  exact fun resumeToken => Nat.le_trans (hcounted resumeToken) (hstored resumeToken)

theorem Inv.idle (h : w.Inv numbers) (hevents : w'.events = w.events)
    (hstore : w'.store.pending.Sublist w.store.pending)
    (hcalls : ∀ call, w'.calls call = w.calls call ∨
      ∃ phase, w'.calls call = some phase ∧ phase.Idle) : w'.Inv numbers where
  justified := hevents ▸ h.justified
  held resumeToken entry hmem := hevents ▸ h.held resumeToken entry (hstore.subset hmem)
  balanced resumeToken := by
    have hheld : w'.heldTokens.count resumeToken ≤ w.heldTokens.count resumeToken :=
      (hstore.map Prod.fst).count_le resumeToken
    have hbalanced := h.balanced resumeToken
    rw [consumedTokens, storedTokens] at hbalanced ⊢
    rw [hevents]
    omega
  requests := hevents ▸ h.requests
  fits call := by
    obtain hsame | ⟨phase, hphase, hidle⟩ := hcalls call
    · rw [hevents, hsame]
      exact h.fits call
    · rw [hphase]
      exact hidle.fits

/-- The other calls are as far as they were. -/
theorem Inv.fits_setPhase (h : w.Inv numbers) {call : Nat} {phase : OidcPhase}
    {event : OidcEvent} {store : MemoryPendingFlowStore}
    (hevent : ∀ other resumeToken, other ≠ call → event.requested? ≠ some (other, resumeToken))
    (hphase : OidcPhase.Fits (event :: w.events) call (some phase)) (other : Nat) :
    OidcPhase.Fits (event :: w.events) other
      ((setPhase { w with store, events := event :: w.events } call phase).calls other) := by
  rw [calls_setPhase]
  split_ifs with hsame
  · exact hsame ▸ hphase
  · exact (h.fits other).cons fun resumeToken => hevent other resumeToken hsame

theorem count_heldTokens_put {store : MemoryPendingFlowStore} {now : ℚ} {flow : PendingFlow}
    {ttlMs : JsNumber} {token resumeToken : JsString} :
    ((store.put now token flow ttlMs).pending.map Prod.fst).count resumeToken ≤
      (store.pending.map Prod.fst).count resumeToken + [token].count resumeToken := by
  have hassigned : ((assignMember token ⟨flow, TtlCache.expiry now ttlMs⟩
      store.pending).map Prod.fst).count resumeToken ≤
        (store.pending.map Prod.fst).count resumeToken + [token].count resumeToken := by
    rw [map_fst_assignMember]
    split_ifs
    · exact Nat.le_add_right _ _
    · rw [List.count_append]
  rw [MemoryPendingFlowStore.put]
  split_ifs
  · exact Nat.le_trans ((List.filter_sublist.map Prod.fst).count_le resumeToken) hassigned
  · exact hassigned

theorem mem_put {store : MemoryPendingFlowStore} {now : ℚ} {flow : PendingFlow}
    {ttlMs : JsNumber} {token : JsString} {member : JsString × PendingEntry}
    (h : member ∈ (store.put now token flow ttlMs).pending) :
    member = (token, ⟨flow, TtlCache.expiry now ttlMs⟩) ∨ member ∈ store.pending := by
  rw [MemoryPendingFlowStore.put] at h
  split_ifs at h
  · exact mem_assignMember (List.mem_of_mem_filter h)
  · exact mem_assignMember h

theorem Inv.put (h : w.Inv numbers) {call : Nat} {params : FlowParams}
    {codeVerifier token : JsString} {now : ℚ} :
    (w.put config call params codeVerifier token now).Inv numbers where
  justified := h.justified.cons trivial
  held resumeToken entry hmem := by
    obtain hnew | hold := mem_put hmem
    · cases hnew
      exact List.mem_cons_self
    · exact List.mem_cons_of_mem _ (h.held resumeToken entry hold)
  balanced resumeToken := by
    have hheld := @count_heldTokens_put w.store now (config.pendingFlow params codeVerifier)
      config.ttlMs token resumeToken
    have hstored :
        (w.put config call params codeVerifier token now).storedTokens.count resumeToken =
        w.storedTokens.count resumeToken + [token].count resumeToken :=
      List.count_cons.trans (by rw [List.count_singleton]; rfl)
    calc w.consumedTokens.count resumeToken + _
        ≤ w.consumedTokens.count resumeToken +
            (w.heldTokens.count resumeToken + [token].count resumeToken) :=
          Nat.add_le_add_left hheld _
      _ ≤ w.storedTokens.count resumeToken + [token].count resumeToken := by
          rw [← Nat.add_assoc]
          exact Nat.add_le_add_right (h.balanced resumeToken) _
      _ = _ := hstored.symm
  requests := h.requests
  fits := h.fits_setPhase (fun _ _ _ hrequested => by cases hrequested) trivial

theorem count_delete_self {store : MemoryPendingFlowStore} {token : JsString} :
    ((store.delete token).pending.map Prod.fst).count token = 0 := by
  rw [List.count_eq_zero]
  intro hmem
  obtain ⟨member, hmember, rfl⟩ := List.mem_map.mp hmem
  simpa using (List.mem_filter.mp hmember).2

theorem Inv.consume (h : w.Inv numbers) {call : Nat} {token : JsString} {pending : PendingFlow}
    {result : Untyped} {now : ℚ} {expiresAt : JsNumber} (hnone : w.calls call = none)
    (hheld : (token, ⟨pending, expiresAt⟩) ∈ w.store.pending)
    (hlive : expiresAt.le (.finite now) = false) :
    (setPhase { w with
      store := w.store.delete token
      events := .consumed call token pending now :: w.events } call
      (.consumed token (some pending) result)).Inv numbers where
  justified := h.justified.cons ⟨expiresAt, h.held _ _ hheld, hlive⟩
  held resumeToken entry hmem :=
    List.mem_cons_of_mem _ (h.held resumeToken entry (List.mem_of_mem_filter hmem))
  balanced resumeToken := by
    have hbalanced := h.balanced resumeToken
    have hconsumed : (token :: w.consumedTokens).count resumeToken +
        ((w.store.delete token).pending.map Prod.fst).count resumeToken ≤
          w.consumedTokens.count resumeToken + w.heldTokens.count resumeToken := by
      by_cases hsame : token = resumeToken
      · have hpositive : 0 < w.heldTokens.count token :=
          List.count_pos_iff.mpr (List.mem_map.mpr ⟨_, hheld, rfl⟩)
        subst hsame
        rw [count_delete_self, List.count_cons_self]
        omega
      · have hfewer : ((w.store.delete token).pending.map Prod.fst).count resumeToken ≤
            w.heldTokens.count resumeToken :=
          (MemoryPendingFlowStore.delete_sublist.map Prod.fst).count_le resumeToken
        rw [List.count_cons_of_ne hsame]
        omega
    exact Nat.le_trans hconsumed hbalanced
  requests := h.requests
  fits := by
    refine h.fits_setPhase (fun _ _ _ hrequested => by cases hrequested) ?_
    have hfresh := h.fits call
    rw [hnone] at hfresh
    exact ⟨⟨now, List.mem_cons_self⟩, hfresh⟩

theorem Inv.request (h : w.Inv numbers) {call : Nat} {token : JsString} {pending : PendingFlow}
    {result : Untyped} {code : JsonValue JsNumber} {text : JsString}
    (hcall : w.calls call = some (.consumed token (some pending) result))
    (hstate : result.member? (js "state") = some (.string pending.state))
    (hcode : result.member? (js "code") = some code) (htext : code.toText numbers = .ok text) :
    (setPhase { w with
      events := .requested call token result (config.tokenRequest pending text) :: w.events } call
      (.exchanging pending)).Inv numbers := by
  have hfits := h.fits call
  rw [hcall] at hfits
  obtain ⟨⟨now, hconsumed⟩, hfresh⟩ := hfits
  refine ⟨?_, ?_, h.balanced, ?_, ?_⟩
  · exact h.justified.cons ⟨pending, now, hconsumed, tokenRequest_presents hstate hcode htext⟩
  · intro resumeToken entry hmem
    exact List.mem_cons_of_mem _ (h.held resumeToken entry hmem)
  · exact List.nodup_cons.mpr ⟨hfresh token, h.requests⟩
  · refine h.fits_setPhase ?_ ⟨token, now, result, _, List.mem_cons_of_mem _ hconsumed,
      List.mem_cons_self⟩
    intro other resumeToken hother hrequested
    cases hrequested
    exact hother rfl

theorem Inv.answer (h : w.Inv numbers) {call : Nat} {pending : PendingFlow}
    {answer : Except Error TokenResponse} (hcall : w.calls call = some (.exchanging pending)) :
    (w.answer call pending answer).Inv numbers := by
  have hfits := h.fits call
  rw [hcall] at hfits
  obtain ⟨token, now, result, request, hconsumed, hrequested⟩ := hfits
  have hanswered : Justified numbers (.answered call answer :: w.events) :=
    h.justified.cons ⟨token, result, request, hrequested⟩
  rw [OidcWorld.answer]
  cases hcredential : (granted pending answer).credential with
  | none =>
      refine ⟨hanswered, ?_, h.balanced, h.requests, ?_⟩
      · intro resumeToken entry hmem
        exact List.mem_cons_of_mem _ (h.held resumeToken entry hmem)
      · exact h.fits_setPhase (fun _ _ _ hrequested => by cases hrequested) trivial
  | some credential =>
      obtain ⟨response, rfl, hgrants, hagent⟩ := granted_credential hcredential
      refine ⟨hanswered.cons ?_, ?_, h.balanced, h.requests, ?_⟩
      · exact ⟨token, pending, now, result, request, response, List.mem_cons_of_mem _ hconsumed,
          List.mem_cons_of_mem _ hrequested, List.mem_cons_self, hgrants, hagent⟩
      · intro resumeToken entry hmem
        exact List.mem_cons_of_mem _ (List.mem_cons_of_mem _ (h.held resumeToken entry hmem))
      · intro other
        rw [calls_setPhase]
        split_ifs
        · trivial
        · exact ((h.fits other).cons fun _ hevent => by cases hevent).cons
            fun _ hevent => by cases hevent

theorem Inv.act (h : w.Inv platform.numbers) (hact : w.act config platform action = some w') :
    w'.Inv platform.numbers := by
  obtain ⟨sends, htransition, -⟩ := transition_of_act hact
  cases htransition with
  | idle hevents hstore hcalls => exact h.idle hevents hstore hcalls
  | put => exact h.put
  | consume hnone hheld hlive => exact h.consume hnone hheld hlive
  | request hcall hstate hcode htext => exact h.request hcall hstate hcode htext
  | answer hcall => exact h.answer hcall

/-- An action keeps the codes from being empty exactly when it sends none that is. -/
theorem CodesSent.act_iff (h : w.CodesSent) (hact : w.act config platform action = some w') :
    w'.CodesSent ↔ w.SendsCode platform.numbers action := by
  obtain ⟨sends, htransition, hsends⟩ := transition_of_act hact
  rw [← hsends]
  cases htransition with
  | idle hevents =>
      refine iff_of_true ?_ trivial
      rw [CodesSent, hevents]
      exact h
  | put =>
      refine iff_of_true ?_ trivial
      intro call resumeToken result request hmem
      obtain hnew | hold := List.mem_cons.mp hmem
      · cases hnew
      · exact h call resumeToken result request hold
  | consume =>
      refine iff_of_true ?_ trivial
      intro call resumeToken result request hmem
      obtain hnew | hold := List.mem_cons.mp hmem
      · cases hnew
      · exact h call resumeToken result request hold
  | @request call resumeToken pending result code text =>
      constructor
      · intro hsent hempty
        obtain ⟨unit, units, hcode⟩ := hsent call resumeToken result _ List.mem_cons_self
        cases (Option.some.inj hcode).symm.trans (usvString_eq_nil.mpr hempty)
      · intro htext call' resumeToken' result' request' hmem
        obtain hnew | hold := List.mem_cons.mp hmem
        · cases hnew
          obtain ⟨unit, units, hunits⟩ :=
            List.exists_cons_of_ne_nil (fun hempty => htext (usvString_eq_nil.mp hempty))
          exact ⟨unit, units, congrArg some hunits⟩
        · exact h call' resumeToken' result' request' hold
  | @answer call pending answer =>
      refine iff_of_true ?_ trivial
      intro call' resumeToken result request hmem
      obtain hcredited | hrest := List.mem_append.mp hmem
      · obtain ⟨credential, -, hevent⟩ := Option.map_eq_some_iff.mp (Option.mem_toList.mp hcredited)
        cases hevent
      · obtain hnew | hold := List.mem_cons.mp hrest
        · cases hnew
        · exact h call' resumeToken result request hold

/-- A world before any call. -/
def fresh (startedAt : ℚ) : OidcWorld where
  store := { lastSweepAt := startedAt }

theorem inv_fresh {startedAt : ℚ} : (fresh startedAt).Inv numbers where
  justified := justified_nil
  held _ _ hmem := absurd hmem List.not_mem_nil
  balanced _ := Nat.le_refl 0
  requests := List.nodup_nil
  fits _ _ := List.not_mem_nil

/-- Whatever is done, a token is good for one exchange; the codes sent are not empty up to the
first action that sends one that is. -/
theorem resumeToken_singleUse (config : GenericOidcAdapterConfig) (platform : OidcPlatform)
    (startedAt : ℚ) :
    (∀ w, Acted (act config platform) anyAction (fresh startedAt) w →
      w.SingleUse platform.numbers) ∧
    ∀ w, Acted (act config platform) (fun w => w.SendsCode platform.numbers) (fresh startedAt) w →
      w.CodesSent ∧ ∀ action w', w.act config platform action = some w' →
        (w'.CodesSent ↔ w.SendsCode platform.numbers action) := by
  constructor
  · intro w hacted
    refine (hacted.invariant inv_fresh ?_).singleUse
    intro w a w' hinv hact _
    exact hinv.act hact
  · intro w hacted
    refine hacted.keeps_iff ?_ ?_ (fun _ hsent => hsent) ?_
    · intro call resumeToken result request hmem
      cases hmem
    · intro w a w' hsent hact hsends
      exact (hsent.act_iff hact).mpr hsends
    · intro w a w' hsent hact hsent'
      exact (hsent.act_iff hact).mp hsent'

section Sample

def sampleConfig : GenericOidcAdapterConfig where
  authorizationEndpoint := js "https://idp.example/authorize"
  tokenEndpoint := js "https://idp.example/token"
  clientId := js "client"
  scopes := [js "vault:read"]

def samplePlatform : OidcPlatform where
  numbers := sampleRuntime.numbers
  sha256 := fun bytes => bytes
  urlWithParams := fun endpoint _ => .ok endpoint

def sampleParams : FlowParams where
  toolName := js "read"
  requiredScopes := none
  agentDid := js "did:key:z1"
  redirectUri := js "https://agent.example/cb"
  state := js "state-xyz"

def sampleResult (code : JsonValue JsNumber) : Untyped :=
  some (.object [(js "code", code), (js "state", .string (js "state-xyz"))])

/-- A flow and a callback with its token and state. -/
def calledBack (code : JsonValue JsNumber) : List OidcAction :=
  [.initiateFlow 0 sampleParams [1], .put 0 [2] 0,
    .verifyAuthorization 1 (randomToken [2]) (sampleResult code) 1, .present 1]

/-- The request of a callback with a code. -/
theorem resumeToken_singleUse_sample :
    ∃ w : OidcWorld, w.SingleUse samplePlatform.numbers ∧ w.CodesSent ∧
      w.requestedTokens = [randomToken [2]] := by
  obtain ⟨hsingle, hcodes⟩ := resumeToken_singleUse sampleConfig samplePlatform 0
  let result := sampleResult (.string (js "c"))
  let reached := Acted (act sampleConfig samplePlatform)
    (fun w => w.SendsCode samplePlatform.numbers) (fresh 0)
  let w₁ := (fresh 0).setPhase 0 (.challenging sampleParams (randomToken [1]))
  let w₂ := w₁.put sampleConfig 0 sampleParams (randomToken [1]) (randomToken [2]) 0
  let w₃ := w₂.consume 1 (randomToken [2]) result 1
  have hinitiated : reached w₁ := .act (a := .initiateFlow 0 sampleParams [1]) .start rfl trivial
  have hstored : reached w₂ := .act (a := .put 0 [2] 0) hinitiated rfl trivial
  have hconsumed : reached w₃ :=
    .act (a := .verifyAuthorization 1 (randomToken [2]) result 1) hstored rfl trivial
  have hrequest : (act sampleConfig samplePlatform w₃ (.present 1)).any
      (fun w => w.requestedTokens == [randomToken [2]]) = true := by decide +kernel
  obtain ⟨w, hw, htokens⟩ := (Option.any_eq_true _ _).mp hrequest
  have hany : Acted (act sampleConfig samplePlatform) anyAction (fresh 0) w :=
    .act (hconsumed.mono fun _ _ _ => trivial) hw trivial
  refine ⟨w, hsingle w hany, ((hcodes w₃ hconsumed).2 (.present 1) w hw).mpr ?_,
    eq_of_beq htokens⟩
  intro resumeToken pending presented hcall _ code hcode _ htext
  have hpresented : presented = result := by
    rw [show w₃ = w₂.consume 1 (randomToken [2]) result 1 from rfl, consume] at hcall
    split at hcall
    · rw [calls_setPhase, if_pos rfl] at hcall
      cases hcall
    · rw [calls_setPhase, if_pos rfl] at hcall
      cases hcall
      rfl
  rw [hpresented] at hcode
  cases hcode
  cases htext

def sendsEmptyCode (w : OidcWorld) : Bool :=
  w.events.any fun
    | .requested _ _ _ request => request.params.lookup (js "code") == some []
    | _ => false

/-- A code that is an empty list is sent as an empty text. -/
theorem emptyCode_sent :
    ∃ w, Acted (act sampleConfig samplePlatform) anyAction (fresh 0) w ∧ ¬ w.CodesSent := by
  have hrun : ((calledBack (.array [])).foldlM (act sampleConfig samplePlatform) (fresh 0)).any
      sendsEmptyCode = true := by decide +kernel
  obtain ⟨w, hw, hempty⟩ := (Option.any_eq_true _ _).mp hrun
  refine ⟨w, .of_run hw, ?_⟩
  intro hsent
  obtain ⟨event, hmem, hcode⟩ := List.any_eq_true.mp hempty
  cases event with
  | requested call resumeToken result request =>
      obtain ⟨unit, units, hunits⟩ := hsent call resumeToken result request hmem
      simp [hunits] at hcode
  | _ => cases hcode

end Sample

end OidcWorld

end KyaOs.Oidc
