import KyaOs.Middleware.WrapperProvenance

/-!
# What a sent result relays

The last step before a result leaves the process. It scrubs the result and redeems the proof
that the result names: under the names that only the middleware sets nothing is added that it
did not make, and with an allowed call's proof nothing relayed stays.
-/

namespace KyaOs.Middleware

open Js Untyped JsonValue Proof Concurrency Concurrency.Async

section Scrubbing

variable {keepEmptyMeta : Bool} {key : JsString}

/-- A scrubbed root's `_meta` keeps the members that are not private. -/
theorem member?_scrubRoot {root : ToolResult} (hsingle : SingleMeta root)
    (hprivate : isPrivate key = false) (hkey : key ≠ js "_meta") :
    (metaOf (scrubRoot keepEmptyMeta root)).member? key =
      ((metaOf root).member? key).map scrub := by
  cases root with
  | object members =>
      rw [metaOf, scrubRoot, Untyped.member?, lookup_scrubRoot members hsingle, metaOf,
        Untyped.member?]
      cases hmeta : members.lookup (js "_meta") with
      | none => rfl
      | some value =>
          cases value with
          | object metadata =>
              have hkept : (withoutKeys (scrubMembers metadata) isPrivate).lookup key =
                  (metadata.lookup key).map scrub := by
                rw [lookup_withoutKeys, hprivate, if_neg Bool.false_ne_true,
                  lookup_scrubMembers metadata hkey]
              rw [Option.bind_some, scrub, scrubMember]
              split_ifs
              · dsimp only
                split_ifs with hempty
                · rw [Bool.and_eq_true, List.isEmpty_iff] at hempty
                  rw [hempty.1, List.lookup_nil] at hkept
                  exact hkept
                · simpa [Untyped.member?] using hkept
              · simpa [Untyped.member?] using lookup_scrubMembers metadata hkey
          | _ => simp [scrub, scrubMember, Untyped.member?]
  | _ => rfl

variable {log : List (Exchange Sessions)} {keys : List JsString} {value : JsonValue JsNumber}

theorem OwnMarker.clean (h : OwnMarker value) : NoPrivateMeta value := by
  induction h with
  | outcome outcome terminalAuditDelivered =>
      have hmarker : NoPrivateMeta (.object [(js "terminal", .bool true),
          (js "outcome", .string outcome.text)]) := by
        refine noPrivateMeta_members_of fun member hmem => ?_
        obtain rfl | hmem := List.mem_cons.mp hmem
        · exact ⟨(by decide : js "terminal" ≠ js "_meta"), .bool true⟩
        · obtain rfl := List.mem_singleton.mp hmem
          exact ⟨(by decide : js "outcome" ≠ js "_meta"), .string _⟩
      cases terminalAuditDelivered with
      | true => exact hmarker
      | false => exact clean_degraded hmarker _
  | fresh => exact clean_degraded cleanMeta_nil.clean _
  | added _ _ ih => exact clean_degraded ih _

theorem Produced.clean (h : Produced log key value) : NoPrivateMeta value := by
  cases h with
  | proof => exact clean_proof _
  | proofError => exact .string _
  | audit hmarker => exact hmarker.clean

theorem not_private_of_own (hkey : key ∈ ownMetaKeys) :
    key ∉ privateMetaKeys ∧ key ≠ js "_meta" := by
  have hall : ∀ key ∈ ownMetaKeys, key ∉ privateMetaKeys ∧ key ≠ js "_meta" := by decide
  exact hall key hkey

theorem own_scrubRoot {root : ToolResult} (h : Own log keys root) :
    OwnUnder log keys (metaOf (scrubRoot keepEmptyMeta root)) := by
  intro key hkey value hvalue
  obtain ⟨hprivate, hname⟩ := not_private_of_own (h.within hkey)
  rw [member?_scrubRoot h.single (by simpa [isPrivate] using hprivate) hname] at hvalue
  obtain ⟨old, hold, rfl⟩ := Option.map_eq_some_iff.mp hvalue
  have hproduced := h.own key hkey old hold
  rwa [scrub_clean hproduced.clean]

theorem single_array (items : List (JsonValue JsNumber)) : SingleMeta (.array items) := by
  have hnone : js "_meta" ∉ (indexedMembers items).map Prod.fst := by
    intro hmem
    obtain ⟨member, hmember, hname⟩ := List.mem_map.mp hmem
    obtain ⟨⟨n, hn⟩, -⟩ := mem_indexedMembers hmember
    exact ne_index isNamed_meta n (hn.symm.trans hname)
  exact (List.count_eq_zero_of_not_mem hnone).trans_le (Nat.zero_le 1)

theorem single_scrubRoot {root : ToolResult} (h : SingleMeta root) :
    SingleMeta (scrubRoot keepEmptyMeta root) := by
  cases root with
  | object members => exact ((names_scrubRoot members).count_le _).trans h
  | array items => exact single_array _
  | _ => exact h

theorem single_tryWithoutMetaKeys {result kept : ToolResult} {keys : List JsString}
    (h : tryWithoutMetaKeys result keys keepEmptyMeta = .ok kept) (hsingle : SingleMeta result) :
    SingleMeta kept := by
  rw [tryWithoutMetaKeys] at h
  split at h
  · split_ifs at h
    cases h
    exact hsingle
  · cases h
    cases result with
    | object members =>
        rw [withoutMetaKeys]
        split
        · dsimp only
          split_ifs
          · exact single_assign _ _ hsingle
          · exact ((List.filter_sublist.map Prod.fst).count_le _).trans hsingle
          · exact hsingle
        · exact hsingle
    | _ => exact hsingle

variable {numbers : Doubles JsNumber} {root : ToolResult} {stamp : Option JsString}
  {found : Scrubbed}

theorem scrubPrivateMeta_value
    (h : scrubPrivateMeta numbers root stamp keepEmptyMeta = .ok found) :
    found.value = scrubRoot keepEmptyMeta root ∨
      tryWithoutMetaKeys root privateMetaKeys keepEmptyMeta = .ok found.value := by
  obtain ⟨shallow, hshallow, h⟩ := bind_eq_ok.mp h
  cases shallow with
  | none =>
      cases h
      exact .inl rfl
  | some found' =>
      cases h
      cases root with
      | object members =>
          rw [scrubShallow] at hshallow
          split_ifs at hshallow
          · obtain ⟨value, hvalue, hfound⟩ := bind_eq_ok.mp hshallow
            cases hfound
            exact .inr hvalue
          · cases hshallow
      | _ => cases hshallow

theorem single_scrubbed (h : scrubPrivateMeta numbers root stamp keepEmptyMeta = .ok found)
    (hsingle : SingleMeta root) : SingleMeta found.value := by
  obtain hvalue | hvalue := scrubPrivateMeta_value h
  · rw [hvalue]
    exact single_scrubRoot hsingle
  · exact single_tryWithoutMetaKeys hvalue hsingle

/-- Scrubbing takes private members, not the middleware's own. -/
theorem own_scrubbed (h : scrubPrivateMeta numbers root stamp keepEmptyMeta = .ok found)
    (hown : Own log keys root) : Own log keys found.value where
  own := by
    obtain hvalue | hvalue := scrubPrivateMeta_value h
    · rw [hvalue]
      exact own_scrubRoot hown
    · intro key hkey value hmember
      rw [member?_tryWithoutMetaKeys_of_not_mem hvalue
        (not_private_of_own (hown.within hkey)).1] at hmember
      exact hown.own key hkey value hmember
  single := single_scrubbed h hown.single
  within := hown.within

end Scrubbing

section Lookups

variable {config : SessionConfig} {log : List (Exchange Sessions)} {sent returned : Returned}

/-- A session that was looked up and found. -/
def IsFound (exchange : Exchange Sessions) : Prop :=
  ∃ sessionId session, exchange = ⟨.getSession sessionId, .ok (some session)⟩

def IsLookup : SessionRequest → Prop
  | .getSession _ => True
  | _ => False

/-- A call that looks no session up. -/
abbrev Lookless {α : Type} (p : SessionM α) : Prop := p.Only fun request => ¬ IsLookup request

theorem not_found_of_lookless {α : Type} {p : SessionM α} {result : Except Error α}
    (h : Lookless p) (hruns : p.Runs log result) : ∀ exchange ∈ log, ¬ IsFound exchange := by
  rintro exchange hmem ⟨sessionId, session, rfl⟩
  exact h.requests hruns _ hmem trivial

theorem not_found_of_ask {request : SessionRequest} {answer : Except Error request.Answer}
    (hruns : (Async.ask (I := Sessions) request).Runs log answer) (h : ¬ IsLookup request) :
    ∀ exchange ∈ log, ¬ IsFound exchange :=
  not_found_of_lookless (only_ask h) hruns

theorem emitAudit_lookless (event : SessionEvent) : Lookless (emitAudit config event) := by
  rw [emitAudit]
  split_ifs
  · exact Only.tryCatch (Only.bind (only_ask not_false) fun _ => only_pure) fun _ => only_pure
  · exact only_pure

theorem emitBoth_lookless (first second : SessionEvent) :
    Lookless (emitBoth config first second) := by
  refine Only.bind (emitAudit_lookless first) fun delivered => ?_
  split_ifs
  · exact emitAudit_lookless second
  · exact only_pure

theorem closeTaken_lookless (pending : PendingProof) (verificationCode : JsString) :
    Lookless (closeTaken config pending verificationCode) := by
  cases pending with
  | outcome pending =>
      rw [closeTaken]
      split_ifs
      · exact Only.bind (emitAudit_lookless _) fun _ => only_pure
      · exact only_pure
  | allowed pending => exact Only.bind (emitBoth_lookless _ _) fun _ => only_pure

theorem unprovenAtSend_lookless (pending : PendingProof) (verificationCode : JsString) :
    Lookless (unprovenAtSend config sent pending verificationCode) := by
  refine only_ofExcept.bind fun unproven => ?_
  cases pending with
  | outcome pending =>
      dsimp only
      split_ifs
      · exact Only.bind (emitAudit_lookless _) fun _ => only_pure
      · exact only_pure
  | allowed pending => exact Only.bind (emitBoth_lookless _ _) fun _ => only_pure

theorem sendExpired_lookless (named : JsonValue JsNumber) :
    Lookless (sendExpired config named sent) := by
  refine Only.bind ?_ fun _ => Only.bind (emitAudit_lookless _) fun _ => only_ofExcept
  cases named with
  | string id => exact only_ask not_false
  | _ => exact only_pure

theorem sendLeaked_lookless (named : JsonValue JsNumber) :
    Lookless (sendLeaked config (some named) sent) := by
  refine Only.bind ?_ fun taken => ?_
  · cases named with
    | string id => exact only_ask not_false
    | _ => exact only_pure
  · cases taken with
    | some own => exact unprovenAtSend_lookless own _
    | none => exact only_ofExcept

theorem scrubOutgoing_lookless (value : JsonValue JsNumber) :
    Lookless (scrubOutgoing config value) :=
  only_ofExcept.bind fun _ => Only.bind (only_ask not_false) fun _ => only_pure

end Lookups

section Sending

variable {config : SessionConfig} {id : JsString} {log : List (Exchange Sessions)}
  {keys : List JsString} {sent returned : Returned} {session : SessionContext}

theorem mem_of_ask {first rest : List (Exchange Sessions)} {request : SessionRequest}
    {answer : Except Error request.Answer} (hlog : log = first ++ rest)
    (hasked : (Async.ask (I := Sessions) request).Runs first answer) :
    ⟨request, answer⟩ ∈ log := by
  rw [hlog, runs_ask.mp hasked]
  exact List.mem_append_left rest (List.mem_singleton_self _)

theorem own_withProofMeta {metadata : Members JsNumber} {request : ToolRequest JsNumber}
    {response : Option (ToolResponse JsNumber)} {options : ProofOptions} {proof : DetachedProof}
    (h : OwnUnder log keys (some (.object metadata)))
    (hminted : ⟨.generateProof id request response session options, .ok proof⟩ ∈ log) :
    OwnUnder log keys (some (.object (withProofMeta config metadata proof))) := by
  have hplaced := @OwnUnder.assign log keys metadata kyaOsProofMetaKey proof.toValue h
    fun _ => .proof (by simp) hminted
  rw [withProofMeta]
  split_ifs
  · exact hplaced.assign fun _ => .proof (by simp) hminted
  · exact hplaced

/-- Where an allowed call's proof is made or fails, nothing relayed stays. -/
theorem proveAllowedCall_own (hsingle : SingleMeta sent.value) {pending : PendingAllowedProof}
    (hruns : (proveAllowedCall config id sent pending session).Runs log (.ok returned)) :
    Own log ownMetaKeys returned.value := by
  obtain ⟨_, hbody, hreturned⟩ | ⟨first, rest, e, rfl, -, hfailed⟩ := runs_tryCatch.mp hruns
  · cases hreturned
    obtain ⟨first, rest, proof, hlog, hasked, hsigned⟩ := runs_bind_ok.mp hbody
    have hminted := mem_of_ask hlog hasked
    obtain ⟨_, _, kept, -, hkept, hrecorded⟩ := runs_bind_ok.mp hsigned
    obtain ⟨-, hkept⟩ := runs_ofExcept.mp hkept
    have hmembers : OwnUnder log ownMetaKeys (some (.object kept)) := own_handlerMeta hkept.symm
    have hproved : Own log ownMetaKeys
        (withMetadata sent (withProofMeta config kept proof)).value :=
      own_withMetadata hsingle (List.Subset.refl _) (own_withProofMeta hmembers hminted)
    obtain ⟨_, _, delivered, -, -, hdelivered⟩ := runs_bind_ok.mp hrecorded
    split_ifs at hdelivered
    · obtain ⟨_, _, _, -, -, hlogged⟩ := runs_bind_ok.mp hdelivered
      obtain ⟨-, hreturned⟩ := runs_pure.mp hlogged
      cases hreturned
      exact hproved
    · obtain ⟨-, hreturned⟩ := runs_pure.mp hdelivered
      cases hreturned
      exact hproved.degraded (by simp [degradedReasons]) true
  · exact allowedProofFailed_own hsingle hfailed

/-- What an outcome's proof is set on stays. -/
theorem proveAuthorizationOutcome_own (h : Own [] keys sent.value)
    {pending : PendingOutcomeProof}
    (hruns : (proveAuthorizationOutcome config id sent pending session).Runs log (.ok returned)) :
    Own log keys returned.value := by
  obtain ⟨_, hbody, hreturned⟩ | ⟨first, rest, e, rfl, -, hfailed⟩ := runs_tryCatch.mp hruns
  · cases hreturned
    obtain ⟨first, rest, proof, hlog, hasked, hrecorded⟩ := runs_bind_ok.mp hbody
    have hminted := mem_of_ask hlog hasked
    have hmembers := (h.own.mono (List.nil_subset log)).spread h.within
    have hproved : Own log keys (withMetadata sent
        (withProofMeta config (metaMembers sent) proof)).value :=
      own_withMetadata h.single h.within (own_withProofMeta hmembers hminted)
    rw [recordOutcome] at hrecorded
    split_ifs at hrecorded
    · obtain ⟨_, _, delivered, -, -, hdelivered⟩ := runs_bind_ok.mp hrecorded
      obtain ⟨-, hreturned⟩ := runs_pure.mp hdelivered
      cases hreturned
      split_ifs
      · exact hproved
      · exact hproved.degraded (by simp [degradedReasons]) _
    · obtain ⟨-, hreturned⟩ := runs_pure.mp hrecorded
      cases hreturned
      exact hproved
  · obtain ⟨_, _, _, -, -, hmarked⟩ := runs_bind_ok.mp hfailed
    obtain ⟨-, hmark⟩ := runs_ofExcept.mp hmarked
    exact (h.mono (List.nil_subset _)).unproven hmark.symm

theorem unprovenAtSend_marks {pending : PendingProof} {verificationCode : JsString}
    (hruns : (unprovenAtSend config sent pending verificationCode).Runs log (.ok returned)) :
    markUnproven sent = .ok returned := by
  obtain ⟨_, _, unproven, -, hmarked, hruns⟩ := runs_bind_ok.mp hruns
  obtain ⟨-, hmark⟩ := runs_ofExcept.mp hmarked
  have hreturned : returned = unproven := by
    cases pending with
    | outcome pending =>
        dsimp only at hruns
        split_ifs at hruns
        · obtain ⟨_, _, _, -, -, hruns⟩ := runs_bind_ok.mp hruns
          exact Except.ok.inj (runs_pure.mp hruns).2
        · exact Except.ok.inj (runs_pure.mp hruns).2
    | allowed pending =>
        obtain ⟨_, _, _, -, -, hruns⟩ := runs_bind_ok.mp hruns
        exact Except.ok.inj (runs_pure.mp hruns).2
  rw [hreturned]
  exact hmark.symm

theorem sendExpired_marks {named : JsonValue JsNumber}
    (hruns : (sendExpired config named sent).Runs log (.ok returned)) :
    markUnproven sent = .ok returned := by
  obtain ⟨_, _, _, -, -, hruns⟩ := runs_bind_ok.mp hruns
  obtain ⟨_, _, _, -, -, hruns⟩ := runs_bind_ok.mp hruns
  exact (runs_ofExcept.mp hruns).2.symm

theorem sendLeaked_marks {named : JsonValue JsNumber}
    (hruns : (sendLeaked config (some named) sent).Runs log (.ok returned)) :
    markUnproven sent = .ok returned := by
  obtain ⟨_, _, taken, -, -, hnext⟩ := runs_bind_ok.mp hruns
  cases taken with
  | some own => exact unprovenAtSend_marks hnext
  | none => exact (runs_ofExcept.mp hnext).2.symm

/-- How a result that names a proof is sent: its session is found only where the proof is
made. -/
inductive SentNaming (config : SessionConfig) (log : List (Exchange Sessions))
    (sent returned : Returned) : Prop
  | unproven (hunfound : ∀ exchange ∈ log, ¬ IsFound exchange)
      (hmark : markUnproven sent = .ok returned)
  | allowed (hown : Own log ownMetaKeys returned.value)
  | outcome {id : JsString} {pending : PendingOutcomeProof} {session : SessionContext}
      {rest : List (Exchange Sessions)}
      (htaken : ⟨.takePendingProof id, .ok (some (.outcome pending))⟩ ∈ log)
      (hrest : rest ⊆ log)
      (hruns : (proveAuthorizationOutcome config id sent pending session).Runs rest (.ok returned))

theorem SentNaming.mono {log' : List (Exchange Sessions)} (h : SentNaming config log sent returned)
    (hlog : log ⊆ log') (hfound : ∀ exchange ∈ log', IsFound exchange → exchange ∈ log) :
    SentNaming config log' sent returned := by
  cases h with
  | unproven hunfound hmark =>
      refine .unproven (fun exchange hmem hisFound => ?_) hmark
      exact hunfound exchange (hfound exchange hmem hisFound) hisFound
  | allowed hown => exact .allowed (hown.mono hlog)
  | outcome htaken hrest hruns => exact .outcome (hlog htaken) (List.Subset.trans hrest hlog) hruns

/-- A lookup that finds no session, or throws. -/
theorem not_found_of_missing {sessionId : JsString}
    (hruns : (tryCatch (Async.ask (I := Sessions) (.getSession sessionId)) fun _ =>
      (pure none : SessionM (Option SessionContext))).Runs log (.ok none)) :
    ∀ exchange ∈ log, ¬ IsFound exchange := by
  rintro _ hmem ⟨found, session, rfl⟩
  obtain ⟨_, hasked, hanswer⟩ | ⟨first, rest, e, rfl, hthrown, hreturned⟩ := runs_tryCatch.mp hruns
  · cases hanswer
    rw [runs_ask.mp hasked] at hmem
    cases List.mem_singleton.mp hmem
  · rw [runs_ask.mp hthrown, (runs_pure.mp hreturned).1] at hmem
    cases List.mem_singleton.mp hmem

theorem not_found_append {first rest : List (Exchange Sessions)}
    (hfirst : ∀ exchange ∈ first, ¬ IsFound exchange)
    (hrest : ∀ exchange ∈ rest, ¬ IsFound exchange) :
    ∀ exchange ∈ first ++ rest, ¬ IsFound exchange := by
  intro exchange hmem
  obtain hmem | hmem := List.mem_append.mp hmem
  · exact hfirst exchange hmem
  · exact hrest exchange hmem

theorem sendNaming_sent (hsingle : SingleMeta sent.value) {named : JsonValue JsNumber}
    {answering : Option JsString}
    (hruns : (sendNaming config named sent answering).Runs log (.ok returned)) :
    SentNaming config log sent returned := by
  cases named with
  | string id =>
      obtain ⟨taking, rest, taken, hlog, htaken, hredeem⟩ := runs_bind_ok.mp hruns
      have htook := mem_of_ask hlog htaken
      have htaking : ∀ exchange ∈ taking, ¬ IsFound exchange :=
        not_found_of_ask htaken not_false
      subst hlog
      cases taken with
      | none =>
          exact .unproven (not_found_append htaking
            (not_found_of_lookless (sendExpired_lookless _) hredeem)) (sendExpired_marks hredeem)
      | some pending =>
          have hredeem : (redeem config id sent pending answering).Runs rest (.ok returned) :=
            hredeem
          rw [redeem] at hredeem
          split_ifs at hredeem
          · have hclosed := not_found_of_lookless
              ((closeTaken_lookless pending _).bind fun _ => only_ofExcept) hredeem
            obtain ⟨_, _, _, -, -, hmarked⟩ := runs_bind_ok.mp hredeem
            exact .unproven (not_found_append htaking hclosed) (runs_ofExcept.mp hmarked).2.symm
          · obtain ⟨looking, after, session, rfl, hlooked, hproves⟩ := runs_bind_ok.mp hredeem
            have hsub : after ⊆ taking ++ (looking ++ after) :=
              List.Subset.trans (List.subset_append_right _ _) (List.subset_append_right _ _)
            cases session with
            | none =>
                exact .unproven (not_found_append htaking (not_found_append
                  (not_found_of_missing hlooked)
                  (not_found_of_lookless (unprovenAtSend_lookless pending _) hproves)))
                  (unprovenAtSend_marks hproves)
            | some session =>
                cases pending with
                | allowed pending =>
                    exact .allowed ((proveAllowedCall_own hsingle hproves).mono hsub)
                | outcome pending => exact .outcome htook hsub hproves
  | _ =>
      exact .unproven (not_found_of_lookless (sendExpired_lookless _) hruns)
        (sendExpired_marks hruns)

theorem SentNaming.own (h : SentNaming config log sent returned) (hown : Own [] keys sent.value) :
    Own log keys returned.value := by
  cases h with
  | unproven _ hmark => exact (hown.mono (List.nil_subset log)).unproven hmark
  | allowed hown' => exact hown'.under hown.within
  | outcome _ hrest hruns => exact (proveAuthorizationOutcome_own hown hruns).mono hrest

/-- Of the proof of an allowed call nothing relayed stays beside it; a result left without it
may keep a relayed audit marker. -/
theorem SentNaming.redeemed {key : JsString} (hkey : key ∈ ownMetaKeys)
    (h : SentNaming config log sent returned)
    (hallowed : ∀ id pending, ⟨.takePendingProof id, .ok (some (.outcome pending))⟩ ∉ log)
    (hfound : key = auditMetaKey → ∃ exchange ∈ log, IsFound exchange) :
    OwnUnder log [key] (metaOf returned.value) := by
  cases h with
  | unproven hunfound hmark =>
      refine ownUnder_markUnproven hmark (single_within hkey) fun haudit => ?_
      obtain ⟨exchange, hmem, hisFound⟩ := hfound (List.mem_singleton.mp haudit).symm
      exact absurd hisFound (hunfound exchange hmem)
  | allowed hown => exact (hown.under (single_within hkey)).own
  | outcome htaken => exact absurd htaken (hallowed _ _)

variable {result value : ToolResult} {answering : Option JsString}

/-- A result that names no proof is sent as it was scrubbed. -/
theorem sendResult_naming (hsingle : SingleMeta result)
    (hruns : (sendResult config result answering).Runs log (.ok value)) :
    ∃ found, scrubPrivateMeta config.numbers result (some config.lifecycleStamp)
        (ownPending config result).isSome = .ok found ∧
      (ownPending config result = none ∧ value = found.value ∨
        ∃ returned, value = returned.value ∧
          SentNaming config log ⟨found.value, false⟩ returned) := by
  obtain ⟨_, _, found, hlog, hscrub, hclosed⟩ := runs_bind_ok.mp hruns
  obtain ⟨rfl, hscrubbed⟩ := runs_ofExcept.mp hscrub
  obtain ⟨closing, _, _, hrest, hclosing, hsending⟩ := runs_bind_ok.mp hclosed
  obtain ⟨sending, _, returned, hsent, hsends, hvalue⟩ := runs_bind_ok.mp hsending
  obtain ⟨rfl, hvalue⟩ := runs_pure.mp hvalue
  cases hvalue
  have hlog : log = closing ++ sending := by
    rw [hlog, hrest, hsent, List.nil_append, List.append_nil]
  have hsub : sending ⊆ log := hlog ▸ List.subset_append_right closing sending
  have hfound : ∀ exchange ∈ log, IsFound exchange → exchange ∈ sending := by
    intro exchange hmem hisFound
    refine (List.mem_append.mp (hlog ▸ hmem)).resolve_left fun hmem => ?_
    exact not_found_of_ask hclosing not_false exchange hmem hisFound
  refine ⟨found, hscrubbed.symm, ?_⟩
  cases hid : ownPending config result with
  | none =>
      rw [hid] at hsends
      obtain ⟨-, rfl⟩ := sendScrubbed_unnamed hsends
      exact .inl ⟨rfl, rfl⟩
  | some named =>
      have hscrubbed := single_scrubbed hscrubbed.symm hsingle
      rw [hid, sendScrubbed] at hsends
      refine .inr ⟨returned, rfl, SentNaming.mono ?_ hsub hfound⟩
      split_ifs at hsends
      · exact .unproven (not_found_of_lookless (sendLeaked_lookless named) hsends)
          (sendLeaked_marks hsends)
      · exact sendNaming_sent hscrubbed hsends

theorem sendResult_own (h : Own [] keys result)
    (hruns : (sendResult config result answering).Runs log (.ok value)) : Own log keys value := by
  obtain ⟨found, hscrub, hsent⟩ := sendResult_naming h.single hruns
  have hfound := own_scrubbed hscrub h
  obtain ⟨-, rfl⟩ | ⟨returned, rfl, hnaming⟩ := hsent
  · exact hfound.mono (List.nil_subset log)
  · exact hnaming.own hfound

theorem sendResult_redeemed {key : JsString} (hkey : key ∈ ownMetaKeys)
    (hsingle : SingleMeta result) (hnamed : (ownPending config result).isSome)
    (hallowed : ∀ id pending, ⟨.takePendingProof id, .ok (some (.outcome pending))⟩ ∉ log)
    (hfound : key = auditMetaKey → ∃ exchange ∈ log, IsFound exchange)
    (hruns : (sendResult config result answering).Runs log (.ok value)) :
    OwnUnder log [key] (metaOf value) := by
  obtain ⟨found, hscrub, ⟨hnone, -⟩ | ⟨returned, rfl, hnaming⟩⟩ := sendResult_naming hsingle hruns
  · rw [hnone] at hnamed
    cases hnamed
  · exact hnaming.redeemed hkey hallowed hfound

end Sending

end KyaOs.Middleware
