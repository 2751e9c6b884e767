import KyaOs.Audit.TrailProtocol

/-!
# What the requests of a trail keep

A claim is the next place, or that of an event emitted before; what is constructed for it is
emitted there, and what is delivered was emitted.
-/

namespace KyaOs.Audit

open Js Concurrency

variable {D ι : Type}

section Protocol

variable {config : AuditTrailConfiguration D} {c : ι} {w w' w'' : TrailWorld D ι × TrailGhost ι}
  {emitted : List (JsString × Digest)} {claiming : Option (ι × JsString)}
  {event : AuditProducerEvent D}

/-- A request that changes nothing. -/
theorem contract_trailKeep {request : TrailRequest D ι} {P : TrailGhost ι → Prop}
    (hP : Steady D c P) (fits : Except AuditError request.Answer → Prop)
    (hserve : ∀ world answer world', serveTrail config request world answer world' →
      fits answer ∧ world' = world) :
    (trailProtocol config).Contract c (fun w => P w.2) (trailReply request)
      fun answer w => fits answer ∧ P w.2 := by
  refine contract_trailReply _ hP (fun _ => steady_const.and hP) ?_
  intro world ghost answer world' hinv hpre hserves
  obtain ⟨hfits, rfl⟩ := hserve world answer world' hserves
  exact ⟨⟨hfits, hpre⟩, hinv, rfl⟩

theorem contract_hashEvent {P : TrailGhost ι → Prop} (hP : Steady D c P) :
    (trailProtocol config).Contract c (fun w => P w.2) (trailReply (.hash event))
      fun answer w => (∀ digest : Digest, answer = .ok digest →
        digestAuditEvent config.runtime.numbers config.runtime.sha256 event = .ok digest) ∧ P w.2 :=
  contract_trailKeep hP _ fun _ _ _ hserves => hserves

/-- A receipt for an event that was emitted, or of another source. -/
theorem contract_markReceipted {sourceId : JsString} {P : TrailGhost ι → Prop} (hP : Steady D c P)
    (hemitted : ∀ ghost, P ghost → sourceId = config.sourceId →
      ∃ place, EmittedAt config ghost.emitted place event) :
    (trailProtocol config).Contract c (fun w => P w.2)
      (trailReply (.markReceipted sourceId (textAt event ["source", "sourceSequence"])))
      fun _ w => P w.2 := by
  refine contract_trailReply _ hP (fun _ => hP) ?_
  rintro world ghost answer world' hinv hpre (⟨error, -, rfl⟩ | ⟨-, rfl⟩)
  · exact ⟨hpre, hinv, rfl⟩
  · refine ⟨hpre, Trailing.setSource (w := (world, ghost)) hinv ?_, rfl⟩
    rintro rfl
    obtain ⟨place, hplace⟩ := hemitted ghost hpre rfl
    exact hinv.follows.markReceipted hplace.receiptable _

theorem MayFail.state_cases {α σ : Type} {state state' : σ} {done : Except AuditError α × σ}
    {answer : Except AuditError α} (h : MayFail state done answer state') :
    state' = state ∨ state' = done.2 := by
  obtain ⟨_, -, rfl⟩ | ⟨-, rfl⟩ := h
  · exact .inl rfl
  · exact .inr rfl

/-- An outbox request, of an item that was emitted. -/
theorem contract_outbox {request : TrailRequest D ι} {P : TrailGhost ι → Prop} (hP : Steady D c P)
    (call : OutboxCall D)
    (hserve : ∀ world answer world', serveTrail config request world answer world' →
      world' = world ∨
        world' = world.setOutbox (call.run config.runtime.numbers world.outbox).2)
    (hcall : ∀ ghost item, P ghost → call = .enqueue item →
      ∃ place, EmittedAt config ghost.emitted place item.submission.producerEvent) :
    (trailProtocol config).Contract c (fun w => P w.2) (trailReply request)
      fun _ w => P w.2 := by
  refine contract_trailReply _ hP (fun _ => hP) ?_
  intro world ghost answer world' hinv hpre hserves
  obtain rfl | rfl := hserve world answer world' hserves
  · exact ⟨hpre, hinv, rfl⟩
  · exact ⟨hpre, Trailing.callOutbox (w := (world, ghost)) hinv call
      (fun item hitem _ => hcall ghost item hpre hitem), rfl⟩

/-- How a claim stands to what was emitted: it is the next sequence, claimed by the call, or that
of an event emitted before. -/
def ClaimHeld (c : ι) (eventId : JsString) (emitted : List (JsString × Digest))
    (claiming : Option (ι × JsString)) (place : Nat) : Prop :=
  claiming = some (c, eventId) ∧ place = emitted.length ∨
    claiming = none ∧ ∃ eventDigest, emitted[place]? = some (eventId, eventDigest)

/-- The construction is over: the source claims nothing, and the event was emitted. -/
structure Constructed (config : AuditTrailConfiguration D) (c : ι)
    (result : Except AuditError (AuditProducerEvent D)) (ghost : TrailGhost ι) : Prop where
  locks : ∃ emitted, Locks c emitted none ghost
  emitted : ∀ event, result = .ok event → ∃ place, EmittedAt config ghost.emitted place event

variable {eventId : JsString} {place : Nat}

theorem contract_claimEvent :
    (trailProtocol config).Contract c (fun w => Locks c emitted none w.2)
      (trailReply (.claimEvent eventId)) fun answer w => ∃ claiming place,
        (answer = .ok ⟨place + 1, linkAt emitted place⟩ ∧
          ClaimHeld c eventId emitted claiming place) ∧ Locks c emitted claiming w.2 := by
  refine .ask ?_ fun _ => trail_guarantee_refl
  rintro w asked - hlocks hasked hrely answer world' ⟨rfl, rfl⟩
  obtain ⟨⟨after, hhead⟩, rfl, hclaiming⟩ := TrailRely.locks hrely hlocks
  have hfollows := hasked.follows
  rw [hclaiming] at hfollows
  obtain ⟨claiming, place, hfollows', hclaim, hheld⟩ := hfollows.claimEvent eventId
  refine ⟨{ asked.2 with claiming := claiming.map (c, ·) }, ?_,
    trail_guarantee_of_head hhead rfl rfl ?_ List.prefix_rfl, ?_⟩
  · refine Trailing.setOwnSource hasked ?_ ?_ List.prefix_rfl
    · rw [Option.map_map, show claiming.map (Prod.snd ∘ (c, ·)) = claiming from Option.map_id' ..]
      exact hfollows'
    · intro claimer hclaimer
      obtain ⟨_, -, rfl⟩ := Option.map_eq_some_iff.mp hclaimer
      exact ⟨after, hhead⟩
  · intro claimer hclaimer
    obtain ⟨_, -, rfl⟩ := Option.map_eq_some_iff.mp hclaimer
    rfl
  · intro resumed _ hrely'
    refine ⟨claiming.map (c, ·), place, ⟨congrArg Except.ok hclaim, ?_⟩,
      TrailRely.locks hrely' ⟨⟨after, hhead⟩, rfl, rfl⟩⟩
    obtain ⟨rfl, hplace⟩ | ⟨rfl, hplace⟩ := hheld
    · exact .inl ⟨rfl, hplace⟩
    · exact .inr ⟨rfl, hplace⟩

theorem contract_markEmitted (hheld : ClaimHeld c eventId emitted claiming place)
    (eventDigest : Digest) :
    (trailProtocol config).Contract c (fun w => Locks c emitted claiming w.2)
      (trailReply (.markEmitted eventId (place + 1) eventDigest)) fun answer w =>
        (∃ error, answer = .error error ∧ Locks c emitted claiming w.2) ∨
          answer = .ok () ∧ ∃ emitted', Locks c emitted' none w.2 ∧
            emitted'[place]? = some (eventId, eventDigest) ∧
            linkAt emitted' place = linkAt emitted place := by
  refine .ask ?_ fun _ => trail_guarantee_refl
  rintro w asked - hlocks hasked hrely answer world' ⟨rfl, rfl⟩
  obtain ⟨⟨after, hhead⟩, rfl, hclaiming⟩ := TrailRely.locks hrely hlocks
  have hfollows := hasked.follows
  rw [hclaiming] at hfollows
  obtain ⟨rfl, rfl⟩ | ⟨rfl, -⟩ := hheld
  · obtain ⟨hmarked, hfollows'⟩ := hfollows.markEmitted_next eventDigest
    refine ⟨{ asked.2 with
        emitted := asked.2.emitted ++ [(eventId, eventDigest)]
        claiming := none },
      Trailing.setOwnSource hasked hfollows' (by rintro _ ⟨⟩) (List.prefix_append _ _),
      trail_guarantee_of_head hhead rfl rfl nofun (List.prefix_append _ _), ?_⟩
    intro resumed _ hrely'
    exact .inr ⟨hmarked, _, TrailRely.locks hrely' ⟨⟨after, hhead⟩, rfl, rfl⟩,
      List.getElem?_concat_length, linkAt_append le_rfl _⟩
  · obtain ⟨hfollows', hmarked⟩ := hfollows.markEmitted_again eventId place eventDigest
    refine ⟨asked.2, ?_, trail_guarantee_of_eq rfl rfl, ?_⟩
    · refine ⟨hasked.lined, ?_, hasked.claimer, hasked.outbox⟩
      rw [TrailWorld.sources_setSource, Function.update_self, hclaiming]
      exact hfollows'
    · intro resumed _ hrely'
      have hlocks' := TrailRely.locks hrely' ⟨⟨after, hhead⟩, rfl, hclaiming⟩
      cases hanswer : ((asked.1.sources config.sourceId).markEmitted eventId (place + 1)
          eventDigest).1 with
      | error error => exact .inl ⟨error, rfl, hlocks'⟩
      | ok _ => exact .inr ⟨rfl, _, hlocks', hmarked hanswer, rfl⟩

theorem contract_abandonClaim (hheld : ClaimHeld c eventId emitted claiming place) :
    (trailProtocol config).Contract c (fun w => Locks c emitted claiming w.2)
      (trailReply (.abandonClaim eventId (place + 1))) fun _ w => Locks c emitted none w.2 := by
  refine .ask ?_ fun _ => trail_guarantee_refl
  rintro w asked - hlocks hasked hrely answer world' ⟨rfl, rfl⟩
  obtain ⟨⟨after, hhead⟩, rfl, hclaiming⟩ := TrailRely.locks hrely hlocks
  have hfollows := hasked.follows
  rw [hclaiming] at hfollows
  have hfollows' : ((asked.1.sources config.sourceId).abandonClaim eventId (place + 1)).Follows
      asked.2.emitted none := by
    obtain ⟨rfl, rfl⟩ | ⟨rfl, -⟩ := hheld
    · exact hfollows.abandonClaim (.inl ⟨rfl, rfl⟩)
    · exact hfollows.abandonClaim (.inr rfl)
  refine ⟨{ asked.2 with claiming := none },
    Trailing.setOwnSource hasked hfollows' (by rintro _ ⟨⟩) List.prefix_rfl,
    trail_guarantee_of_head hhead rfl rfl nofun List.prefix_rfl, ?_⟩
  intro resumed _ hrely'
  exact TrailRely.locks hrely' ⟨⟨after, hhead⟩, rfl, rfl⟩

theorem constructed_error {error : AuditError} {ghost : TrailGhost ι}
    (h : Locks c emitted none ghost) : Constructed config c (.error error) ghost :=
  ⟨⟨emitted, h⟩, nofun⟩

/-- A claim is emitted or given up. -/
theorem contract_linkEvent (hheld : ClaimHeld c eventId emitted claiming place)
    (input : Members D) (occurredAt : JsonValue D) :
    (trailProtocol config).Contract c (fun w => Locks c emitted claiming w.2)
      (linkEvent config input eventId occurredAt ⟨place + 1, linkAt emitted place⟩)
      fun result w => Constructed config c result w.2 := by
  have hbuilt : (trailProtocol config).Contract c (fun w => Locks c emitted claiming w.2)
      (do
        let event ← Async.ofExcept (buildEvent config input eventId occurredAt
          ⟨place + 1, linkAt emitted place⟩)
        let eventDigest ← trailReply (.hash event)
        trailReply (.markEmitted eventId (place + 1) eventDigest)
        return event)
      fun result w => match result with
        | .ok _ => Constructed config c result w.2
        | .error _ => Locks c emitted claiming w.2 := by
    refine .check ?_ fun _ _ _ _ hlocks => hlocks
    intro event hevent
    obtain ⟨heventId, hsequence, hprevious⟩ := buildEvent_ok hevent
    refine .bind (contract_hashEvent steady_locks) ?_ fun _ _ _ h => h.2
    intro eventDigest
    refine .of_pre (fun _ _ h => h.1 eventDigest rfl) fun hdigest => ?_
    refine .bind ((contract_markEmitted hheld eventDigest).mono_pre fun _ _ h => h.2) ?_ ?_
    · intro _
      refine .pure ?_
      rintro w - (⟨_, hthrown, -⟩ | ⟨-, emitted', hlocks, hplace, hlink⟩)
      · cases hthrown
      · refine ⟨⟨emitted', hlocks⟩, ?_⟩
        intro built hbuilt
        obtain rfl := Except.ok.inj hbuilt
        rw [hlocks.emitted]
        exact ⟨place, ⟨eventDigest, heventId ▸ hplace, hdigest⟩, hsequence, hlink ▸ hprevious⟩
    · rintro error w - (⟨_, -, hlocks⟩ | ⟨hthrown, -⟩)
      · exact hlocks
      · cases hthrown
  refine .tryCatch hbuilt (fun _ _ _ h => h) ?_
  intro error
  exact .outcome_bind (contract_abandonClaim hheld) fun _ =>
    .throw fun _ _ hlocks => constructed_error hlocks

theorem contract_buildAndLinkEvent (input : Members D) (eventId : JsString)
    (evidence : List (EncryptedEvidenceInput D)) :
    (trailProtocol config).Contract c (fun w => Locks c emitted none w.2)
      (buildAndLinkEvent config input eventId evidence)
      fun result w => Constructed config c result w.2 := by
  refine .state fun world => ?_
  refine .check (fun provisional _ => ?_) fun _ _ _ _ h => constructed_error h.2
  refine .check (fun _ _ => ?_) fun _ _ _ _ h => constructed_error h.2
  refine .check (fun _ _ => ?_) fun _ _ _ _ h => constructed_error h.2
  refine .bind (contract_claimEvent.mono_pre fun _ _ h => h.2) ?_ ?_
  · intro claim
    refine .of_exists fun claiming => .of_exists fun place => ?_
    refine .of_pre (fun _ _ h => h.1) ?_
    rintro ⟨hclaim, hheld⟩
    obtain rfl := Except.ok.inj hclaim
    exact (contract_linkEvent hheld input _).mono_pre fun _ _ h => h.2
  · rintro error w - ⟨_, _, ⟨hthrown, -⟩, -⟩
    cases hthrown

/-- The construction of an event, buffered or not. -/
theorem contract_constructEvent (input : Members D) (eventId : JsString)
    (evidence : List (EncryptedEvidenceInput D)) :
    (trailProtocol config).Contract c (fun w => Locks c emitted none w.2)
      (constructEvent config input eventId evidence)
      fun result w => Constructed config c result w.2 := by
  refine .bind (contract_buildAndLinkEvent input eventId evidence) ?_ fun _ _ _ h =>
    ⟨h.locks, nofun⟩
  intro event
  by_cases hbuffered : config.delivery = .buffered
  · rw [if_pos hbuffered]
    refine .state fun world => ?_
    have hsteady : Steady D c (Constructed config c (.ok event)) := by
      rintro w w' ⟨⟨emitted, hlocks⟩, hemitted⟩ hrely
      refine ⟨⟨emitted, hrely.locks hlocks⟩, ?_⟩
      intro built hbuilt
      obtain ⟨place, hplace⟩ := hemitted built hbuilt
      exact ⟨place, hplace.mono hrely.grows⟩
    refine .bind ((contract_outbox hsteady (.enqueue
      { eventId := textAt event ["eventId"]
        submission := submissionOf config event evidence
        enqueuedAt := world.clock
        attempts := 0 }) ?_ ?_).mono_pre fun _ _ h => h.2) ?_ ?_
    · exact fun _ _ _ h => MayFail.state_cases h
    · rintro ghost item hconstructed ⟨⟩
      exact hconstructed.emitted event rfl
    · exact fun _ => .pure fun _ _ h => h
    · exact fun _ _ _ h => ⟨h.locks, nofun⟩
  · rw [if_neg hbuffered]
    exact .pure fun _ _ h => h

/-- The construction before this one has settled: this one has the lock. -/
theorem contract_previousConstruction {previous : Option ι} :
    (trailProtocol config).Contract c
      (fun w => Tails.Behind (w.2.queue ()) previous c ∧ ∀ claimer ∈ w.2.claiming, claimer.1 ≠ c)
      (trailReply (.previous previous))
      fun answer w => answer = .ok () ∧ ∃ emitted, Locks c emitted none w.2 := by
  refine .ask ?_ fun _ => trail_guarantee_refl
  rintro w asked - ⟨hbehind, hunclaimed⟩ hasked hrely answer world' ⟨rfl, hpass, rfl⟩
  refine ⟨asked.2, hasked, trail_guarantee_refl, ?_⟩
  intro resumed _ hrely'
  obtain ⟨after, hhead⟩ := hasked.lined.head (hbehind.advances hrely.advances) hpass
  -- who claims is the head, and this call does not claim
  have hnone : asked.2.claiming = none := by
    rw [Option.eq_none_iff_forall_not_mem]
    intro claimer hclaimer
    obtain ⟨rest, hrest⟩ := hasked.claimer claimer hclaimer
    exact hrely.unclaimed hunclaimed claimer hclaimer
      (List.cons.inj (hrest.symm.trans hhead)).1
  exact ⟨rfl, _, TrailRely.locks hrely' ⟨⟨after, hhead⟩, rfl, hnone⟩⟩

end Protocol

section Calls

variable {config : AuditTrailConfiguration D} {calls : ι → TrailCall D} {c : ι}
  {w : TrailWorld D ι × TrailGhost ι}

theorem Trailing.enter (h : Trailing config w.1 w.2) (hfresh : (trailProtocol config).fresh c w) :
    ∃ g, Trailing config { w.1 with construction := w.1.construction.enter () c } g ∧
      (trailProtocol config).guarantee c w
        ({ w.1 with construction := w.1.construction.enter () c }, g) ∧
      Tails.Behind (g.queue ()) (w.1.construction.tails ()) c ∧
      ∀ claimer ∈ g.claiming, claimer.1 ≠ c := by
  obtain ⟨houtside, hreleased⟩ := hfresh
  have hbehind : Tails.Behind (Tails.entered w.2.queue () c ()) (w.1.construction.tails ()) c :=
    h.lined.behind
  have hadvances : ∀ other, Tails.Advances other (w.2.queue ()) (Tails.entered w.2.queue () c ()) :=
    fun _ => Tails.advances_entered ()
  have hmem : ∀ other, other ≠ c → other ∈ Tails.entered w.2.queue () c () → other ∈ w.2.queue () :=
    fun _ => Tails.mem_entered
  refine ⟨{ w.2 with queue := Tails.entered w.2.queue () c },
    ⟨h.lined.enter houtside hreleased, h.follows, ?_, h.outbox⟩, ?_, hbehind, ?_⟩
  · intro claimer hclaimer
    obtain ⟨after, hhead⟩ := h.claimer claimer hclaimer
    exact (hadvances _).head hhead
  · intro other hother
    refine ⟨hadvances other, ?_, rfl, fun _ _ => ⟨rfl, rfl⟩, fun h => h,
      List.prefix_rfl⟩
    exact fun hout hin => hout (hmem other hother hin)
  · rintro claimer hclaimer rfl
    obtain ⟨after, hhead⟩ := h.claimer claimer hclaimer
    exact houtside (hhead ▸ List.mem_cons_self)

theorem Trailing.release [DecidableEq ι] (h : Trailing config w.1 w.2)
    {emitted : List (JsString × Digest)} (hlocks : Locks c emitted none w.2) :
    ∃ g, Trailing config { w.1 with construction := w.1.construction.release c } g ∧
      (trailProtocol config).guarantee c w
        ({ w.1 with construction := w.1.construction.release c }, g) ∧
      g.emitted = w.2.emitted := by
  obtain ⟨⟨after, hhead⟩, -, hclaiming⟩ := hlocks
  refine ⟨{ w.2 with queue := Function.update w.2.queue () after },
    ⟨h.lined.release hhead fun _ hother => absurd rfl hother, h.follows, ?_, h.outbox⟩, ?_, rfl⟩
  · rw [hclaiming]
    exact nofun
  · intro other hother
    refine ⟨Tails.advances_left hother hhead (), ?_, ?_, fun _ _ => ⟨rfl, rfl⟩, fun h => h,
      List.prefix_rfl⟩
    · exact fun hout hin => hout (Tails.mem_left hhead hin)
    · exact Function.update_of_ne hother _ _

theorem contract_construction [DecidableEq ι] (input : Members D) (eventId : JsString)
    (evidence : List (EncryptedEvidenceInput D)) :
    (trailProtocol config).Contract c ((trailProtocol config).fresh c)
      (withSourceConstruction c (constructEvent config input eventId evidence))
      fun result w => ∀ event, result = .ok event →
        ∃ place, EmittedAt config w.2.emitted place event := by
  refine .state fun world => ?_
  refine .update (fun _ _ _ => trail_guarantee_trans) ?_ (.bind_ok contract_previousConstruction
    (.finally_ (fun _ _ _ => trail_guarantee_trans)
      (.of_exists fun emitted => contract_constructEvent input eventId evidence) ?_))
  · rintro w hinv ⟨rfl, hfresh⟩
    exact Trailing.enter hinv hfresh
  · rintro result w hinv ⟨⟨emitted, hlocks⟩, hemitted⟩
    obtain ⟨g, hinv', hguarantee, hsame⟩ := Trailing.release hinv hlocks
    refine ⟨g, hinv', hguarantee, ?_⟩
    rw [hsame]
    exact hemitted

section Delivery

variable {P : TrailGhost ι → Prop}

/-- What the recorder answers changes nothing here. -/
theorem contract_submitAndValidate (hP : Steady D c P) (submission : AuditRecorderSubmission D) :
    (trailProtocol config).Contract c (fun w => P w.2) (submitAndValidate config submission)
      fun _ w => P w.2 := by
  refine .bind (contract_trailKeep hP (fun _ => True) ?_) ?_ fun _ _ _ h => h.2
  · rintro world answer world' rfl
    exact ⟨trivial, rfl⟩
  · intro entry
    refine .bind ((contract_hashEvent hP).mono_pre fun _ _ h => h.2) ?_ fun _ _ _ h => h.2
    exact fun eventDigest => .ofExcept fun _ _ h => h.2

theorem contract_deliverEvent {event : AuditProducerEvent D}
    (evidence : List (EncryptedEvidenceInput D)) :
    (trailProtocol config).Contract c (fun w => ∃ place, EmittedAt config w.2.emitted place event)
      (deliverEvent config event evidence) fun result (w : TrailWorld D ι × TrailGhost ι) =>
        ∀ given, result = .ok given → ∃ place, EmittedAt config w.2.emitted place given.event := by
  rw [deliverEvent]
  by_cases hbuffered : config.delivery = .buffered
  · rw [if_pos hbuffered]
    refine .pure ?_
    rintro w - hgiven _ ⟨⟩
    exact hgiven
  · rw [if_neg hbuffered]
    refine .outcome_bind (contract_submitAndValidate steady_emitted _) ?_
    intro submitted
    cases submitted with
    | error error =>
        simp only
        split_ifs with hrequired
        · exact .throw nofun
        · refine .pure ?_
          rintro w - hgiven _ ⟨⟩
          exact hgiven
    | ok entry =>
        refine .outcome_bind (contract_markReceipted steady_emitted fun _ h _ => h) ?_
        refine fun _ => .pure ?_
        rintro w - hgiven _ ⟨⟩
        exact hgiven

/-- The bookkeeping of an item that was emitted, or is of another source. -/
theorem contract_acknowledge {P : TrailGhost ι → Prop} {item : AuditOutboxItem D}
    (hP : Steady D c P) (hemitted : ∀ ghost, P ghost → itemSource item = config.sourceId →
      ∃ place, EmittedAt config ghost.emitted place item.submission.producerEvent) :
    (trailProtocol config).Contract c (fun w => P w.2) (acknowledge config item)
      fun _ w => P w.2 := by
  refine .outcome_bind (contract_markReceipted hP hemitted) fun _ => ?_
  exact .outcome_bind (contract_outbox hP (.markDelivered (acknowledgementKey config item))
    (fun _ _ _ => MayFail.state_cases) nofun) fun _ => .pure fun _ _ h => h

theorem contract_flushItems (blockedSources : List JsString) (counts : FlushCounts)
    (items : List (AuditOutboxItem D)) :
    (trailProtocol config).Contract c (fun w => OutboxEmitted config w.2.emitted items)
      (flushItems config blockedSources counts items)
      fun _ (_ : TrailWorld D ι × TrailGhost ι) => True := by
  induction items generalizing blockedSources counts with
  | nil => exact .pure fun _ _ _ => trivial
  | cons item rest ih =>
      rw [flushItems]
      have hsteady : Steady (ι := ι) D c fun ghost =>
          OutboxEmitted config ghost.emitted (item :: rest) :=
        fun _ _ h hrely => h.mono hrely.grows
      have hrest : ∀ {emitted}, OutboxEmitted config emitted (item :: rest) →
          OutboxEmitted config emitted rest :=
        fun h later hlater => h later (List.mem_cons_of_mem item hlater)
      by_cases hblocked : itemSource item ∈ blockedSources
      · rw [if_pos hblocked]
        exact (ih blockedSources counts).mono_pre fun _ _ h => hrest h
      · rw [if_neg hblocked]
        refine .outcome_bind (contract_submitAndValidate hsteady item.submission) ?_
        intro submitted
        cases submitted with
        | error _ =>
            exact .bind (contract_outbox hsteady (.markFailed (acknowledgementKey config item))
              (fun _ _ _ => MayFail.state_cases) nofun)
              (fun _ => (ih _ _).mono_pre fun _ _ h => hrest h) fun _ _ _ _ => trivial
        | ok _ =>
            exact .bind (contract_acknowledge hsteady fun _ h => h item List.mem_cons_self)
              (fun _ => (ih _ _).mono_pre fun _ _ h => hrest h) fun _ _ _ _ => trivial

theorem contract_flush (limit : Option Nat) :
    (trailProtocol config).Contract c (fun _ => True) (flush config limit)
      fun _ (_ : TrailWorld D ι × TrailGhost ι) => True := by
  rw [flush]
  split_ifs with hbuffered
  · exact .pure fun _ _ _ => trivial
  · have hpending : (trailProtocol config).Contract c
        (fun _ : TrailWorld D ι × TrailGhost ι => True) (trailReply (.pending limit))
        fun answer w => ∀ items : List (AuditOutboxItem D), answer = .ok items →
          OutboxEmitted config w.2.emitted items := by
      have hsteady : ∀ answer : Except AuditError (List (AuditOutboxItem D)),
          Steady (ι := ι) D c fun ghost => ∀ items, answer = .ok items →
            OutboxEmitted config ghost.emitted items :=
        fun _ _ _ hitems hrely items hanswer => (hitems items hanswer).mono hrely.grows
      refine contract_trailReply (.pending limit) steady_const hsteady ?_
      rintro world ghost answer world' hinv - (⟨_, rfl, rfl⟩ | ⟨rfl, rfl⟩)
      · exact ⟨nofun, hinv, rfl⟩
      · refine ⟨?_, hinv, rfl⟩
        rintro items ⟨⟩ item hitem
        exact hinv.outbox item (List.mem_of_mem_take hitem)
    exact .bind hpending (fun items => (contract_flushItems [] ⟨0, 0⟩ items).mono_pre
      fun _ _ h => h items rfl) fun _ _ _ _ => trivial

end Delivery

end Calls

end KyaOs.Audit
