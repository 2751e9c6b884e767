import KyaOs.Audit.RecorderSolo
import KyaOs.Audit.TrailContracts

/-!
# The chain of a source

The events a trail emits for its source have the sequences one, two, three and so on, and each
links to the digest of the one before, whatever calls overlap and whatever of them fail.
-/

namespace KyaOs.Audit

open Js Concurrency

variable {D ι : Type}

section Calls

variable {config : AuditTrailConfiguration D} {calls : ι → TrailCall D} {c : ι}
  {w : TrailWorld D ι × TrailGhost ι}

variable [DecidableEq ι]

theorem contract_record (input : Members D) (eventId : JsString)
    (evidence : List (EncryptedEvidenceInput D)) :
    (trailProtocol config).Contract c ((trailProtocol config).fresh c)
      (record config c input eventId evidence)
      fun result w => ∀ given, result = .ok given →
        ∃ place, EmittedAt config w.2.emitted place given.event := by
  refine .bind (contract_construction input eventId evidence) ?_ fun _ _ _ _ => nofun
  intro event
  exact (contract_deliverEvent evidence).mono_pre fun _ _ h => h event rfl

theorem contract_recordSourceHighWater (eventId : JsString) :
    (trailProtocol config).Contract c ((trailProtocol config).fresh c)
      (recordSourceHighWater config c eventId)
      fun result w => ∀ given, result = .ok given →
        ∃ place, EmittedAt config w.2.emitted place given.event := by
  have hstate : (trailProtocol config).Contract c ((trailProtocol config).fresh c)
      (trailReply .getState) fun _ => (trailProtocol config).fresh c := by
    refine .ask ?_ fun _ => trail_guarantee_refl
    rintro w asked - ⟨houtside, hreleased⟩ hasked hrely answer world' ⟨rfl, rfl⟩
    refine ⟨asked.2, hasked, trail_guarantee_refl, ?_⟩
    intro resumed _ hrely'
    have hthrough := TrailRely.trans hrely hrely'
    exact ⟨hthrough.outside houtside, hthrough.released.trans hreleased⟩
  refine .bind hstate (fun state => contract_record _ eventId []) fun _ _ _ _ => nofun

/-- How a call may end: an event it returns was emitted. -/
def TrailEnds (config : AuditTrailConfiguration D) (emitted : List (JsString × Digest))
    (result : Except AuditError (TrailResult D)) : Prop :=
  ∀ given, result = .ok (.emitted given) → ∃ place, EmittedAt config emitted place given.event

theorem contract_run (call : TrailCall D) :
    (trailProtocol config).Contract c ((trailProtocol config).fresh c) (call.run config c)
      fun result w => TrailEnds config w.2.emitted result := by
  cases call with
  | record input eventId evidence =>
      refine .bind (contract_record input eventId evidence) (fun result => .pure ?_)
        fun _ _ _ _ => nofun
      rintro w - hgiven _ ⟨⟩
      exact hgiven result rfl
  | recordSourceHighWater eventId =>
      refine .bind (contract_recordSourceHighWater eventId) (fun result => .pure ?_)
        fun _ _ _ _ => nofun
      rintro w - hgiven _ ⟨⟩
      exact hgiven result rfl
  | flush limit =>
      exact .bind ((contract_flush limit).mono_pre fun _ _ _ => trivial)
        (fun _ => .pure fun _ _ _ => nofun) fun _ _ _ _ => nofun

theorem TrailEnds.mono {emitted emitted' : List (JsString × Digest)}
    {result : Except AuditError (TrailResult D)} (h : TrailEnds config emitted result)
    (hgrows : emitted <+: emitted') : TrailEnds config emitted' result := by
  intro given hgiven
  obtain ⟨place, hplace⟩ := h given hgiven
  exact ⟨place, hplace.mono hgrows⟩

theorem discipline_trail (calls : ι → TrailCall D) :
    Discipline (trailProgram config calls) (trailProtocol config)
      fun _ _ result w => TrailEnds config w.2.emitted result where
  rely_refl _ _ := .refl
  rely_trans _ _ _ _ := .trans
  serves _ _ _ _ _ h := h
  environment w world' hinv henvironment := by
    obtain ⟨hconstruction, hsource, houtbox⟩ := henvironment
    exact ⟨w.2, ⟨hconstruction ▸ hinv.lined, hsource ▸ hinv.follows, hinv.claimer,
      hinv.outbox.of_noNew houtbox⟩, fun _ => .of_eq rfl hconstruction⟩
  fresh_stable c w w' hfresh _ hrely :=
    ⟨hrely.outside hfresh.1, hrely.released.trans hfresh.2⟩
  code c born _ hfresh w hinv hrely := by
    refine contract_run (calls c) w w.1 w.2 hinv trail_guarantee_refl ?_
    exact ⟨hrely.outside hfresh.1, hrely.released.trans hfresh.2⟩
  post_stable c _ result w w' hpost _ hrely := hpost.mono hrely.grows

/-- An event that a call has returned, or that the outbox holds for the source. -/
inductive Emission (config : AuditTrailConfiguration D)
    (final : Config (trailSetting D ι) ι (TrailResult D)) : AuditProducerEvent D → Prop
  | returned {c : ι} {born : TrailWorld D ι} {given : AuditEmitResult D} :
      final.calls c = some ⟨born, .finished (.ok (.emitted given))⟩ →
      Emission config final given.event
  | buffered {item : AuditOutboxItem D} : item ∈ final.state.outbox.items.map Prod.snd →
      itemSource item = config.sourceId → Emission config final item.submission.producerEvent

end Calls

section Chain

variable {config : AuditTrailConfiguration D} {calls : ι → TrailCall D}
  {final : Config (trailSetting D ι) ι (TrailResult D)} {emitted : List (JsString × Digest)}
  {place place' : Nat} {event event' : AuditProducerEvent D}

theorem trailing_empty (now : D) :
    Trailing config (.empty now : TrailWorld D ι) ⟨fun _ => [], [], none⟩ where
  lined := Tails.lined_empty
  follows := .empty
  claimer := nofun
  outbox := nofun

theorem Emission.emittedAt (h : Emission config final event)
    (hcalls : ∀ c born result, final.calls c = some ⟨born, .finished result⟩ →
      TrailEnds config emitted result)
    (houtbox : OutboxEmitted config emitted (final.state.outbox.items.map Prod.snd)) :
    ∃ place, EmittedAt config emitted place event := by
  cases h with
  | returned hreturned => exact hcalls _ _ _ hreturned _ rfl
  | buffered hitem hsource => exact houtbox _ hitem hsource

/-- One place has one identity and one digest. -/
theorem EmittedAt.same (h : EmittedAt config emitted place event)
    (h' : EmittedAt config emitted place event') :
    textAt event ["eventId"] = textAt event' ["eventId"] ∧
      digestAuditEvent config.runtime.numbers config.runtime.sha256 event =
        digestAuditEvent config.runtime.numbers config.runtime.sha256 event' := by
  obtain ⟨eventDigest, hplace, hdigest⟩ := h.digest
  obtain ⟨eventDigest', hplace', hdigest'⟩ := h'.digest
  obtain ⟨heventId, rfl⟩ := Prod.mk.inj (Option.some.inj (hplace.symm.trans hplace'))
  exact ⟨heventId, hdigest.trans hdigest'.symm⟩

/-- The next place links to this one. -/
theorem EmittedAt.linked (h : EmittedAt config emitted place event)
    (h' : EmittedAt config emitted (place + 1) event') : ∃ eventDigest,
      digestAuditEvent config.runtime.numbers config.runtime.sha256 event = .ok eventDigest ∧
        memberAt event' ["source", "previousSourceEventDigest"] = some (.string eventDigest) := by
  obtain ⟨eventDigest, hplace, hdigest⟩ := h.digest
  refine ⟨eventDigest, hdigest, ?_⟩
  rw [h'.previous, linkAt_succ hplace, Option.map_some]

variable [DecidableEq ι]

/-- In every run the events emitted for the source are one chain without gaps in its links: of one
sequence there is one event, and it links to the event before. The watermarks are below what is
pending. -/
theorem record_source_chain (config : AuditTrailConfiguration D) (calls : ι → TrailCall D)
    (now : D) (final : Config (trailSetting D ι) ι (TrailResult D))
    (hreaches : (trailProgram config calls).Reaches (Program.initial (.empty now)) final) :
    let watermarks := (final.state.sources config.sourceId).getState config.sourceId
    (∀ event, Emission config final event → ∃ place, place < watermarks.highestEmitted ∧
      textAt event ["source", "sourceSequence"] = decimalString (place + 1) ∧
      (memberAt event ["source", "previousSourceEventDigest"] = none ↔ place = 0)) ∧
    (∀ event event', Emission config final event → Emission config final event' →
      textAt event ["source", "sourceSequence"] = textAt event' ["source", "sourceSequence"] →
      textAt event ["eventId"] = textAt event' ["eventId"] ∧
        digestAuditEvent config.runtime.numbers config.runtime.sha256 event =
          digestAuditEvent config.runtime.numbers config.runtime.sha256 event') ∧
    (∀ event event' sequence, Emission config final event → Emission config final event' →
      textAt event ["source", "sourceSequence"] = decimalString sequence →
      textAt event' ["source", "sourceSequence"] = decimalString (sequence + 1) →
      ∃ eventDigest,
        digestAuditEvent config.runtime.numbers config.runtime.sha256 event = .ok eventDigest ∧
          memberAt event' ["source", "previousSourceEventDigest"] = some (.string eventDigest)) ∧
    watermarks.pendingSequences.Pairwise (· < ·) ∧
    (∀ sequence ∈ watermarks.pendingSequences,
      watermarks.highestReceipted < sequence ∧ sequence ≤ watermarks.highestEmitted) ∧
    (watermarks.highestReceipted = watermarks.highestEmitted ∨
      watermarks.highestReceipted + 1 ∈ watermarks.pendingSequences) := by
  obtain ⟨ghost, hinv, -, hcalls⟩ := hreaches.sound (discipline_trail calls)
    (sound_initial (trailing_empty now) fun _ => ⟨List.not_mem_nil, rfl⟩)
  have hemitted : ∀ event, Emission config final event →
      ∃ place, EmittedAt config ghost.emitted place event := fun event h =>
    h.emittedAt (fun c born result hc => hcalls c _ hc) hinv.outbox
  refine ⟨?_, ?_, ?_, hinv.follows.getState config.sourceId⟩
  · intro event hevent
    obtain ⟨place, hplace⟩ := hemitted event hevent
    obtain ⟨_, hat, -⟩ := hplace.digest
    have hlt := lt_of_emitted hat
    have hnext : (final.state.sources config.sourceId).next = ghost.emitted.length + _ :=
      hinv.follows.next
    refine ⟨place, by simp only [MutableSourceState.getState]; omega, hplace.sequence, ?_⟩
    rw [hplace.previous, Option.map_eq_none_iff]
    cases place with
    | zero => exact ⟨fun _ => rfl, fun _ => rfl⟩
    | succ before =>
        have hbefore := List.getElem?_eq_getElem (show before < ghost.emitted.length by omega)
        rw [linkAt_succ hbefore]
        exact iff_of_false (Option.some_ne_none _) (Nat.succ_ne_zero before)
  · intro event event' hevent hevent' hsequence
    obtain ⟨place, hplace⟩ := hemitted event hevent
    obtain ⟨place', hplace'⟩ := hemitted event' hevent'
    rw [hplace.sequence, hplace'.sequence] at hsequence
    obtain rfl := Nat.succ.inj (decimalString_injective hsequence)
    exact hplace.same hplace'
  · intro event event' sequence hevent hevent' hsequence hsequence'
    obtain ⟨place, hplace⟩ := hemitted event hevent
    obtain ⟨place', hplace'⟩ := hemitted event' hevent'
    rw [hplace.sequence] at hsequence
    rw [hplace'.sequence] at hsequence'
    obtain rfl := decimalString_injective hsequence
    obtain rfl := Nat.succ.inj (decimalString_injective hsequence')
    exact hplace.linked hplace'

end Chain

section Sample

open Async.Leads

def sampleTrail : AuditTrailConfiguration SampleDouble where
  runtime := sampleDeployment.runtime
  delivery := .buffered
  ledgerId := js "ledger"
  expectedLedgerEpochId := none
  tenantRef := sampleParty (js "did:web:tenant")
  producer := sampleParty (js "did:web:producer")
  sourceId := js "agent"
  binding := js "mcp"
  privacy := .object []
  redeliveryWindow := 1024
  keyedBySource := true

def sampleEventId : Bool → JsString
  | false => js "first"
  | true => js "second"

/-- Two calls, each of which records an event. -/
abbrev sampleTrailing :=
  trailProgram sampleTrail fun c : Bool => .record [] (sampleEventId c) []

abbrev sampleTrailStart : Config (trailSetting SampleDouble Bool) Bool (TrailResult SampleDouble) :=
  Program.initial (.empty .zero)

/-- An event of the trail, with the claim it carries. -/
def sampleTrailEvent (eventId : JsString) (claim : SourceEventClaim) :
    AuditProducerEvent SampleDouble :=
  .object ((controlledMembers sampleTrail [] eventId (.number .zero) claim).foldl
    (fun members member => assignMember member.1 member.2 members) [])

def sampleItem (event : AuditProducerEvent SampleDouble) : AuditOutboxItem SampleDouble where
  eventId := textAt event ["eventId"]
  submission := submissionOf sampleTrail event []
  enqueuedAt := .zero
  attempts := 0

theorem canonical_string {text : JsString} (h : hasLoneSurrogate text = false) :
    isCanonical sampleDoubles (.string text) = true := by
  rw [isCanonical, h]
  rfl

theorem canonical_eventSource {claim : SourceEventClaim}
    (hprevious : ∀ digest ∈ claim.previousSourceEventDigest, hasLoneSurrogate digest = false) :
    isCanonical sampleDoubles (eventSource sampleTrail claim) = true := by
  have hfixed : ∀ member ∈ [(js "producer", sampleTrail.producer),
      (js "sourceId", .string sampleTrail.sourceId),
      (js "sourceSequence", .string (decimalString claim.sequence))],
      hasLoneSurrogate member.1 = false ∧ isCanonical sampleDoubles member.2 = true := by
    simp only [List.forall_mem_cons]
    exact ⟨⟨by decide, by decide +kernel⟩, ⟨by decide, by decide⟩,
      ⟨by decide, canonical_string (hasLoneSurrogate_decimalString _)⟩, List.forall_mem_nil _⟩
  rw [eventSource, isCanonical, Bool.and_eq_true, membersCanonical_iff, List.forall_mem_append]
  cases hdigest : claim.previousSourceEventDigest with
  | none => exact ⟨show decide [js "producer", js "sourceId", js "sourceSequence"].Nodup = true
      from by decide, hfixed, List.forall_mem_nil _⟩
  | some digest =>
      have hname : hasLoneSurrogate (js "previousSourceEventDigest") = false := by decide
      exact ⟨show decide [js "producer", js "sourceId", js "sourceSequence",
        js "previousSourceEventDigest"].Nodup = true from by decide, hfixed,
        List.forall_mem_singleton.mpr ⟨hname, canonical_string (hprevious digest hdigest)⟩⟩

theorem canonical_sampleTrailEvent {eventId : JsString} {claim : SourceEventClaim}
    (heventId : hasLoneSurrogate eventId = false)
    (hprevious : ∀ digest ∈ claim.previousSourceEventDigest, hasLoneSurrogate digest = false) :
    isCanonical sampleDoubles (sampleTrailEvent eventId claim) = true := by
  have hsource := canonical_eventSource hprevious
  have hmembers : sampleTrailEvent eventId claim =
      .object (controlledMembers sampleTrail [] eventId (.number .zero) claim) := rfl
  rw [hmembers, isCanonical, Bool.and_eq_true, membersCanonical_iff]
  refine ⟨show decide [js "schema", js "eventId", js "eventVersion", js "binding", js "occurredAt",
    js "tenantRef", js "source", js "privacy"].Nodup = true from by decide, ?_⟩
  simp only [controlledMembers, List.forall_mem_cons]
  exact ⟨⟨by decide, by decide⟩, ⟨by decide, canonical_string heventId⟩, ⟨by decide, by decide⟩,
    ⟨by decide, by decide⟩, ⟨by decide, canonical_zero⟩, ⟨by decide, by decide +kernel⟩,
    ⟨by decide, hsource⟩, ⟨by decide, by decide⟩, List.forall_mem_nil _⟩

/-- The source state after an event that is new to it. -/
def sampleEmitted (state : MutableSourceState) (eventId : JsString) : MutableSourceState :=
  let claimed := state.claimEvent eventId
  (claimed.2.markEmitted eventId claimed.1.sequence
    (sampleDigest .event (sampleTrailEvent eventId claimed.1))).2

/-- The trail after it. -/
def sampleConstructed (world : TrailWorld SampleDouble Bool) (eventId : JsString) :
    TrailWorld SampleDouble Bool :=
  let state := world.sources sampleTrail.sourceId
  let item := sampleItem (sampleTrailEvent eventId (state.claimEvent eventId).1)
  (world.setSource sampleTrail.sourceId (sampleEmitted state eventId)).setOutbox
    (world.outbox.enqueue sampleDoubles item).2

theorem sources_sampleConstructed (world : TrailWorld SampleDouble Bool) (eventId : JsString) :
    (sampleConstructed world eventId).sources sampleTrail.sourceId =
      sampleEmitted (world.sources sampleTrail.sourceId) eventId := by
  simp [sampleConstructed, TrailWorld.setOutbox]

theorem markEmitted_claimed {state : MutableSourceState} {eventId : JsString} {digest : Digest}
    (hnew : state.claims eventId = none) :
    ((state.claimEvent eventId).2.markEmitted eventId (state.claimEvent eventId).1.sequence
      digest).1 = .ok () := by
  simp [MutableSourceState.claimEvent, MutableSourceState.markEmitted, hnew]

theorem buildEvent_sample {eventId : JsString} {claim : SourceEventClaim}
    (hcanonical : isCanonical sampleDoubles (sampleTrailEvent eventId claim) = true) :
    buildEvent sampleTrail [] eventId (.number .zero) claim =
      .ok (sampleTrailEvent eventId claim) :=
  parseAuditProducerEvent_eq_ok.mpr ⟨hcanonical, rfl⟩

theorem linkEvent_leads (world : TrailWorld SampleDouble Bool) {eventId : JsString}
    {claim : SourceEventClaim} {state : MutableSourceState}
    (hcanonical : isCanonical sampleDoubles (sampleTrailEvent eventId claim) = true)
    (hsource : world.sources sampleTrail.sourceId = state)
    (hmarked : (state.markEmitted eventId claim.sequence
      (sampleDigest .event (sampleTrailEvent eventId claim))).1 = .ok ()) :
    (linkEvent sampleTrail [] eventId (.number .zero) claim).Leads (serveTrail sampleTrail) world
      (world.setSource sampleTrail.sourceId (state.markEmitted eventId claim.sequence
        (sampleDigest .event (sampleTrailEvent eventId claim))).2)
      (.finished (.ok (sampleTrailEvent eventId claim))) := by
  subst hsource
  obtain ⟨hwellFormed, hsupported⟩ := canonical_of_isCanonical _ hcanonical
  have hhash : serveTrail sampleTrail (.hash (sampleTrailEvent eventId claim)) world
      (.ok (sampleDigest .event (sampleTrailEvent eventId claim))) world := by
    refine ⟨?_, rfl⟩
    rintro digest ⟨⟩
    exact sampleDigest_eq hwellFormed hsupported
  exact tryCatch_ok (check (buildEvent_sample hcanonical) (ask_bind hhash
    (ask_bind ⟨hmarked.symm, rfl⟩ .done)))

theorem constructEvent_leads (world : TrailWorld SampleDouble Bool) (eventId : JsString)
    (hclock : world.clock = .zero) (heventId : hasLoneSurrogate eventId = false)
    (hnew : (world.sources sampleTrail.sourceId).claims eventId = none)
    (hlatest : ∀ digest ∈ (world.sources sampleTrail.sourceId).latestDigest,
      hasLoneSurrogate digest = false)
    (henqueued : (world.outbox.enqueue sampleDoubles (sampleItem (sampleTrailEvent eventId
      ((world.sources sampleTrail.sourceId).claimEvent eventId).1))).1 = .ok ()) :
    (constructEvent sampleTrail [] eventId []).Leads (serveTrail sampleTrail) world
      (sampleConstructed world eventId) (.finished (.ok (sampleTrailEvent eventId
        ((world.sources sampleTrail.sourceId).claimEvent eventId).1))) := by
  have hprovisional : isCanonical sampleDoubles (sampleTrailEvent eventId ⟨0, none⟩) = true :=
    canonical_sampleTrailEvent heventId (by rintro _ ⟨⟩)
  have hprevious : ∀ digest ∈ ((world.sources sampleTrail.sourceId).claimEvent
      eventId).1.previousSourceEventDigest, hasLoneSurrogate digest = false := by
    rw [MutableSourceState.claimEvent, hnew]
    exact hlatest
  have hlinked := canonical_sampleTrailEvent heventId hprevious
  obtain ⟨hwellFormed, hsupported⟩ := canonical_of_isCanonical _ hprovisional
  obtain ⟨text, htext⟩ := (canonicalizeJson_eq_ok sampleDoubles_prints hwellFormed).mpr hsupported
  have hleads := linkEvent_leads (world.setSource sampleTrail.sourceId
    ((world.sources sampleTrail.sourceId).claimEvent eventId).2) hlinked
    (by rw [TrailWorld.sources_setSource, Function.update_self]) (markEmitted_claimed hnew)
  have hset : ∀ first last, (world.setSource sampleTrail.sourceId first).setSource
      sampleTrail.sourceId last = world.setSource sampleTrail.sourceId last := by
    intro first last
    simp [TrailWorld.setSource]
  rw [hset] at hleads
  have hbuilt : (buildAndLinkEvent sampleTrail [] eventId []).Leads (serveTrail sampleTrail) world
      (world.setSource sampleTrail.sourceId
        (sampleEmitted (world.sources sampleTrail.sourceId) eventId))
      (.finished (.ok (sampleTrailEvent eventId
        ((world.sources sampleTrail.sourceId).claimEvent eventId).1))) := by
    refine state ?_
    rw [hclock]
    exact check (buildEvent_sample hprovisional) (check (congrArg (Except.mapError AuditError.other)
      htext) (check rfl (ask_bind ⟨rfl, rfl⟩ hleads)))
  refine bind hbuilt (state ?_)
  rw [TrailWorld.clock_setSource, hclock]
  exact ask_bind (.inr ⟨congrArg orOther henqueued.symm, rfl⟩) .done

/-- A call takes its place in the line and waits; then it records its event. -/
theorem sampleRecord_pauses (world : TrailWorld SampleDouble Bool) (c : Bool)
    {resumed : TrailWorld SampleDouble Bool} {event : AuditProducerEvent SampleDouble}
    (hleads : (constructEvent sampleTrail [] (sampleEventId c) []).Leads (serveTrail sampleTrail)
      resumed (sampleConstructed resumed (sampleEventId c)) (.finished (.ok event))) :
    Pauses (sampleTrailing.serves c) (sampleTrailing.code c) world
      { world with construction := world.construction.enter () c }
      (.previous (world.construction.tails ())) (.ok ()) resumed
      { sampleConstructed resumed (sampleEventId c) with
        construction := (sampleConstructed resumed (sampleEventId c)).construction.release c }
      (.finished (.ok (.emitted (.pending event)))) :=
  .bind (.bind (.after (.read .done) (.after (.write .done) (.bind .ask (finally_ hleads)))) .done)
    .done

/-- The second call comes while the first holds the lock; its event links to the first one's. -/
theorem record_source_chain_sample :
    ∃ final born born' first second, sampleTrailing.Reaches sampleTrailStart final ∧
      final.calls false = some ⟨born, .finished (.ok (.emitted (.pending first)))⟩ ∧
      final.calls true = some ⟨born', .finished (.ok (.emitted (.pending second)))⟩ ∧
      ((final.state.sources sampleTrail.sourceId).getState sampleTrail.sourceId).pendingSequences =
        [1, 2] ∧
      ∃ eventDigest, digestAuditEvent sampleDoubles sampleSha256 first = .ok eventDigest ∧
        memberAt second ["source", "previousSourceEventDigest"] = some (.string eventDigest) := by
  let entered : TrailWorld SampleDouble Bool :=
    { sampleTrailStart.state with construction := Tails.empty.enter () false }
  let both : TrailWorld SampleDouble Bool :=
    { entered with construction := entered.construction.enter () true }
  let recorded : TrailWorld SampleDouble Bool :=
    { sampleConstructed both (js "first") with
      construction := both.construction.release false }
  have hfirst := constructEvent_leads both (js "first") rfl (by decide) rfl (by rintro _ ⟨⟩) rfl
  have hsources : recorded.sources sampleTrail.sourceId = sampleEmitted .empty (js "first") :=
    sources_sampleConstructed both (js "first")
  have hlatest : ∀ digest ∈ (recorded.sources sampleTrail.sourceId).latestDigest,
      hasLoneSurrogate digest = false := by
    rw [hsources]
    rintro _ ⟨⟩
    exact hasLoneSurrogate_sampleDigest _ _
  have hnew : (recorded.sources sampleTrail.sourceId).claims (js "second") = none := by
    rw [hsources]
    rfl
  have hsecond := constructEvent_leads recorded (js "second") rfl (by decide) hnew hlatest
    (by rw [hsources]; rfl)
  obtain ⟨k, hwaits, hends⟩ := sampleRecord_pauses sampleTrailStart.state false hfirst
  obtain ⟨k', hwaits', hends'⟩ := sampleRecord_pauses entered true hsecond
  obtain ⟨waiting, hreaches, hboth, hwaiting, hwaiting', -⟩ :=
    hwaits.run_both Bool.true_eq_false.mp hwaits'
  have hpasses : sampleTrailing.serves false (.previous none) waiting.state (.ok ()) both :=
    ⟨rfl, nofun, hboth.symm⟩
  obtain ⟨released, hreachesReleased, hreleased⟩ :=
    Async.Leads.reaches_served hwaiting hpasses hends
  have hpasses' : sampleTrailing.serves true (.previous (some false)) released.state (.ok ())
      recorded := by
    rw [hreleased.state]
    exact ⟨rfl, by rintro _ ⟨⟩; rfl, rfl⟩
  obtain ⟨final, hreachesFinal, hfinal⟩ := Async.Leads.reaches_served
    ((hreleased.others true Bool.true_eq_false.mp).trans hwaiting') hpasses' hends'
  have hruns := hreaches.trans (hreachesReleased.trans hreachesFinal)
  have hone := (hfinal.others false Bool.false_ne_true).trans hreleased.moved
  obtain ⟨-, -, hlinked, -⟩ := record_source_chain sampleTrail _ .zero final hruns
  refine ⟨final, _, _, _, _, hruns, hone, hfinal.moved, ?_, hlinked _ _ 1 (.returned hone)
    (.returned hfinal.moved) rfl ?_⟩
  · have hlast : final.state.sources sampleTrail.sourceId =
        sampleEmitted (sampleEmitted .empty (js "first")) (js "second") := by
      rw [hfinal.state, ← hsources]
      exact sources_sampleConstructed recorded (js "second")
    rw [hlast]
    rfl
  · rw [hsources]
    rfl

end Sample

end KyaOs.Audit
