import Mathlib.Data.List.Induction
import KyaOs.Audit.RecorderContracts
import KyaOs.Audit.TrailService

/-!
# The calls of a trail on one source

What was emitted for the source is a list of identities and digests, and the call that holds the
construction lock alone may claim the next place. The steps of the others keep what a call knows.
-/

namespace KyaOs.Audit

open Js Concurrency

variable {D ι : Type}

/-- The event carries what was emitted at this place. -/
structure EmittedAt (config : AuditTrailConfiguration D) (emitted : List (JsString × Digest))
    (place : Nat) (event : AuditProducerEvent D) : Prop where
  digest : ∃ eventDigest, emitted[place]? = some (textAt event ["eventId"], eventDigest) ∧
    digestAuditEvent config.runtime.numbers config.runtime.sha256 event = .ok eventDigest
  sequence : textAt event ["source", "sourceSequence"] = decimalString (place + 1)
  previous : memberAt event ["source", "previousSourceEventDigest"] =
    (linkAt emitted place).map .string

section Events

variable {config : AuditTrailConfiguration D} {input : Members D} {eventId : JsString}
  {occurredAt : JsonValue D} {claim : SourceEventClaim} {event : AuditProducerEvent D}
  {emitted emitted' : List (JsString × Digest)} {place : Nat}

/-- What is assigned once is found. -/
theorem lookup_assigned (members : Members D) {controlled : Members D}
    (hnodup : (controlled.map Prod.fst).Nodup) {member : JsString × JsonValue D}
    (hmember : member ∈ controlled) :
    (controlled.foldl (fun members member => assignMember member.1 member.2 members)
      members).lookup member.1 = some member.2 := by
  induction controlled using List.reverseRecOn with
  | nil => cases hmember
  | append_singleton before last ih =>
      rw [List.map_append, List.nodup_append'] at hnodup
      obtain ⟨hbefore, -, hdisjoint⟩ := hnodup
      rw [List.foldl_append, List.foldl_cons, List.foldl_nil, lookup_assignMember]
      obtain hold | hnew := List.mem_append.mp hmember
      · rw [if_neg, ih hbefore hold]
        intro hsame
        exact hdisjoint (List.mem_map_of_mem hold) (hsame ▸ List.mem_singleton_self _)
      · obtain rfl := List.mem_singleton.mp hnew
        rw [if_pos rfl]

theorem nodup_controlledMembers :
    ((controlledMembers config input eventId occurredAt claim).map Prod.fst).Nodup := by
  simp only [controlledMembers, List.map_cons, List.map_nil]
  decide

theorem memberAt_eventSource (config : AuditTrailConfiguration D) (claim : SourceEventClaim) :
    memberAt (eventSource config claim) ["sourceSequence"] =
        some (.string (decimalString claim.sequence)) ∧
      memberAt (eventSource config claim) ["previousSourceEventDigest"] =
        claim.previousSourceEventDigest.map .string := by
  obtain ⟨sequence, _ | previous⟩ := claim
  · exact ⟨rfl, rfl⟩
  · exact ⟨rfl, rfl⟩

/-- An event as it was built: the identity and the claim it carries. -/
theorem buildEvent_ok (h : buildEvent config input eventId occurredAt claim = .ok event) :
    textAt event ["eventId"] = eventId ∧
      textAt event ["source", "sourceSequence"] = decimalString claim.sequence ∧
      memberAt event ["source", "previousSourceEventDigest"] =
        claim.previousSourceEventDigest.map .string := by
  obtain ⟨-, rfl⟩ := parseAuditProducerEvent_eq_ok.mp h
  have hassigned := fun member (hmember : member ∈ controlledMembers config input eventId
    occurredAt claim) => lookup_assigned input nodup_controlledMembers hmember
  have heventId := hassigned (js "eventId", .string eventId)
    (.tail _ (.head _))
  have hsource := hassigned (js "source", eventSource config claim)
    (.tail _ (.tail _ (.tail _ (.tail _ (.tail _ (.tail _ (.head _)))))))
  have hmembers : ∀ name, memberAt (.object ((controlledMembers config input eventId occurredAt
      claim).foldl (fun members member => assignMember member.1 member.2 members) input))
        ["source", name] = memberAt (eventSource config claim) [name] := by
    intro name
    simp only [memberAt, List.map_cons, List.map_nil, JsonValue.get?, JsonValue.child, hsource,
      Option.bind_some]
  obtain ⟨hsequence, hprevious⟩ := memberAt_eventSource config claim
  refine ⟨?_, ?_, (hmembers _).trans hprevious⟩
  · simp only [textAt, memberAt, List.map_cons, List.map_nil, JsonValue.get?, JsonValue.child,
      heventId, Option.bind_some]
  · rw [textAt, hmembers, hsequence]

theorem EmittedAt.mono (h : EmittedAt config emitted place event) (hgrows : emitted <+: emitted') :
    EmittedAt config emitted' place event := by
  obtain ⟨more, rfl⟩ := hgrows
  obtain ⟨⟨eventDigest, hplace, hdigest⟩, hsequence, hprevious⟩ := h
  have hlt := lt_of_emitted hplace
  refine ⟨⟨eventDigest, (List.getElem?_append_left hlt).trans hplace, hdigest⟩, hsequence, ?_⟩
  rw [hprevious, linkAt_append hlt.le]

/-- Its sequence is one that was emitted. -/
theorem EmittedAt.receiptable (h : EmittedAt config emitted place event) :
    Js.decimalValue (textAt event ["source", "sourceSequence"]) ≤ emitted.length := by
  obtain ⟨⟨_, hplace, -⟩, hsequence, -⟩ := h
  rw [hsequence, decimalString, decimalValue_toString]
  exact lt_of_emitted hplace

end Events

/-- The constructions inside, what was emitted for the source, and which of them has claimed the
next sequence. -/
structure TrailGhost (ι : Type) where
  queue : Unit → List ι
  emitted : List (JsString × Digest)
  claiming : Option (ι × JsString)

/-- The call has the lock. -/
structure Locks (c : ι) (emitted : List (JsString × Digest)) (claiming : Option (ι × JsString))
    (ghost : TrailGhost ι) : Prop where
  head : ∃ after, ghost.queue () = c :: after
  emitted : ghost.emitted = emitted
  claiming : ghost.claiming = claiming

/-- What the others do to a call: they emit nothing while it has the lock. -/
structure TrailRely (c : ι) (w w' : TrailWorld D ι × TrailGhost ι) : Prop where
  advances : Tails.Advances c (w.2.queue ()) (w'.2.queue ())
  outside : c ∉ w.2.queue () → c ∉ w'.2.queue ()
  released : w'.1.construction.released c = w.1.construction.released c
  kept : ∀ after, w.2.queue () = c :: after →
    w'.2.emitted = w.2.emitted ∧ w'.2.claiming = w.2.claiming
  unclaimed : (∀ claimer ∈ w.2.claiming, claimer.1 ≠ c) → ∀ claimer ∈ w'.2.claiming, claimer.1 ≠ c
  grows : w.2.emitted <+: w'.2.emitted

section Protocol

variable (config : AuditTrailConfiguration D)

/-- The items of the source in the outbox were emitted. -/
def OutboxEmitted (emitted : List (JsString × Digest)) (items : List (AuditOutboxItem D)) : Prop :=
  ∀ item ∈ items, itemSource item = config.sourceId →
    ∃ place, EmittedAt config emitted place item.submission.producerEvent

structure Trailing (world : TrailWorld D ι) (ghost : TrailGhost ι) : Prop where
  lined : world.construction.Lined ghost.queue
  follows : (world.sources config.sourceId).Follows ghost.emitted (ghost.claiming.map Prod.snd)
  claimer : ∀ claimer ∈ ghost.claiming, ∃ after, ghost.queue () = claimer.1 :: after
  outbox : OutboxEmitted config ghost.emitted (world.outbox.items.map Prod.snd)

def trailProtocol : Protocol (trailSetting D ι) ι (TrailGhost ι) where
  inv w := Trailing config w.1 w.2
  rely := TrailRely
  fresh c w := c ∉ w.2.queue () ∧ w.1.construction.released c = false
  serves _ := serveTrail config

/-- What no other call undoes. -/
def Steady (D : Type) (c : ι) (P : TrailGhost ι → Prop) : Prop :=
  ∀ w w' : TrailWorld D ι × TrailGhost ι, P w.2 → TrailRely c w w' → P w'.2

variable {config} {c : ι} {w w' w'' : TrailWorld D ι × TrailGhost ι}
  {emitted : List (JsString × Digest)} {claiming : Option (ι × JsString)}
  {event : AuditProducerEvent D}

/-- What leaves the queue and the emitted events keeps them. -/
theorem TrailRely.of_eq (hghost : w'.2 = w.2)
    (hconstruction : w'.1.construction = w.1.construction) : TrailRely c w w' where
  advances := hghost ▸ .refl
  outside hout := hghost ▸ hout
  released := by rw [hconstruction]
  kept _ _ := by rw [hghost]; exact ⟨rfl, rfl⟩
  unclaimed h := hghost ▸ h
  grows := hghost ▸ List.prefix_rfl

theorem TrailRely.refl : TrailRely c w w := .of_eq rfl rfl

theorem TrailRely.trans (h : TrailRely c w w') (h' : TrailRely c w' w'') : TrailRely c w w'' where
  advances := h.advances.trans h'.advances
  outside hout := h'.outside (h.outside hout)
  released := h'.released.trans h.released
  kept after hhead := by
    obtain ⟨after', hhead'⟩ := h.advances.head hhead
    obtain ⟨hemitted, hclaiming⟩ := h.kept after hhead
    obtain ⟨hemitted', hclaiming'⟩ := h'.kept after' hhead'
    exact ⟨hemitted'.trans hemitted, hclaiming'.trans hclaiming⟩
  unclaimed hother := h'.unclaimed (h.unclaimed hother)
  grows := h.grows.trans h'.grows

theorem trail_guarantee_trans (h : (trailProtocol config).guarantee c w w')
    (h' : (trailProtocol config).guarantee c w' w'') : (trailProtocol config).guarantee c w w'' :=
  fun other hother => (h other hother).trans (h' other hother)

theorem trail_guarantee_refl : (trailProtocol config).guarantee c w w :=
  fun _ _ => .refl

/-- The head of the queue may emit. -/
theorem trail_guarantee_of_head {after : List ι} (hhead : w.2.queue () = c :: after)
    (hqueue : w'.2.queue = w.2.queue) (hconstruction : w'.1.construction = w.1.construction)
    (hclaiming : ∀ claimer ∈ w'.2.claiming, claimer.1 = c)
    (hgrows : w.2.emitted <+: w'.2.emitted) : (trailProtocol config).guarantee c w w' := by
  intro other hother
  refine ⟨hqueue ▸ .refl, fun hout => hqueue ▸ hout, by rw [hconstruction], ?_, ?_, hgrows⟩
  · intro rest hrest
    exact absurd (List.cons.inj (hrest.symm.trans hhead)).1 hother
  · intro _ claimer hclaimer hsame
    exact hother (hsame.symm.trans (hclaiming claimer hclaimer))

theorem trail_guarantee_of_eq (hghost : w'.2 = w.2)
    (hconstruction : w'.1.construction = w.1.construction) :
    (trailProtocol config).guarantee c w w' :=
  fun _ _ => .of_eq hghost hconstruction

theorem TrailRely.locks (hrely : TrailRely c w w') (h : Locks c emitted claiming w.2) :
    Locks c emitted claiming w'.2 := by
  obtain ⟨⟨after, hhead⟩, hemitted, hclaiming⟩ := h
  obtain ⟨hemitted', hclaiming'⟩ := hrely.kept after hhead
  exact ⟨hrely.advances.head hhead, hemitted'.trans hemitted, hclaiming'.trans hclaiming⟩

theorem steady_locks : Steady D c (Locks c emitted claiming) :=
  fun _ _ h hrely => hrely.locks h

theorem steady_const {P : Prop} : Steady D c fun _ => P := fun _ _ h _ => h

theorem Steady.and {P Q : TrailGhost ι → Prop} (h : Steady D c P) (h' : Steady D c Q) :
    Steady D c fun ghost => P ghost ∧ Q ghost :=
  fun w w' hboth hrely => ⟨h w w' hboth.1 hrely, h' w w' hboth.2 hrely⟩

theorem steady_emitted :
    Steady D c fun ghost => ∃ place, EmittedAt config ghost.emitted place event := by
  rintro w w' ⟨place, hplace⟩ hrely
  exact ⟨place, hplace.mono hrely.grows⟩

theorem OutboxEmitted.mono {emitted' : List (JsString × Digest)} {items : List (AuditOutboxItem D)}
    (h : OutboxEmitted config emitted items) (hgrows : emitted <+: emitted') :
    OutboxEmitted config emitted' items := by
  intro item hitem hsource
  obtain ⟨place, hplace⟩ := h item hitem hsource
  exact ⟨place, hplace.mono hgrows⟩

/-- A request that leaves the ghost value as it is. -/
theorem contract_trailReply (request : TrailRequest D ι) {P : TrailGhost ι → Prop}
    {Q : Except AuditError request.Answer → TrailGhost ι → Prop} (hP : Steady D c P)
    (hQ : ∀ answer, Steady D c (Q answer))
    (hserve : ∀ world ghost answer world', Trailing config world ghost → P ghost →
      serveTrail config request world answer world' →
      Q answer ghost ∧ Trailing config world' ghost ∧
        world'.construction = world.construction) :
    (trailProtocol config).Contract c (fun w => P w.2) (trailReply request)
      fun answer w => Q answer w.2 := by
  refine .ask ?_ fun _ => trail_guarantee_refl
  intro w asked _ hpre hasked hrely answer world' hserves
  obtain ⟨hanswer, hinv, hconstruction⟩ :=
    hserve _ asked.2 answer world' hasked (hP _ _ hpre hrely) hserves
  refine ⟨asked.2, hinv, trail_guarantee_of_eq rfl hconstruction, ?_⟩
  intro resumed _ hrely'
  exact hQ answer (world', asked.2) resumed hanswer hrely'

theorem Trailing.setSource (h : Trailing config w.1 w.2) {sourceId : JsString}
    {state : MutableSourceState} (hsource : sourceId = config.sourceId →
      state.Follows w.2.emitted (w.2.claiming.map Prod.snd)) :
    Trailing config (w.1.setSource sourceId state) w.2 := by
  refine ⟨h.lined, ?_, h.claimer, h.outbox⟩
  rw [TrailWorld.sources_setSource]
  by_cases hsame : config.sourceId = sourceId
  · rw [← hsame, Function.update_self]
    exact hsource hsame.symm
  · rw [Function.update_of_ne hsame]
    exact h.follows

/-- The own source, with what it emitted and who claims. -/
theorem Trailing.setOwnSource (h : Trailing config w.1 w.2) {state : MutableSourceState}
    (hfollows : state.Follows emitted (claiming.map Prod.snd))
    (hclaimer : ∀ claimer ∈ claiming, ∃ after, w.2.queue () = claimer.1 :: after)
    (hgrows : w.2.emitted <+: emitted) :
    Trailing config (w.1.setSource config.sourceId state) { w.2 with emitted, claiming } := by
  refine ⟨h.lined, ?_, hclaimer, h.outbox.mono hgrows⟩
  rw [TrailWorld.sources_setSource, Function.update_self]
  exact hfollows

/-- An item after a call is one before, but for its attempts, or comes with the call. -/
theorem mem_run_outbox {numbers : Doubles D} {call : OutboxCall D} {outbox : MemoryAuditOutbox D}
    {item : AuditOutboxItem D} (h : item ∈ (call.run numbers outbox).2.items.map Prod.snd) :
    (∃ before ∈ outbox.items.map Prod.snd, before.submission = item.submission) ∨
      call = .enqueue item := by
  have hold : ∀ {items : List (JsString × AuditOutboxItem D)}, items ⊆ outbox.items →
      item ∈ items.map Prod.snd →
      ∃ before ∈ outbox.items.map Prod.snd, before.submission = item.submission := by
    intro items hsubset hitem
    obtain ⟨entry, hentry, rfl⟩ := List.mem_map.mp hitem
    exact ⟨entry.2, List.mem_map_of_mem (hsubset hentry), rfl⟩
  obtain hsame | ⟨new, rfl, -, hafter⟩ | ⟨named, stored, -, ⟨-, hafter⟩ | ⟨-, found, hlookup,
    hafter⟩⟩ := MemoryAuditOutbox.run_cases numbers call outbox
  · rw [hsame] at h
    exact .inl (hold (List.Subset.refl _) h)
  · rw [hafter] at h
    obtain ⟨entry, hentry, rfl⟩ := List.mem_map.mp h
    obtain rfl | hbefore := mem_assignMember hentry
    · exact .inr rfl
    · exact .inl ⟨entry.2, List.mem_map_of_mem hbefore, rfl⟩
  · rw [hafter] at h
    exact .inl (hold (fun entry hentry => List.mem_of_mem_filter hentry) h)
  · rw [hafter] at h
    obtain ⟨entry, hentry, rfl⟩ := List.mem_map.mp h
    obtain rfl | hbefore := mem_assignMember hentry
    · exact .inl ⟨found, List.mem_map_of_mem (MemoryAuditOutbox.mem_of_lookup hlookup), rfl⟩
    · exact .inl ⟨entry.2, List.mem_map_of_mem hbefore, rfl⟩

theorem itemSource_congr {item item' : AuditOutboxItem D} (h : item.submission = item'.submission) :
    itemSource item = itemSource item' := by
  rw [itemSource, itemSource, h]

theorem OutboxEmitted.of_noNew {outbox outbox' : MemoryAuditOutbox D}
    (h : OutboxEmitted config emitted (outbox.items.map Prod.snd))
    (hnew : ∀ item ∈ outbox'.items.map Prod.snd, itemSource item = config.sourceId →
      ∃ before ∈ outbox.items.map Prod.snd, before.submission = item.submission) :
    OutboxEmitted config emitted (outbox'.items.map Prod.snd) := by
  intro item hitem hsource
  obtain ⟨before, hbefore, hsame⟩ := hnew item hitem hsource
  obtain ⟨place, hplace⟩ := h before hbefore ((itemSource_congr hsame).trans hsource)
  exact ⟨place, hsame ▸ hplace⟩

/-- An outbox call of items that were emitted. -/
theorem Trailing.callOutbox (h : Trailing config w.1 w.2) {numbers : Doubles D}
    (call : OutboxCall D)
    (hcall : ∀ item, call = .enqueue item → itemSource item = config.sourceId →
      ∃ place, EmittedAt config w.2.emitted place item.submission.producerEvent) :
    Trailing config (w.1.setOutbox (call.run numbers w.1.outbox).2) w.2 := by
  refine ⟨h.lined, h.follows, h.claimer, ?_⟩
  intro item hitem hsource
  obtain ⟨before, hbefore, hsame⟩ | henqueued := mem_run_outbox hitem
  · obtain ⟨place, hplace⟩ := h.outbox before hbefore ((itemSource_congr hsame).trans hsource)
    exact ⟨place, hsame ▸ hplace⟩
  · exact hcall item henqueued hsource

end Protocol

end KyaOs.Audit
