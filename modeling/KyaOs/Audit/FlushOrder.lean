import KyaOs.Audit.SourceChain
import KyaOs.Concurrency.History

/-!
# The order of a flush

What one `flush` does, whatever its requests are answered and whatever other calls do meanwhile.
Items are tried in the order of the outbox, each once, and of a source no further than its first
item that failed. An item is marked delivered after the recorder took it, any other marked failed.
-/

namespace KyaOs.Audit

open Js Concurrency

variable {D ι : Type}

/-- An item that a flush submitted, and whether the recorder took it. -/
structure Attempt (D : Type) where
  item : AuditOutboxItem D
  taken : Bool

section Flush

variable (config : AuditTrailConfiguration D)

/-- The exchanges of an attempt: the recorder takes an item when it answers with an entry that
binds the event. -/
inductive Attempted (item : AuditOutboxItem D) :
    Bool → List (Exchange (trailSetting D ι)) → Prop
  | taken {entry : SignedAuditEntry D} {eventDigest : Digest}
      {receipted delivered : Except AuditError Unit} :
      validateEntry config item.submission entry eventDigest = .ok entry →
      Attempted item true
        [⟨.submit item.submission, .ok entry⟩,
          ⟨.hash item.submission.producerEvent, .ok eventDigest⟩,
          ⟨.markReceipted (itemSource item)
            (textAt item.submission.producerEvent ["source", "sourceSequence"]), receipted⟩,
          ⟨.markDelivered (acknowledgementKey config item), delivered⟩]
  | failed {submitting : List (Exchange (trailSetting D ι))} {error : AuditError}
      {marked : Except AuditError Unit} :
      (submitAndValidate config item.submission).Runs submitting (.error error) →
      Attempted item false
        (submitting ++ [⟨.markFailed (acknowledgementKey config item), marked⟩])

/-- One attempt after another. -/
inductive Attempts : List (Attempt D) → List (Exchange (trailSetting D ι)) → Prop
  | nil : Attempts [] []
  | cons {attempt : Attempt D} {attempts : List (Attempt D)}
      {first later : List (Exchange (trailSetting D ι))} :
      Attempted config attempt.item attempt.taken first → Attempts attempts later →
      Attempts (attempt :: attempts) (first ++ later)

variable {config} {log : List (Exchange (trailSetting D ι))}
  {submission : AuditRecorderSubmission D} {item : AuditOutboxItem D}
  {blockedSources : List JsString} {counts : FlushCounts} {items : List (AuditOutboxItem D)}

theorem validateEntry_eq {entry entry' : SignedAuditEntry D} {eventDigest : Digest}
    (h : validateEntry config submission entry eventDigest = .ok entry') : entry' = entry := by
  rw [validateEntry] at h
  split_ifs at h
  · cases h
  · obtain ⟨recorded, -, h⟩ := bind_eq_ok.mp h
    obtain ⟨submitted, -, h⟩ := bind_eq_ok.mp h
    split_ifs at h
    · cases h
    · exact (Except.ok.inj h).symm

theorem submitAndValidate_runs {entry : SignedAuditEntry D}
    (h : (submitAndValidate config submission : TrailM D ι _).Runs log (.ok entry)) :
    ∃ eventDigest, validateEntry config submission entry eventDigest = .ok entry ∧
      log = [⟨.submit submission, .ok entry⟩,
        ⟨.hash submission.producerEvent, .ok eventDigest⟩] := by
  obtain ⟨first, rest, answered, rfl, hsubmit, hrest⟩ := Async.runs_bind_ok.mp h
  obtain ⟨second, last, eventDigest, rfl, hhash, hvalid⟩ := Async.runs_bind_ok.mp hrest
  obtain rfl := Async.runs_ask.mp hsubmit
  obtain rfl := Async.runs_ask.mp hhash
  obtain ⟨rfl, hanswered⟩ := Async.runs_ofExcept.mp hvalid
  obtain rfl := validateEntry_eq hanswered.symm
  exact ⟨eventDigest, hanswered.symm, rfl⟩

theorem acknowledge_runs {result : Except AuditError Unit}
    (h : (acknowledge config item : TrailM D ι _).Runs log result) :
    result = .ok () ∧ ∃ receipted delivered : Except AuditError Unit,
      log = [⟨.markReceipted (itemSource item)
          (textAt item.submission.producerEvent ["source", "sourceSequence"]), receipted⟩,
        ⟨.markDelivered (acknowledgementKey config item), delivered⟩] := by
  obtain ⟨receipted, rest, rfl, hrest⟩ := Async.runs_outcome_ask_bind.mp h
  obtain ⟨delivered, last, rfl, hlast⟩ := Async.runs_outcome_ask_bind.mp hrest
  obtain ⟨rfl, rfl⟩ := Async.runs_pure.mp hlast
  exact ⟨rfl, receipted, delivered, rfl⟩

/-- What the loop does with an item whose source is not blocked. -/
theorem flushItems_cons_runs {result : Except AuditError FlushCounts}
    (hfree : itemSource item ∉ blockedSources)
    (h : (flushItems config blockedSources counts (item :: items) : TrailM D ι _).Runs log
      result) :
    ∃ first later, log = first ++ later ∧
      (Attempted config item true first ∧
          (flushItems config blockedSources { counts with delivered := counts.delivered + 1 }
            items : TrailM D ι _).Runs later result ∨
        Attempted config item false first ∧
          (flushItems config (itemSource item :: blockedSources)
            { counts with failed := counts.failed + 1 } items : TrailM D ι _).Runs later result ∨
        Attempted config item false first ∧ later = [] ∧ ∃ error, result = .error error ∧
          (⟨.markFailed (acknowledgementKey config item), .error error⟩ :
            Exchange (trailSetting D ι)) ∈ first) := by
  rw [flushItems, if_neg hfree] at h
  obtain ⟨submitting, rest, outcome, rfl, hsubmit, hrest⟩ := Async.runs_outcome_bind.mp h
  cases outcome with
  | ok entry =>
      obtain ⟨eventDigest, hvalid, rfl⟩ := submitAndValidate_runs hsubmit
      obtain ⟨marking, later, _, rfl, hmark, hlater⟩ | ⟨error, hmark, -⟩ := Async.runs_bind.mp hrest
      · obtain ⟨-, receipted, delivered, rfl⟩ := acknowledge_runs hmark
        exact ⟨_, later, (List.append_assoc ..).symm, .inl ⟨.taken hvalid, hlater⟩⟩
      · obtain ⟨hreturned, -⟩ := acknowledge_runs hmark
        cases hreturned
  | error error =>
      obtain ⟨marking, later, _, rfl, hmark, hlater⟩ | ⟨thrown, hmark, rfl⟩ :=
        Async.runs_bind.mp hrest
      · obtain rfl := Async.runs_ask.mp hmark
        exact ⟨_, later, (List.append_assoc ..).symm, .inr (.inl ⟨.failed hsubmit, hlater⟩)⟩
      · obtain rfl := Async.runs_ask.mp hmark
        exact ⟨_, [], (List.append_nil _).symm, .inr (.inr
          ⟨.failed hsubmit, rfl, thrown, rfl, List.mem_concat_self⟩)⟩

/-- The attempts at the items of one source: the first ones in order, all but the last taken. -/
structure UpToFailure (items : List (AuditOutboxItem D)) (tried : List (Attempt D)) : Prop where
  inOrder : tried.map Attempt.item <+: items
  taken : ∀ attempt ∈ tried.dropLast, attempt.taken

namespace UpToFailure

variable {tried : List (Attempt D)}

theorem nil : UpToFailure items [] := ⟨List.nil_prefix, nofun⟩

theorem cons (h : UpToFailure items tried) :
    UpToFailure (item :: items) (⟨item, true⟩ :: tried) where
  inOrder := (List.prefix_cons_inj item).mpr h.inOrder
  taken attempt hmem := by
    cases tried with
    | nil => cases hmem
    | cons second tried =>
        rw [List.dropLast_cons_cons] at hmem
        obtain rfl | hmem := List.mem_cons.mp hmem
        · rfl
        · exact h.taken attempt hmem

theorem single : UpToFailure (item :: items) [⟨item, false⟩] :=
  ⟨(List.prefix_cons_inj item).mpr List.nil_prefix, nofun⟩

end UpToFailure

def ofSource (source : JsString) (attempts : List (Attempt D)) : List (Attempt D) :=
  attempts.filter fun attempt => itemSource attempt.item = source

def itemsOf (source : JsString) (items : List (AuditOutboxItem D)) : List (AuditOutboxItem D) :=
  items.filter fun item => itemSource item = source

/-- The attempts of a loop over the items; a source that is blocked already is left alone. -/
structure Tries (blockedSources : List JsString) (items : List (AuditOutboxItem D))
    (attempts : List (Attempt D)) : Prop where
  once : (attempts.map Attempt.item).Sublist items
  blocked : ∀ source ∈ blockedSources, ofSource source attempts = []
  upToFailure : ∀ source, UpToFailure (itemsOf source items) (ofSource source attempts)

/-- A source that is not blocked is tried to its end, unless one of its items fails. -/
def Exhausts (blockedSources : List JsString) (items : List (AuditOutboxItem D))
    (attempts : List (Attempt D)) : Prop :=
  ∀ source ∉ blockedSources, (∀ attempt ∈ ofSource source attempts, attempt.taken) →
    (ofSource source attempts).map Attempt.item = itemsOf source items

section Sources

variable {attempts : List (Attempt D)} {source : JsString}

theorem itemsOf_cons : itemsOf source (item :: items) =
    if itemSource item = source then item :: itemsOf source items else itemsOf source items := by
  simp [itemsOf, List.filter_cons]

theorem ofSource_cons {taken : Bool} : ofSource source (⟨item, taken⟩ :: attempts) =
    if itemSource item = source then ⟨item, taken⟩ :: ofSource source attempts
    else ofSource source attempts := by
  simp [ofSource, List.filter_cons]

theorem tries_nil : Tries blockedSources items [] :=
  ⟨List.nil_sublist items, fun _ _ => rfl, fun _ => .nil⟩

theorem Tries.skip (h : Tries blockedSources items attempts)
    (hblocked : itemSource item ∈ blockedSources) :
    Tries blockedSources (item :: items) attempts where
  once := h.once.cons item
  blocked := h.blocked
  upToFailure source := by
    rw [itemsOf_cons]
    split_ifs with hsource
    · rw [h.blocked source (by rwa [← hsource])]
      exact .nil
    · exact h.upToFailure source

theorem Tries.take (h : Tries blockedSources items attempts)
    (hfree : itemSource item ∉ blockedSources) :
    Tries blockedSources (item :: items) (⟨item, true⟩ :: attempts) where
  once := h.once.cons_cons item
  blocked source hsource := by
    rw [ofSource_cons, if_neg (ne_of_mem_of_not_mem hsource hfree).symm]
    exact h.blocked source hsource
  upToFailure source := by
    rw [itemsOf_cons, ofSource_cons]
    split_ifs with hsource
    · exact (h.upToFailure source).cons
    · exact h.upToFailure source

theorem Tries.fail (h : Tries (itemSource item :: blockedSources) items attempts)
    (hfree : itemSource item ∉ blockedSources) :
    Tries blockedSources (item :: items) (⟨item, false⟩ :: attempts) where
  once := h.once.cons_cons item
  blocked source hsource := by
    rw [ofSource_cons, if_neg (ne_of_mem_of_not_mem hsource hfree).symm]
    exact h.blocked source (List.mem_cons_of_mem _ hsource)
  upToFailure source := by
    rw [itemsOf_cons, ofSource_cons]
    split_ifs with hsource
    · rw [h.blocked source (by rw [← hsource]; exact List.mem_cons_self)]
      exact .single
    · exact h.upToFailure source

theorem Exhausts.skip (h : Exhausts blockedSources items attempts)
    (hblocked : itemSource item ∈ blockedSources) :
    Exhausts blockedSources (item :: items) attempts := by
  intro source hsource htaken
  rw [itemsOf_cons, if_neg (ne_of_mem_of_not_mem hblocked hsource)]
  exact h source hsource htaken

theorem Exhausts.take (h : Exhausts blockedSources items attempts) :
    Exhausts blockedSources (item :: items) (⟨item, true⟩ :: attempts) := by
  intro source hsource htaken
  rw [ofSource_cons] at htaken ⊢
  rw [itemsOf_cons]
  split_ifs at htaken ⊢ with heq
  · rw [List.map_cons, h source hsource fun attempt hmem =>
      htaken attempt (List.mem_cons_of_mem _ hmem)]
  · exact h source hsource htaken

theorem Exhausts.fail (h : Exhausts (itemSource item :: blockedSources) items attempts) :
    Exhausts blockedSources (item :: items) (⟨item, false⟩ :: attempts) := by
  intro source hsource htaken
  rw [ofSource_cons] at htaken ⊢
  rw [itemsOf_cons]
  split_ifs at htaken ⊢ with heq
  · cases htaken _ List.mem_cons_self
  · refine h source ?_ htaken
    rintro (_ | ⟨_, hmem⟩)
    · exact heq rfl
    · exact hsource hmem

end Sources

/-- What a loop over the items did, and what it came to. -/
structure Flushes (config : AuditTrailConfiguration D) (blockedSources : List JsString)
    (items : List (AuditOutboxItem D)) (counts : FlushCounts) (attempts : List (Attempt D))
    (log : List (Exchange (trailSetting D ι))) (result : Except AuditError FlushCounts) :
    Prop where
  attempted : Attempts config attempts log
  tries : Tries blockedSources items attempts
  exhausts : ∀ final, result = .ok final → Exhausts blockedSources items attempts
  counted : ∀ final, result = .ok final →
    final = ⟨counts.delivered + attempts.countP (·.taken),
      counts.failed + attempts.countP (!·.taken)⟩
  thrown : ∀ error, result = .error error → ∃ item ∈ items,
    (⟨.markFailed (acknowledgementKey config item), .error error⟩ :
      Exchange (trailSetting D ι)) ∈ log

section Loop

variable {blockedSources' : List JsString} {counts' : FlushCounts} {attempts : List (Attempt D)}
  {first later : List (Exchange (trailSetting D ι))} {result : Except AuditError FlushCounts}

theorem flushes_nil : Flushes config blockedSources [] counts []
    ([] : List (Exchange (trailSetting D ι))) (.ok counts) where
  attempted := .nil
  tries := tries_nil
  exhausts _ _ _ _ _ := rfl
  counted _ hfinal := (Except.ok.inj hfinal).symm
  thrown _ herror := by cases herror

theorem Flushes.skip (h : Flushes config blockedSources items counts attempts log result)
    (hblocked : itemSource item ∈ blockedSources) :
    Flushes config blockedSources (item :: items) counts attempts log result where
  attempted := h.attempted
  tries := h.tries.skip hblocked
  exhausts final hfinal := (h.exhausts final hfinal).skip hblocked
  counted := h.counted
  thrown error herror := by
    obtain ⟨failed, hmem, hlog⟩ := h.thrown error herror
    exact ⟨failed, List.mem_cons_of_mem _ hmem, hlog⟩

/-- An attempt before those of the rest of the loop. -/
theorem Flushes.cons {taken : Bool}
    (h : Flushes config blockedSources' items counts' attempts later result)
    (hattempted : Attempted config item taken first)
    (htries : Tries blockedSources (item :: items) (⟨item, taken⟩ :: attempts))
    (hexhausts : Exhausts blockedSources' items attempts →
      Exhausts blockedSources (item :: items) (⟨item, taken⟩ :: attempts))
    (hdelivered : counts'.delivered = counts.delivered + taken.toNat)
    (hfailed : counts'.failed = counts.failed + (!taken).toNat) :
    Flushes config blockedSources (item :: items) counts (⟨item, taken⟩ :: attempts)
      (first ++ later) result where
  attempted := .cons hattempted h.attempted
  tries := htries
  exhausts final hfinal := hexhausts (h.exhausts final hfinal)
  counted final hfinal := by
    rw [h.counted final hfinal, hdelivered, hfailed]
    cases taken <;> simp [Nat.add_assoc, Nat.add_comm 1]
  thrown error herror := by
    obtain ⟨failed, hmem, hlog⟩ := h.thrown error herror
    exact ⟨failed, List.mem_cons_of_mem _ hmem, List.mem_append_right _ hlog⟩

/-- The outbox throws at the mark of the item: nothing follows. -/
theorem Flushes.stop {error : AuditError} (hattempted : Attempted config item false first)
    (htries : Tries blockedSources (item :: items) [⟨item, false⟩])
    (hthrown : (⟨.markFailed (acknowledgementKey config item), .error error⟩ :
      Exchange (trailSetting D ι)) ∈ first) :
    Flushes config blockedSources (item :: items) counts [⟨item, false⟩] (first ++ [])
      (.error error) where
  attempted := .cons hattempted .nil
  tries := htries
  exhausts _ hfinal := by cases hfinal
  counted _ hfinal := by cases hfinal
  thrown := by
    rintro _ ⟨⟩
    exact ⟨item, List.mem_cons_self, List.mem_append_left _ hthrown⟩

/-- By induction on the items: each is left alone, taken or failed, and the rest of the loop
follows unless the outbox throws. -/
theorem flushItems_runs
    (h : (flushItems config blockedSources counts items : TrailM D ι _).Runs log result) :
    ∃ attempts, Flushes config blockedSources items counts attempts log result := by
  induction items generalizing blockedSources counts log with
  | nil =>
      obtain ⟨rfl, rfl⟩ := Async.runs_pure.mp h
      exact ⟨[], flushes_nil⟩
  | cons item items ih =>
      by_cases hblocked : itemSource item ∈ blockedSources
      · rw [flushItems, if_pos hblocked] at h
        obtain ⟨attempts, hrest⟩ := ih h
        exact ⟨attempts, hrest.skip hblocked⟩
      · obtain ⟨first, later, rfl, ⟨htaken, hlater⟩ | ⟨hfailed, hlater⟩ |
          ⟨hfailed, rfl, error, rfl, hthrown⟩⟩ := flushItems_cons_runs hblocked h
        · obtain ⟨attempts, hrest⟩ := ih hlater
          exact ⟨_, hrest.cons htaken (hrest.tries.take hblocked) Exhausts.take rfl rfl⟩
        · obtain ⟨attempts, hrest⟩ := ih hlater
          exact ⟨_, hrest.cons hfailed (hrest.tries.fail hblocked) Exhausts.fail rfl rfl⟩
        · exact ⟨_, .stop hfailed (tries_nil.fail hblocked) hthrown⟩

end Loop

/-- The whole conversation of a flush, and what it returns or throws. -/
inductive FlushConversation (config : AuditTrailConfiguration D) (limit : Option Nat) :
    List (Exchange (trailSetting D ι)) → Except AuditError FlushCounts → Prop
  | unbuffered : config.delivery ≠ .buffered → FlushConversation config limit [] (.ok ⟨0, 0⟩)
  | refused {error : AuditError} : config.delivery = .buffered →
      FlushConversation config limit [⟨.pending limit, .error error⟩] (.error error)
  | listed {items : List (AuditOutboxItem D)} {attempts : List (Attempt D)}
      {log : List (Exchange (trailSetting D ι))} {result : Except AuditError FlushCounts} :
      config.delivery = .buffered → Flushes config [] items ⟨0, 0⟩ attempts log result →
      FlushConversation config limit (⟨.pending limit, .ok items⟩ :: log) result

theorem flush_runs {limit : Option Nat} {result : Except AuditError FlushCounts}
    (h : (flush config limit : TrailM D ι _).Runs log result) :
    FlushConversation config limit log result := by
  rw [flush] at h
  split_ifs at h with hunbuffered
  · obtain ⟨rfl, rfl⟩ := Async.runs_pure.mp h
    exact .unbuffered hunbuffered
  · have hbuffered := not_not.mp hunbuffered
    obtain ⟨asked, later, items, rfl, hpending, hitems⟩ | ⟨error, hpending, rfl⟩ :=
      Async.runs_bind.mp h
    · obtain rfl := Async.runs_ask.mp hpending
      obtain ⟨attempts, hflushes⟩ := flushItems_runs hitems
      exact .listed hbuffered hflushes
    · obtain rfl := Async.runs_ask.mp hpending
      exact .refused hbuffered

end Flush

section Runs

variable [DecidableEq ι]

/-- In every run, what a flush has asked so far begins such a conversation, and is all of it once
the flush has ended. -/
theorem flush_in_order (config : AuditTrailConfiguration D) (calls : ι → TrailCall D) (now : D)
    (history : History (trailSetting D ι) ι)
    (final : Config (trailSetting D ι) ι (TrailResult D))
    (hrecords : (trailProgram config calls).Records (Program.initial (.empty now)) history final)
    (c : ι) (limit : Option Nat) (hcall : calls c = .flush limit) :
    ∃ later result, FlushConversation config limit (history.of c ++ later) result ∧
      ∀ born answer, final.calls c = some ⟨born, .finished answer⟩ →
        later = [] ∧ answer = result.map TrailResult.flushed := by
  obtain ⟨later, answer, hruns, hended⟩ :=
    hrecords.exists_runs c (.protocol .JOURNAL_FAILURE [])
  have hcode : (trailProgram config calls).code c = (TrailCall.flush limit).run config c :=
    congrArg (TrailCall.run config c) hcall
  rw [hcode] at hruns
  obtain ⟨first, rest, counts, hlog, hflush, hreturned⟩ | ⟨error, hthrown, rfl⟩ :=
    Async.runs_bind.mp hruns
  · obtain ⟨rfl, rfl⟩ := Async.runs_pure.mp hreturned
    rw [List.append_nil] at hlog
    exact ⟨later, .ok counts, hlog ▸ flush_runs hflush, hended⟩
  · exact ⟨later, .error error, flush_runs hthrown, hended⟩

end Runs

section Solo

open Async.Leads

variable {config : AuditTrailConfiguration D} {item : AuditOutboxItem D}
  {rest : List (AuditOutboxItem D)} {blockedSources : List JsString} {counts : FlushCounts}
  {world failed receipted delivered world' : TrailWorld D ι} {entry : SignedAuditEntry D}
  {error : AuditError} {thread : Thread (trailSetting D ι) FlushCounts}

theorem flushItems_blocked (hblocked : itemSource item ∈ blockedSources)
    (hrest : (flushItems config blockedSources counts rest).Leads (serveTrail config) world world'
      thread) :
    (flushItems config blockedSources counts (item :: rest)).Leads (serveTrail config) world world'
      thread := by
  rw [flushItems, if_pos hblocked]
  exact hrest

theorem flushItems_fails (hopen : itemSource item ∉ blockedSources)
    (hsubmit : (submitAndValidate config item.submission).Leads (serveTrail config) world world
      (.finished (.error error)))
    (hfailed : serveTrail config (.markFailed (acknowledgementKey config item)) world (.ok ())
      failed)
    (hrest : (flushItems config (itemSource item :: blockedSources)
      { counts with failed := counts.failed + 1 } rest).Leads (serveTrail config) failed world'
      thread) :
    (flushItems config blockedSources counts (item :: rest)).Leads (serveTrail config) world world'
      thread := by
  rw [flushItems, if_neg hopen]
  exact bind (andThen hsubmit .done) (ask_bind hfailed hrest)

theorem flushItems_takes {answer answer' : Except AuditError Unit}
    (hopen : itemSource item ∉ blockedSources)
    (hsubmit : (submitAndValidate config item.submission).Leads (serveTrail config) world world
      (.finished (.ok entry)))
    (hreceipted : serveTrail config (.markReceipted (itemSource item)
      (textAt item.submission.producerEvent ["source", "sourceSequence"])) world answer receipted)
    (hdelivered : serveTrail config (.markDelivered (acknowledgementKey config item)) receipted
      answer' delivered)
    (hrest : (flushItems config blockedSources { counts with delivered := counts.delivered + 1 }
      rest).Leads (serveTrail config) delivered world' thread) :
    (flushItems config blockedSources counts (item :: rest)).Leads (serveTrail config) world world'
      thread := by
  rw [flushItems, if_neg hopen]
  have hacknowledge : (acknowledge config item).Leads (serveTrail config) world delivered
      (.finished (.ok ())) :=
    bind (andThen (ask hreceipted) .done) (bind (andThen (ask hdelivered) .done) .done)
  exact bind (andThen hsubmit .done) (bind hacknowledge hrest)

end Solo

section Sample

open Async.Leads

/-- An item that another trail put into the outbox. -/
def foreignItem (sourceId eventId : JsString) : AuditOutboxItem SampleDouble where
  eventId
  submission := submissionOf sampleTrail
    (.object [(js "source", .object [(js "sourceId", .string sourceId)])]) []
  enqueuedAt := .zero
  attempts := 0

/-- Two items of one source, and one of another. -/
def foreignItems : List (AuditOutboxItem SampleDouble) :=
  [foreignItem (js "other") (js "first"), foreignItem (js "other") (js "second"),
    foreignItem (js "third") (js "first")]

abbrev sampleFlushing := trailProgram sampleTrail fun _ : Unit => .flush none

def filledWorld : TrailWorld SampleDouble Unit :=
  (TrailWorld.empty .zero).setOutbox
    ⟨foreignItems.map fun item => (storageKey (auditOutboxItemKey item), item)⟩

theorem othersActed_filledWorld : OthersActed sampleTrail (.empty .zero) filledWorld where
  construction := rfl
  source := rfl
  outbox := by
    have hforeign : ∀ item ∈ filledWorld.outbox.items.map Prod.snd,
        itemSource item ≠ sampleTrail.sourceId := by
      simp only [filledWorld, foreignItems, TrailWorld.setOutbox, List.map_cons, List.map_nil,
        List.forall_mem_cons]
      exact ⟨by decide, by decide, by decide, List.forall_mem_nil _⟩
    exact fun item hmem hsource => absurd hsource (hforeign item hmem)

/-- The recorder answers with an entry of the event. -/
theorem submitAndValidate_leads {submission : AuditRecorderSubmission SampleDouble}
    {world : TrailWorld SampleDouble Unit} (hledger : submission.ledgerId = js "ledger")
    (hcanonical : isCanonical sampleDoubles submission.producerEvent = true) :
    (submitAndValidate sampleTrail submission).Leads (serveTrail sampleTrail) world world
      (.finished (.ok (sampleEntry submission.producerEvent none))) := by
  obtain ⟨hwellFormed, hsupported⟩ := canonical_of_isCanonical _ hcanonical
  obtain ⟨text, htext⟩ := (canonicalizeJson_eq_ok sampleDoubles_prints hwellFormed).mpr hsupported
  have hhash : serveTrail sampleTrail (.hash submission.producerEvent) world
      (.ok (sampleDigest .event submission.producerEvent)) world := by
    refine ⟨?_, rfl⟩
    rintro digest ⟨⟩
    exact sampleDigest_eq hwellFormed hsupported
  have hvalid : validateEntry sampleTrail submission (sampleEntry submission.producerEvent none)
      (sampleDigest .event submission.producerEvent) =
        .ok (sampleEntry submission.producerEvent none) := by
    have hbinds : ¬ ((sampleEntry submission.producerEvent none).core.ledgerId ≠
        submission.ledgerId ∨ (sampleEntry submission.producerEvent none).eventDigest ≠
          sampleDigest .event submission.producerEvent ∨
        (sampleEntry submission.producerEvent none).core.eventDigest ≠
          sampleDigest .event submission.producerEvent) := by
      rw [hledger]
      rintro (h | h | h) <;> exact h rfl
    have hevent : orOther (canonicalizeJson sampleTrail.runtime.numbers submission.producerEvent) =
        .ok text := congrArg orOther htext
    rw [validateEntry, if_neg hbinds]
    exact bind_eq_ok.mpr ⟨text, hevent, bind_eq_ok.mpr ⟨text, hevent, if_neg (not_not.mpr rfl)⟩⟩
  have hsubmit : serveTrail sampleTrail (.submit submission) world
      (.ok (sampleEntry submission.producerEvent none)) world := rfl
  refine ask_bind hsubmit (ask_bind hhash ?_)
  rw [hvalid]
  exact .done

/-- The outbox after the first item has failed. -/
def failedWorld : TrailWorld SampleDouble Unit :=
  filledWorld.setOutbox (filledWorld.outbox.markFailed
    (acknowledgementKey sampleTrail (foreignItem (js "other") (js "first")))).2

/-- What the outbox holds in the end. -/
def leftItems : List (AuditOutboxItem SampleDouble) :=
  [{ foreignItem (js "other") (js "first") with attempts := 1 },
    foreignItem (js "other") (js "second")]

/-- The recorder refuses the first item, and takes the last. -/
theorem flush_leads : ∃ (k : Except AuditError (List (AuditOutboxItem SampleDouble)) →
      TrailM SampleDouble Unit (TrailResult SampleDouble)) (world' : TrailWorld SampleDouble Unit),
    (sampleFlushing.code ()).advance filledWorld = (filledWorld, .waiting (.pending none) k) ∧
      (k (.ok foreignItems)).Leads (sampleFlushing.serves ()) filledWorld world'
        (.finished (.ok (.flushed ⟨1, 1⟩))) ∧
      world'.outbox.items.map Prod.snd = leftItems := by
  have hrefused : (submitAndValidate sampleTrail
      (foreignItem (js "other") (js "first")).submission).Leads (serveTrail sampleTrail) filledWorld
      filledWorld (.finished (.error (.protocol .JOURNAL_FAILURE []))) := bind_error (ask rfl)
  have hfailed : serveTrail sampleTrail (.markFailed (acknowledgementKey sampleTrail
      (foreignItem (js "other") (js "first")))) filledWorld (.ok ()) failedWorld := .inr ⟨rfl, rfl⟩
  have htaken : (submitAndValidate sampleTrail
      (foreignItem (js "third") (js "first")).submission).Leads (serveTrail sampleTrail) failedWorld
      failedWorld (.finished (.ok _)) := submitAndValidate_leads rfl (by decide +kernel)
  have hlast : (flushItems sampleTrail [js "other"] ⟨0, 1⟩
      [foreignItem (js "third") (js "first")]).Leads (serveTrail sampleTrail) failedWorld _
      (.finished (.ok ⟨1, 1⟩)) :=
    flushItems_takes (by decide) htaken (.inr ⟨rfl, rfl⟩) (.inr ⟨rfl, rfl⟩) .done
  have hflush : (flushItems sampleTrail [] ⟨0, 0⟩ foreignItems).Leads (serveTrail sampleTrail)
      filledWorld _ (.finished (.ok ⟨1, 1⟩)) :=
    flushItems_fails List.not_mem_nil hrefused hfailed
      (flushItems_blocked (List.mem_singleton_self _) hlast)
  exact ⟨_, _, rfl, bind hflush .done, rfl⟩

/-- A source is given up after its first item, the other is delivered. -/
theorem flush_in_order_sample : ∃ final history attempts later,
    sampleFlushing.Records (Program.initial (.empty .zero)) history final ∧
      history.of () = ⟨.pending none, .ok foreignItems⟩ :: later ∧
      Flushes sampleTrail [] foreignItems ⟨0, 0⟩ attempts later (.ok ⟨1, 1⟩) ∧
      final.state.outbox.items.map Prod.snd = leftItems := by
  obtain ⟨k, world', hadvance, hleads, hleft⟩ := flush_leads
  let filled : Config (trailSetting SampleDouble Unit) Unit (TrailResult SampleDouble) :=
    ⟨filledWorld, fun _ => none⟩
  obtain ⟨called, hcalled⟩ :=
    filled.exists_moves () filledWorld ⟨filledWorld, .ready (sampleFlushing.code ())⟩
  obtain ⟨waiting, hwaiting⟩ := called.exists_moves () ((sampleFlushing.code ()).advance
    called.state).1 ⟨filledWorld, ((sampleFlushing.code ()).advance called.state).2⟩
  obtain ⟨listed, hlisted⟩ := waiting.exists_moves () filledWorld
    ⟨filledWorld, .ready (k (.ok foreignItems))⟩
  have hrecords : sampleFlushing.Records (Program.initial (.empty .zero)) [] waiting :=
    .run (.call (.act .refl othersActed_filledWorld) rfl hcalled) hcalled.moved hwaiting
  rw [hcalled.state, hadvance] at hwaiting
  have hserves : sampleFlushing.serves () (.pending none) waiting.state (.ok foreignItems)
      filledWorld := by
    rw [hwaiting.state]
    exact .inr ⟨rfl, rfl⟩
  have hserved := hrecords.serve hwaiting.moved hserves hlisted
  rw [← hlisted.state] at hleads
  obtain ⟨final, hreaches, hmoves⟩ := hleads.reaches hlisted.moved
  obtain ⟨more, hrecorded⟩ := hserved.reaches hreaches
  obtain ⟨later, result, hconversation, hended⟩ :=
    flush_in_order sampleTrail _ .zero _ final hrecorded () none rfl
  obtain ⟨rfl, hresult⟩ := hended _ _ hmoves.moved
  have hlog : (([] ++ [((), ⟨.pending none, .ok foreignItems⟩)] ++ more :
      History (trailSetting SampleDouble Unit) Unit)).of () =
        ⟨.pending none, .ok foreignItems⟩ :: History.of more () := by
    rw [History.of_append]
    rfl
  rw [List.append_nil, hlog] at hconversation
  cases hconversation with
  | listed _ hflushes =>
      cases result with
      | error => cases hresult
      | ok counts =>
          cases hresult
          exact ⟨final, _, _, _, hrecorded, hlog, hflushes, hmoves.state ▸ hleft⟩

end Sample

end KyaOs.Audit
