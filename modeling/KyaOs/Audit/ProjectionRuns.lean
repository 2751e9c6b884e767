import KyaOs.Audit.ProjectionSteps
import KyaOs.Audit.RecorderSolo

/-!
# A faithful projection

Whatever workers and appends interleave, the records are those of the journal's first entries
and the offset is that of the last of them. `reconcile` takes a projection for a gap only where
it read the head first and the projection has gone past that head since.
-/

namespace KyaOs.Audit

open Js Concurrency HashChain

variable {D : Type}

section Runs

variable {worker : AuditProjectionWorker} {ι : Type} {calls : ι → ProjectionCall}
  {served : ι → Exchange (projectionSetting D) → Prop} {c : ι}
  {ledger : AuditLedgerRef} {early : Option AuditHead → Prop}

def AuditHead.offset (head : AuditHead) : AuditProjectionOffset where
  sequence := head.sequence
  entryDigest := head.entryDigest

/-- Both heads are those of prefixes; the projection's is within the journal's, unless that was
read first. -/
def HeadsOf (early : Option AuditHead → Prop) (ledger : AuditLedgerRef)
    (heads : Option AuditHead × Option AuditProjectionOffset) (log : List (Commit D)) : Prop :=
  ∃ seen front, seen <+: rowsOf log ledger ∧ front <+: rowsOf log ledger ∧
    heads.1.map AuditHead.offset = lastOffset seen ∧ heads.2 = lastOffset front ∧
    (early heads.1 ∨ front <+: seen)

/-- What the first of the two reads says, or both. -/
def FirstOf (early : Option AuditHead → Prop) (ledger : AuditLedgerRef) (log : List (Commit D)) :
    FirstServed → Prop
  | .head journalHead => early journalHead ∧
      ∃ seen, seen <+: rowsOf log ledger ∧ journalHead.map AuditHead.offset = lastOffset seen
  | .offset projectionHead =>
      ∃ front, front <+: rowsOf log ledger ∧ projectionHead = lastOffset front
  | .both journalHead projectionHead => HeadsOf early ledger (journalHead, projectionHead) log

theorem lasting_headsOf {heads : Option AuditHead × Option AuditProjectionOffset} :
    Lasting (D := D) (HeadsOf early ledger heads) := by
  rintro log log' hgrown ⟨seen, front, hseen, hfront, hheads⟩
  have hrows := rowsOf_grows hgrown ledger
  exact ⟨seen, front, hseen.trans hrows, hfront.trans hrows, hheads⟩

theorem lasting_firstOf {first : FirstServed} :
    Lasting fun log : List (Commit D) => FirstOf early ledger log first := by
  intro log log' hgrown hfirst
  have hrows := rowsOf_grows hgrown ledger
  cases first with
  | head journalHead =>
      obtain ⟨hearly, seen, hseen, hhead⟩ := hfirst
      exact ⟨hearly, seen, hseen.trans hrows, hhead⟩
  | offset projectionHead =>
      obtain ⟨front, hfront, hoffset⟩ := hfirst
      exact ⟨front, hfront.trans hrows, hoffset⟩
  | both journalHead projectionHead => exact lasting_headsOf log log' hgrown hfirst

theorem ProjectionWorld.Faithful.head {projectionId : JsString} {world : ProjectionWorld D}
    {log : List (Commit D)} (h : world.Faithful projectionId log) :
    (world.journal.getHead ledger).map AuditHead.offset = lastOffset (rowsOf log ledger) := by
  rw [h.journal, getHead_replay, lastOffset, rowsOf, List.getLast?_map, Option.map_map,
    Option.map_map]
  rfl

theorem contract_readHeads :
    (projectionProtocol worker served : Protocol _ ι _).Contract c (fun _ => True)
      (readHeads (D := D) worker ledger) fun result w => ∃ heads, result = .ok heads ∧
        HeadsOf (ReadFirst worker served c ledger) ledger heads w.2 := by
  refine contract_afterRead (fun _ => True)
    (fun first log => FirstOf (ReadFirst worker served c ledger) ledger log first)
    lasting_true (fun _ => lasting_firstOf) ?_ fun first => ?_
  · rintro world log answer _ hfaithful - ⟨hanswer, rfl⟩ hserved
    obtain ⟨front, hfront, -, hoffset⟩ := hfaithful.projected ledger
    refine ⟨rfl, ?_⟩
    rcases hanswer with rfl | rfl | rfl
    · exact ⟨_, rfl, hserved, _, List.prefix_rfl, hfaithful.head⟩
    · exact ⟨_, rfl, front, hfront, hoffset⟩
    · exact ⟨_, rfl, _, front, List.prefix_rfl, hfront, hfaithful.head, hoffset, .inr hfront⟩
  cases first with
  | head journalHead =>
      refine .of_weaker (fun w => FirstOf (ReadFirst worker served c ledger) ledger w.2
        (.head journalHead))
        (contract_afterRead (fun log => FirstOf (ReadFirst worker served c ledger) ledger log
          (.head journalHead))
          (fun projectionHead log => FirstOf (ReadFirst worker served c ledger) ledger log
            (.offset projectionHead))
          lasting_firstOf (fun _ => lasting_firstOf) ?_ fun projectionHead => ?_) fun w _ h => h.2
      · rintro world log answer _ hfaithful - ⟨rfl, rfl⟩ -
        obtain ⟨front, hfront, -, hoffset⟩ := hfaithful.projected ledger
        exact ⟨rfl, _, rfl, front, hfront, hoffset⟩
      · refine .pure ?_
        rintro w - ⟨⟨hearly, seen, hseen, hhead⟩, front, hfront, hoffset⟩
        exact ⟨_, rfl, seen, front, hseen, hfront, hhead, hoffset, .inl hearly⟩
  | offset projectionHead =>
      refine .of_weaker (fun w => FirstOf (ReadFirst worker served c ledger) ledger w.2
        (.offset projectionHead))
        (contract_afterRead (fun log => FirstOf (ReadFirst worker served c ledger) ledger log
          (.offset projectionHead))
          (fun journalHead => HeadsOf (ReadFirst worker served c ledger) ledger
            (journalHead, projectionHead))
          lasting_firstOf (fun _ => lasting_headsOf) ?_ fun journalHead => ?_) fun w _ h => h.2
      · rintro world log answer _ hfaithful ⟨front, hfront, hoffset⟩ ⟨rfl, rfl⟩ -
        exact ⟨rfl, _, rfl, _, front, List.prefix_rfl, hfront, hfaithful.head, hoffset,
          .inr hfront⟩
      · exact .pure fun w _ h => ⟨_, rfl, h.2⟩
  | both journalHead projectionHead =>
      exact .pure fun w _ h => ⟨_, rfl, h.2⟩

/-- An offset that names an entry, the head being that entry's where both are at one position;
unless the head was read first, there is one and it is not behind. -/
structure NamesEntry (early : Option AuditHead → Prop) (rows : List (SignedAuditEntry D))
    (journalHead : Option AuditHead) (offset : AuditProjectionOffset)
    (entry : SignedAuditEntry D) : Prop where
  row : rows[offset.sequence]? = some entry
  named : offset = entry.offset
  agrees : ∀ head ∈ journalHead, head.sequence = offset.sequence →
    head.entryDigest = offset.entryDigest
  reached : early journalHead ∨ ∃ head, journalHead = some head ∧ offset.sequence ≤ head.sequence

theorem HeadsOf.namesEntry {log : List (Commit D)} {journalHead : Option AuditHead}
    {offset : AuditProjectionOffset} (h : HeadsOf early ledger (journalHead, some offset) log)
    (hcomplete : entryLinks.Complete (rowsOf log ledger)) :
    ∃ entry, NamesEntry early (rowsOf log ledger) journalHead offset entry := by
  obtain ⟨seen, front, hseen, hfront, hhead, hoffset, hwithin⟩ := h
  obtain ⟨entry, hentry, hnamed, hlength⟩ :=
    lastOffset_eq_some (hcomplete.of_front hfront) hoffset.symm
  have hrow := getElem?_of_front hfront hentry
  refine ⟨entry, hrow, hnamed, ?_, ?_⟩
  · rintro head rfl hsame
    obtain ⟨other, hother, hnamed', -⟩ :=
      lastOffset_eq_some (hcomplete.of_front hseen) hhead.symm
    have hother := getElem?_of_front hseen hother
    have hposition : head.offset.sequence = offset.sequence := hsame
    rw [hposition, hrow] at hother
    obtain rfl := Option.some.inj hother
    exact congrArg AuditProjectionOffset.entryDigest (hnamed'.trans hnamed.symm)
  · refine hwithin.imp_right fun hwithin => ?_
    have hshort := hwithin.length_le
    cases journalHead with
    | none =>
        rw [lastOffset_eq_none.mp hhead.symm, hlength] at hshort
        cases hshort
    | some head =>
        obtain ⟨_, -, -, hlength'⟩ := lastOffset_eq_some (hcomplete.of_front hseen) hhead.symm
        have hposition : head.offset.sequence = head.sequence := rfl
        exact ⟨head, rfl, by omega⟩

/-- An offset that no head has reached. -/
theorem HeadsOf.explained {log : List (Commit D)} {journalHead : Option AuditHead}
    {offset : AuditProjectionOffset} (h : HeadsOf early ledger (journalHead, some offset) log)
    (hcomplete : entryLinks.Complete (rowsOf log ledger))
    (hahead : ∀ head ∈ journalHead, head.sequence < offset.sequence) :
    early journalHead ∧ ∃ entry ∈ rowsOf log ledger, some offset = some entry.offset ∧
      ∀ head ∈ journalHead, head.sequence < entry.core.sequence := by
  obtain ⟨entry, hrow, rfl, -, hearly | ⟨head, hhead, hreached⟩⟩ := h.namesEntry hcomplete
  · exact ⟨hearly, entry, List.mem_of_getElem? hrow, rfl, hahead⟩
  · exact absurd (hahead head hhead) (not_lt.mpr hreached)

theorem readRange_at {log : List (Commit D)} (hcomplete : entryLinks.Complete (rowsOf log ledger))
    (sequence : Nat) :
    ((replay log).readRange ledger (if 0 < sequence then some (sequence - 1) else none)
      (some 1)).head? = (rowsOf log ledger)[sequence]? := by
  have hstart : startAfter (if 0 < sequence then some (sequence - 1) else none) = sequence := by
    split_ifs with hpos
    · exact Nat.sub_add_cancel hpos
    · exact (Nat.eq_zero_of_not_pos hpos).symm
  rw [readRange_replay hcomplete, hstart, List.head?_take, if_neg one_ne_zero, List.head?_drop]

/-- The entry that an offset names is found again. -/
theorem contract_entryAt {entry : SignedAuditEntry D} {sequence : Nat} :
    (projectionProtocol worker served : Protocol _ ι _).Contract c
      (fun w => (rowsOf w.2 ledger)[sequence]? = some entry) (entryAt ledger sequence)
      fun result _ => result = .ok (some entry) := by
  have hlasting : Lasting fun log => (rowsOf log ledger)[sequence]? = some entry :=
    fun _ _ hgrown hentry => getElem?_of_front (rowsOf_grows hgrown ledger) hentry
  refine contract_afterRead (fun log => (rowsOf log ledger)[sequence]? = some entry)
    (fun (entries : List (SignedAuditEntry D)) _ =>
      entries.head?.filter (fun entry => entry.core.sequence = sequence) = some entry)
    hlasting (fun _ _ _ _ hread => hread) ?_ fun entries => ?_
  · rintro world log answer _ hfaithful hentry ⟨rfl, rfl⟩ -
    have hsequence : entry.core.sequence = sequence :=
      (hfaithful.chained ledger).sequence_eq hentry
    refine ⟨rfl, _, rfl, ?_⟩
    rw [hfaithful.journal, readRange_at (hfaithful.chained ledger), hentry]
    exact Option.filter_some_pos (decide_eq_true hsequence)
  · exact .pure fun w _ h => congrArg Except.ok h.2

/-- An offset behind the head is pending. -/
theorem contract_pendingStatus {head : AuditHead} {offset : AuditProjectionOffset} :
    (projectionProtocol worker served : Protocol _ ι _).Contract c
      (fun w => HeadsOf (D := D) (ReadFirst worker served c ledger) ledger
        (some head, some offset) w.2)
      (do
        let journalEntry ← entryAt ledger offset.sequence
        pure (if journalEntry.map (·.entryDigest) = some offset.entryDigest
          then ReconciliationStatus.pending else .gap_detected))
      fun result w => ∃ status, result = .ok status ∧
        Explained (ReadFirst worker served c ledger) (rowsOf w.2 ledger)
          ⟨status, some head, some offset⟩ := by
  refine .of_weaker (fun w => ∃ entry : SignedAuditEntry D,
    (rowsOf w.2 ledger)[offset.sequence]? = some entry ∧ offset = entry.offset)
    (.of_exists fun entry => ?_) ?_
  · refine .of_pre (fun _ _ h => h.2) fun hnamed => ?_
    refine .bind (contract_entryAt.mono_pre fun _ _ h => h.1) ?_ ?_
    · intro found
      refine .of_pre (fun _ _ h => Except.ok.inj h) ?_
      rintro rfl
      refine .pure fun w _ _ => ⟨_, rfl, ?_⟩
      have hdigest : (some entry).map (·.entryDigest) = some offset.entryDigest := by
        rw [hnamed]
        rfl
      rw [if_pos hdigest]
      exact nofun
    · rintro thrown w - hthrown
      cases hthrown
  · intro w hinv h
    obtain ⟨entry, hentry⟩ := h.namesEntry (hinv.chained ledger)
    exact ⟨entry, hentry.row, hentry.named⟩

/-- A gap is reported only of an offset that is ahead. -/
theorem contract_reconciliationStatus
    (heads : Option AuditHead × Option AuditProjectionOffset) :
    (projectionProtocol worker served : Protocol _ ι _).Contract c
      (fun w => HeadsOf (ReadFirst worker served c ledger) ledger heads w.2)
      (reconciliationStatus (D := D) ledger heads.1 heads.2)
      fun result w => ∃ status, result = .ok status ∧
        Explained (ReadFirst worker served c ledger) (rowsOf w.2 ledger)
          ⟨status, heads.1, heads.2⟩ := by
  obtain ⟨journalHead, projectionHead⟩ := heads
  cases projectionHead with
  | none =>
      cases journalHead with
      | none | some => exact .pure fun _ _ _ => ⟨_, rfl, nofun⟩
  | some offset =>
      cases journalHead with
      | none =>
          refine .pure fun w hinv h => ⟨_, rfl, fun _ => ?_⟩
          exact h.explained (hinv.chained ledger) nofun
      | some head =>
          unfold reconciliationStatus
          dsimp only
          obtain hbehind | hsame | hahead := lt_trichotomy offset.sequence head.sequence
          · rw [if_neg hbehind.ne', if_pos hbehind]
            exact contract_pendingStatus
          · rw [if_pos hsame.symm]
            refine .pure fun w hinv h => ⟨_, rfl, ?_⟩
            obtain ⟨entry, hentry⟩ := h.namesEntry (hinv.chained ledger)
            rw [if_pos (hentry.agrees head rfl hsame.symm)]
            exact nofun
          · rw [if_neg hahead.ne, if_neg hahead.asymm]
            refine .pure fun w hinv h => ⟨_, rfl, fun _ => ?_⟩
            refine h.explained (hinv.chained ledger) ?_
            intro known hknown
            obtain rfl := Option.some.inj hknown
            exact hahead

theorem contract_reconcile :
    (projectionProtocol worker served : Protocol _ ι _).Contract c (fun _ => True)
      (reconcile (D := D) worker ledger) fun result w => ∃ report, result = .ok report ∧
        Explained (ReadFirst worker served c ledger) (rowsOf w.2 ledger) report := by
  refine .bind contract_readHeads ?_ ?_
  · intro heads
    refine .of_weaker (fun w => HeadsOf (ReadFirst worker served c ledger) ledger heads w.2)
      (.bind (contract_reconciliationStatus heads) ?_ ?_) ?_
    · intro status
      refine .pure ?_
      rintro w - ⟨found, hfound, hexplained⟩
      exact ⟨_, rfl, Except.ok.inj hfound ▸ hexplained⟩
    · rintro thrown w - ⟨_, hthrown, -⟩
      cases hthrown
    · rintro w - ⟨found, hfound, hheads⟩
      exact Except.ok.inj hfound ▸ hheads
  · rintro thrown w - ⟨_, hthrown, -⟩
    cases hthrown

/-- What is known of a call's result: a report of `reconcile` is explained. -/
def CallExplained (early : AuditLedgerRef → Option AuditHead → Prop) (call : ProjectionCall)
    (result : Except AuditError ProjectionResult) (log : List (Commit D)) : Prop :=
  ∀ ledger, call = .reconcile ledger → ∃ report, result = .ok (.reconciled report) ∧
    Explained (early ledger) (rowsOf log ledger) report

theorem contract_call (call : ProjectionCall) :
    (projectionProtocol worker served : Protocol _ ι _).Contract c (fun _ => True)
      (call.code (D := D) worker) fun result w =>
        CallExplained (ReadFirst worker served c) call result w.2 := by
  cases call with
  | synchronize ledger =>
      exact .bind contract_synchronize (fun _ => .pure fun _ _ _ => nofun) fun _ _ _ _ => nofun
  | rebuild ledger =>
      exact .bind contract_rebuild (fun _ => .pure fun _ _ _ => nofun) fun _ _ _ _ => nofun
  | reconcile ledger =>
      refine .bind contract_reconcile ?_ ?_
      · intro report
        refine .pure ?_
        rintro w - ⟨found, hfound, hexplained⟩ _ ⟨rfl⟩
        exact ⟨_, rfl, Except.ok.inj hfound ▸ hexplained⟩
      · rintro thrown w - ⟨_, hthrown, -⟩
        cases hthrown

/-- Calls of the workers of one projection keep the protocol. -/
theorem projection_discipline {program : Program (projectionSetting D) ι ProjectionResult}
    (hcode : program.code = (projectionProgram worker calls).code)
    (hserves : ∀ c request world answer world', program.serves c request world answer world' →
      serveProjection request world answer world' ∧ served c ⟨request, answer⟩)
    (henvironment : program.environment = Appends) :
    Discipline program (projectionProtocol worker served) fun c _ result w =>
      CallExplained (ReadFirst worker served c) (calls c) result w.2 where
  rely_refl _ _ := List.prefix_rfl
  rely_trans _ _ _ _ h h' := List.IsPrefix.trans h h'
  serves := hserves
  environment := by
    intro w world' hinv hstep
    rw [henvironment] at hstep
    obtain ⟨log, hgrown, hfaithful⟩ := ProjectionWorld.Faithful.appends hinv hstep
    exact ⟨log, hfaithful, fun _ => hgrown⟩
  fresh_stable _ _ _ _ _ _ := trivial
  code := by
    intro c born _ _ w hinv _
    rw [hcode]
    exact contract_call (calls c) w w.1 w.2 hinv (fun _ _ => List.prefix_rfl) trivial
  post_stable := by
    intro c born result w w' hpost _ hgrown ledger hcall
    obtain ⟨report, hreport, hexplained⟩ := hpost ledger hcall
    refine ⟨report, hreport, fun hgap => ?_⟩
    obtain ⟨hlate, entry, hentry, hahead⟩ := hexplained hgap
    exact ⟨hlate, entry, (rowsOf_grows hgrown ledger).subset hentry, hahead⟩

variable (served) in
/-- What holds in every state of a run. -/
theorem projection_sound (program : Program (projectionSetting D) ι ProjectionResult)
    (hcode : program.code = (projectionProgram worker calls).code)
    (hserves : ∀ c request world answer world', program.serves c request world answer world' →
      serveProjection request world answer world' ∧ served c ⟨request, answer⟩)
    (henvironment : program.environment = Appends)
    {run : Config (projectionSetting D) ι ProjectionResult}
    (hreaches : program.Reaches (Program.initial .empty) run) :
    ∃ log, run.state.Faithful worker.projectionId log ∧
      ∀ c born result, run.calls c = some ⟨born, .finished result⟩ →
        CallExplained (ReadFirst worker served c) (calls c) result log := by
  have hdiscipline := projection_discipline hcode hserves henvironment
  have hinv : ProjectionWorld.empty.Faithful (D := D) worker.projectionId [] :=
    ⟨rfl, fun _ => .nil, fun _ => ⟨[], List.prefix_rfl, rfl, rfl⟩⟩
  obtain ⟨log, hfaithful, -, hsound⟩ :=
    hreaches.sound hdiscipline (sound_initial hinv fun _ => trivial)
  exact ⟨log, hfaithful, fun c born result hc => hsound c _ hc⟩

/-- The requests that do not read both heads. -/
def ReadsNotBoth (request : ProjectionRequest D) : Prop :=
  ∀ projectionId ledger, request ≠ .getBoth projectionId ledger

theorem entryAt_only (sequence : Nat) :
    (entryAt ledger sequence : ProjectionM D _).Only ReadsNotBoth :=
  .bind (Async.only_ask nofun) fun _ => Async.only_pure

theorem reconciliationStatus_only (journalHead : Option AuditHead)
    (projectionHead : Option AuditProjectionOffset) :
    (reconciliationStatus ledger journalHead projectionHead : ProjectionM D _).Only
      ReadsNotBoth := by
  unfold reconciliationStatus
  split
  · exact Async.only_pure
  · exact Async.only_pure
  · exact Async.only_pure
  · split
    · exact Async.only_pure
    · split
      · exact .bind (entryAt_only _) fun _ => Async.only_pure
      · exact Async.only_pure

variable (worker ledger) in
/-- A `reconcile` reads both heads first, and no more after that. -/
theorem code_reconcile : ∃ next, ((.reconcile ledger : ProjectionCall).code worker :
      ProjectionM D _) = .await (.getBoth worker.projectionId ledger) next ∧
    (∀ e, next (.error e) = .done (.error e)) ∧ ∀ answer, (next answer).Only ReadsNotBoth := by
  refine ⟨_, rfl, fun _ => rfl, fun answer => ?_⟩
  refine .andThen (.andThen (.andThen trivial ?_) ?_) ?_
  · rintro (e | journalHead | projectionHead | ⟨journalHead, projectionHead⟩)
    · exact Async.only_done
    · exact .bind (Async.only_ask nofun) fun _ => Async.only_pure
    · exact .bind (Async.only_ask nofun) fun _ => Async.only_pure
    · exact Async.only_pure
  · rintro (e | heads)
    · exact Async.only_done
    · exact .bind (reconciliationStatus_only _ _) fun _ => Async.only_pure
  · rintro (e | report)
    · exact Async.only_done
    · exact Async.only_pure

/-- What a finished `reconcile` asked: both heads first, and no more after that. -/
theorem reconcile_begins [DecidableEq ι] {history : History (projectionSetting D) ι}
    {run : Config (projectionSetting D) ι ProjectionResult} {born : ProjectionWorld D}
    {result : ProjectionResult}
    (hrecords : (projectionProgram worker calls).Records (Program.initial .empty) history run)
    (hcall : calls c = .reconcile ledger)
    (hc : run.calls c = some ⟨born, .finished (.ok result)⟩) :
    ∃ first later, history.of c = ⟨.getBoth worker.projectionId ledger, .ok first⟩ :: later ∧
      ∀ exchange ∈ later, ReadsNotBoth exchange.request := by
  obtain ⟨next, hcode, hthrows, honly⟩ :=
    code_reconcile (D := D) worker ledger
  have hcame := hrecords.cameFrom c
  rw [hc] at hcame
  have hruns : ((calls c).code worker).Runs (history.of c) (.ok result) :=
    Async.Follows.runs hcame
  rw [hcall, hcode] at hruns
  generalize history.of c = log at hruns
  cases hruns with
  | @await _ _ later _ answer hlater =>
      cases answer with
      | error e =>
          rw [hthrows] at hlater
          cases (Async.runs_done.mp hlater).2
      | ok first => exact ⟨first, later, rfl, (honly _).requests hlater⟩

/-- In every run the projection is that of the journal's first entries. A `reconcile` begins with
both of its reads; it reports a gap only where the head was read first, and of an offset that is
ahead of it. -/
theorem projection_faithful [DecidableEq ι] (worker : AuditProjectionWorker)
    (calls : ι → ProjectionCall) :
    (∀ run, (projectionProgram (D := D) worker calls).Reaches (Program.initial .empty) run →
      ∀ ledger, Projected run.state.projections worker.projectionId ledger
        (run.state.journal.snapshot ledger)) ∧
    ∀ history run, (projectionProgram (D := D) worker calls).Records (Program.initial .empty)
        history run → ∀ c ledger born result, calls c = .reconcile ledger →
      run.calls c = some ⟨born, .finished result⟩ →
      ∃ report first later, result = .ok (.reconciled report) ∧
        history.of c = ⟨.getBoth worker.projectionId ledger, .ok first⟩ :: later ∧
        (report.status = .gap_detected → first = .head report.journalHead ∧
          ∃ entry ∈ run.state.journal.snapshot ledger,
            report.projectionHead = some entry.offset ∧
              ∀ head ∈ report.journalHead, head.sequence < entry.core.sequence) := by
  refine ⟨?_, ?_⟩
  · intro run hreaches ledger
    have hserves : ∀ c request world answer world',
        (projectionProgram (D := D) worker calls).serves c request world answer world' →
        serveProjection request world answer world' ∧ True :=
      fun _ _ _ _ _ hserves => ⟨hserves, trivial⟩
    obtain ⟨log, hfaithful, -⟩ := projection_sound (fun _ _ => True) _ rfl hserves rfl hreaches
    exact hfaithful.snapshot ▸ hfaithful.projected ledger
  · intro history run hrecords c ledger born result hcall hc
    obtain ⟨log, hfaithful, hcalls⟩ := projection_sound (fun c exchange => (c, exchange) ∈ history)
      ((projectionProgram worker calls).serving fun c exchange => (c, exchange) ∈ history) rfl
      (fun _ _ _ _ _ hserves => hserves) rfl (hrecords.serving fun _ hentry => hentry)
    obtain ⟨report, rfl, hexplained⟩ := hcalls c born result hc ledger hcall
    obtain ⟨first, later, hhistory, honly⟩ := reconcile_begins hrecords hcall hc
    refine ⟨report, first, later, rfl, hhistory, fun hgap => ?_⟩
    obtain ⟨hearly, hahead⟩ := hexplained hgap
    refine ⟨?_, hfaithful.snapshot ▸ hahead⟩
    have hmem := History.mem_of.mpr hearly
    rw [hhistory] at hmem
    rcases List.mem_cons.mp hmem with hfirst | hlater
    · cases hfirst
      rfl
    · exact absurd rfl (honly _ hlater _ _)

end Runs

section Sample

open Async.Leads

def sampleWorker : AuditProjectionWorker where
  projectionId := js "timeline"
  required := by decide

def sampleProjectionCalls : Bool → ProjectionCall
  | true => .reconcile sampleGenesis.ledger
  | false => .synchronize sampleGenesis.ledger

def sampleProgram : Program (projectionSetting SampleDouble) Bool ProjectionResult :=
  projectionProgram sampleWorker sampleProjectionCalls

/-- The journal has the genesis. -/
def sampleAppended : ProjectionWorld SampleDouble where
  journal := (MemoryAuditJournal.empty.compareAndAppend sampleGenesis.ledger none
    sampleGenesis.entry sampleGenesis.key).2
  projections := .empty

/-- The projection has it, too. -/
def sampleSynchronized : ProjectionWorld SampleDouble where
  journal := sampleAppended.journal
  projections := MemoryAuditProjectionProvider.empty.push sampleWorker.projectionId
    sampleGenesis.ledger sampleGenesis.entry.offset (project sampleGenesis.entry)

theorem sampleAppended_journal : sampleAppended.journal = replay [sampleGenesis] :=
  rfl

theorem sampleRows : rowsOf [sampleGenesis] sampleGenesis.ledger = [sampleGenesis.entry] :=
  rfl

theorem sampleAppended_readRange :
    sampleAppended.journal.readRange sampleGenesis.ledger none none = [sampleGenesis.entry] := by
  have hsnapshot : sampleAppended.journal.snapshot sampleGenesis.ledger =
      [sampleGenesis.entry] := by
    rw [sampleAppended_journal, MemoryAuditJournal.snapshot, entriesByLedger_replay]
    exact sampleRows
  rw [MemoryAuditJournal.readRange, hsnapshot]
  rfl

theorem sampleSynchronize_leads :
    (sampleProgram.code false).Leads (sampleProgram.serves false) sampleAppended
      sampleSynchronized (.finished (.ok (.synchronized ⟨1, 0⟩))) := by
  have hoffset : serveProjection (.getOffset sampleWorker.projectionId sampleGenesis.ledger)
      sampleAppended (.ok none) sampleAppended :=
    ⟨rfl, rfl⟩
  have hread : serveProjection (.readRange sampleGenesis.ledger none none) sampleAppended
      (.ok [sampleGenesis.entry]) sampleAppended :=
    ⟨congrArg Except.ok sampleAppended_readRange.symm, rfl⟩
  have happly : serveProjection (.compareAndApply sampleWorker.projectionId sampleGenesis.ledger
      none sampleGenesis.entry (project sampleGenesis.entry)) sampleAppended (.ok .applied)
      sampleSynchronized :=
    ⟨rfl, rfl⟩
  have hprevious : sampleGenesis.entry.core.previousEntryDigest = none := rfl
  refine .bind (.bind (.ask hoffset) (.bind (.ask hread) ?_)) .done
  simp only [applyEntries, hprevious, Option.map_none, if_true]
  exact .bind (.ask happly) .done

/-- `reconcile` on an empty world, the head read first and the offset after a while. -/
theorem sampleReconcile_pauses (resumed : ProjectionWorld SampleDouble)
    (offset : AuditProjectionOffset) :
    Pauses (sampleProgram.serves true) (sampleProgram.code true) .empty .empty
      (.getOffset sampleWorker.projectionId sampleGenesis.ledger) (.ok (some offset))
      resumed resumed
      (.finished (.ok (.reconciled ⟨.gap_detected, none, some offset⟩))) := by
  have hfirst : serveProjection (.getBoth sampleWorker.projectionId sampleGenesis.ledger)
      (.empty : ProjectionWorld SampleDouble) (.ok (.head none)) .empty :=
    ⟨.inl rfl, rfl⟩
  exact .bind (.bind (.after (.ask hfirst) (.bind .ask .done)) .done) .done

/-- The journal has an event after the genesis. -/
def sampleLinked : ProjectionWorld SampleDouble where
  journal := replay [sampleGenesis, sampleCommit (js "first")]
  projections := .empty

/-- The projection has both. -/
def sampleProjected : ProjectionWorld SampleDouble where
  journal := sampleLinked.journal
  projections := sampleSynchronized.projections.push sampleWorker.projectionId
    sampleGenesis.ledger (sampleCommit (js "first")).entry.offset
    (project (sampleCommit (js "first")).entry)

theorem sampleProjected_read :
    sampleProjected.projections.read sampleWorker.projectionId sampleGenesis.ledger =
      [project sampleGenesis.entry, project (sampleCommit (js "first")).entry] :=
  rfl

theorem sampleLinked_readRange :
    sampleLinked.journal.readRange sampleGenesis.ledger none none =
      [sampleGenesis.entry, (sampleCommit (js "first")).entry] := by
  have hsnapshot : sampleLinked.journal.snapshot sampleGenesis.ledger =
      [sampleGenesis.entry, (sampleCommit (js "first")).entry] :=
    entriesByLedger_replay [sampleGenesis, sampleCommit (js "first")] _
  rw [MemoryAuditJournal.readRange, hsnapshot]
  rfl

/-- Both entries are projected, one after the other. -/
theorem sampleProjected_leads :
    (sampleProgram.code false).Leads (sampleProgram.serves false) sampleLinked
      sampleProjected (.finished (.ok (.synchronized ⟨2, 0⟩))) := by
  have hoffset : serveProjection (.getOffset sampleWorker.projectionId sampleGenesis.ledger)
      sampleLinked (.ok none) sampleLinked :=
    ⟨rfl, rfl⟩
  have hread : serveProjection (.readRange sampleGenesis.ledger none none) sampleLinked
      (.ok [sampleGenesis.entry, (sampleCommit (js "first")).entry]) sampleLinked :=
    ⟨congrArg Except.ok sampleLinked_readRange.symm, rfl⟩
  have hgenesis : serveProjection (.compareAndApply sampleWorker.projectionId sampleGenesis.ledger
      none sampleGenesis.entry (project sampleGenesis.entry)) sampleLinked (.ok .applied)
      { sampleLinked with projections := sampleSynchronized.projections } :=
    ⟨rfl, rfl⟩
  have hresult : sampleSynchronized.projections.compareAndApply sampleWorker.projectionId
      sampleGenesis.ledger (some sampleGenesis.entry.offset) (sampleCommit (js "first")).entry
      (project (sampleCommit (js "first")).entry) = (.applied, sampleProjected.projections) :=
    MemoryAuditProjectionProvider.compareAndApply_next rfl rfl rfl
  have hfirst : serveProjection (.compareAndApply sampleWorker.projectionId sampleGenesis.ledger
      (some sampleGenesis.entry.offset) (sampleCommit (js "first")).entry
      (project (sampleCommit (js "first")).entry))
      { sampleLinked with projections := sampleSynchronized.projections } (.ok .applied)
      sampleProjected :=
    ⟨congrArg (fun result => Except.ok result.1) hresult.symm,
      congrArg (fun result => { sampleLinked with projections := result.2 }) hresult.symm⟩
  refine .bind (.bind (.ask hoffset) (.bind (.ask hread) ?_)) .done
  rw [applyEntries, if_pos (by rfl)]
  refine .bind (.ask hgenesis) ?_
  dsimp only
  rw [applyEntries, if_pos (by rfl)]
  exact .bind (.ask hfirst) .done

/-- `reconcile` reads the offset first, and then the head. -/
theorem sampleReconcile_leads :
    (sampleProgram.code true).Leads (sampleProgram.serves true) sampleProjected sampleProjected
      (.finished (.ok (.reconciled ⟨.verified, some (sampleCommit (js "first")).head,
        some (sampleCommit (js "first")).entry.offset⟩))) := by
  have hoffset : serveProjection (.getBoth sampleWorker.projectionId sampleGenesis.ledger)
      sampleProjected (.ok (.offset (some (sampleCommit (js "first")).entry.offset)))
      sampleProjected :=
    ⟨.inr (.inl rfl), rfl⟩
  have hhead : serveProjection (.getHead sampleGenesis.ledger) sampleProjected
      (.ok (some (sampleCommit (js "first")).head)) sampleProjected :=
    ⟨rfl, rfl⟩
  refine .bind (.bind (.bind (.ask hoffset) (.bind (.ask hhead) .done)) (.bind ?_ .done)) .done
  unfold reconciliationStatus
  dsimp only
  rw [if_pos (by rfl), if_pos (by rfl)]
  exact .done

/-- Two linked entries are projected, and `reconcile` reads the offset before the head. -/
theorem projection_faithful_sample :
    ∃ history run, sampleProgram.Records (Program.initial .empty) history run ∧
      run.state.projections.read sampleWorker.projectionId sampleGenesis.ledger =
        [project sampleGenesis.entry, project (sampleCommit (js "first")).entry] ∧
      Projected run.state.projections sampleWorker.projectionId sampleGenesis.ledger
        (run.state.journal.snapshot sampleGenesis.ledger) ∧
      ∃ born report first later, run.calls true =
          some ⟨born, .finished (.ok (.reconciled report))⟩ ∧
        history.of true =
          ⟨.getBoth sampleWorker.projectionId sampleGenesis.ledger, .ok first⟩ :: later ∧
        (report.status = .gap_detected → first = .head report.journalHead ∧
          ∃ entry ∈ run.state.journal.snapshot sampleGenesis.ledger,
            report.projectionHead = some entry.offset ∧
              ∀ head ∈ report.journalHead, head.sequence < entry.core.sequence) := by
  have hgenesis : sampleProgram.Step (Program.initial .empty) ⟨sampleAppended, fun _ => none⟩ :=
    .act (.compareAndAppend sampleGenesis.ledger sampleGenesis.key ⟨rfl, rfl⟩)
  have hfirst : sampleProgram.Step ⟨sampleAppended, fun _ => none⟩
      ⟨sampleLinked, fun _ => none⟩ := by
    have hbuilt : BuiltOn (some sampleGenesis.head) (sampleCommit (js "first")).entry := ⟨rfl, rfl⟩
    have happends : Appends sampleAppended { sampleAppended with
        journal := ((replay [sampleGenesis]).compareAndAppend sampleConfig.toAuditLedgerRef
          (some sampleGenesis.head) (sampleCommit (js "first")).entry
          (sampleCommit (js "first")).key).2 } :=
      .compareAndAppend _ _ hbuilt
    rw [sampleCommit_appends sampleFresh_first] at happends
    exact .act happends
  have hsynchronize : (sampleProgram.code false).Leads (sampleProgram.serves false)
      (⟨sampleLinked, fun _ => none⟩ : Config (projectionSetting SampleDouble) Bool
        ProjectionResult).state sampleProjected (.finished (.ok (.synchronized ⟨2, 0⟩))) :=
    sampleProjected_leads
  obtain ⟨synchronized, hsynchronizes, hsynchronized⟩ := hsynchronize.reaches_called rfl
  have hreconcile := sampleReconcile_leads
  rw [← hsynchronized.state] at hreconcile
  obtain ⟨run, hreconciles, hrun⟩ :=
    hreconcile.reaches_called (hsynchronized.others true Bool.true_eq_false.mp)
  have hreaches : sampleProgram.Reaches (Program.initial .empty) run :=
    .trans (.trans (.step (.step (.refl _) hgenesis) hfirst) hsynchronizes) hreconciles
  obtain ⟨history, hrecords⟩ := hreaches.records
  obtain ⟨hprojected, hreconciled⟩ := projection_faithful sampleWorker sampleProjectionCalls
  obtain ⟨report, first, later, hreport, hfaithful⟩ :=
    hreconciled history run hrecords true _ _ _ rfl hrun.moved
  refine ⟨history, run, hrecords, ?_, hprojected run hreaches _, _, report, first, later,
    hreport ▸ hrun.moved, hfaithful⟩
  rw [hrun.state, hsynchronized.state]
  exact sampleProjected_read

/-- `reconcile` reads no head, the genesis is appended and projected, and then it reads the
offset. -/
theorem reconcile_false_gap :
    ∃ run, (projectionProgram sampleWorker sampleProjectionCalls).Reaches
        (Program.initial (.empty : ProjectionWorld SampleDouble)) run ∧
      run.calls true = some ⟨.empty, .finished (.ok (.reconciled
        ⟨.gap_detected, none, some sampleGenesis.entry.offset⟩))⟩ := by
  obtain ⟨k, hwaits, hends⟩ :=
    sampleReconcile_pauses sampleSynchronized sampleGenesis.entry.offset
  have hinitial : (Program.initial .empty : Config (projectionSetting SampleDouble) Bool
      ProjectionResult).state = .empty := rfl
  rw [← hinitial] at hwaits
  obtain ⟨first, hreaches, hfirst⟩ := hwaits.reaches_called rfl
  have happend : sampleProgram.Step first ⟨sampleAppended, first.calls⟩ := by
    refine .act ?_
    rw [hfirst.state]
    exact .compareAndAppend sampleGenesis.ledger sampleGenesis.key ⟨rfl, rfl⟩
  have hsynchronize : (sampleProgram.code false).Leads (sampleProgram.serves false)
      (⟨sampleAppended, first.calls⟩ : Config (projectionSetting SampleDouble) Bool _).state
      sampleSynchronized (.finished (.ok (.synchronized ⟨1, 0⟩))) :=
    sampleSynchronize_leads
  obtain ⟨synchronized, hsynchronizes, hsynchronized⟩ :=
    hsynchronize.reaches_called (hfirst.others false Bool.false_ne_true)
  have hwaiting := (hsynchronized.others true Bool.true_eq_false.mp).trans hfirst.moved
  have hoffset : sampleProgram.serves true
      (.getOffset sampleWorker.projectionId sampleGenesis.ledger) synchronized.state
      (.ok (some sampleGenesis.entry.offset)) sampleSynchronized := by
    rw [hsynchronized.state]
    exact ⟨rfl, rfl⟩
  obtain ⟨run, hends, hrun⟩ := Async.Leads.reaches_served hwaiting hoffset hends
  exact ⟨run, .trans (.trans (.step hreaches happend) hsynchronizes) hends, hrun.moved⟩

end Sample

end KyaOs.Audit
