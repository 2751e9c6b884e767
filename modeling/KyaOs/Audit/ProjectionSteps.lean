import KyaOs.Audit.Projection
import KyaOs.Audit.ReadService
import KyaOs.Concurrency.History

/-!
# The steps of a projection

A projection that applies the entry after its offset, and a journal that grows, keep the
records those of the journal's first entries; so do synchronizing and rebuilding, whatever
other calls do.
-/

namespace KyaOs.Audit

open Js Concurrency HashChain

variable {D : Type}

section Prefixes

variable {rows front head tail : List (SignedAuditEntry D)} {entry : SignedAuditEntry D}

/-- The offset of the last entry. -/
def lastOffset (rows : List (SignedAuditEntry D)) : Option AuditProjectionOffset :=
  rows.getLast?.map SignedAuditEntry.offset

theorem prefix_concat (hfront : front <+: rows) (hentry : rows[front.length]? = some entry) :
    front ++ [entry] <+: rows := by
  obtain ⟨back, rfl⟩ := hfront
  rw [List.getElem?_append_right le_rfl, Nat.sub_self] at hentry
  cases back with
  | nil => cases hentry
  | cons next back =>
      obtain rfl : next = entry := Option.some.inj hentry
      exact ⟨back, by rw [List.append_assoc]; rfl⟩

theorem getElem?_of_front {i : Nat} (hfront : front <+: rows) (hentry : front[i]? = some entry) :
    rows[i]? = some entry := by
  obtain ⟨back, rfl⟩ := hfront
  rw [List.getElem?_append_left (List.getElem?_eq_some_iff.mp hentry).1, hentry]

theorem lastOffset_concat : lastOffset (front ++ [entry]) = some entry.offset := by
  rw [lastOffset, List.getLast?_concat]
  rfl

theorem lastOffset_eq_none : lastOffset rows = none ↔ rows = [] := by
  rw [lastOffset, Option.map_eq_none_iff, List.getLast?_eq_none_iff]

/-- An offset is that of the entry at its position. -/
theorem lastOffset_eq_some (h : entryLinks.Complete rows) {offset : AuditProjectionOffset}
    (hoffset : lastOffset rows = some offset) :
    ∃ entry, rows[offset.sequence]? = some entry ∧ offset = entry.offset ∧
      rows.length = offset.sequence + 1 := by
  obtain ⟨entry, hlast, rfl⟩ := Option.map_eq_some_iff.mp hoffset
  rw [List.getLast?_eq_getElem?] at hlast
  have hsequence : entry.core.sequence = rows.length - 1 := h.sequence_eq hlast
  have hpos := (List.getElem?_eq_some_iff.mp hlast).1
  have hoffsetSequence : entry.offset.sequence = rows.length - 1 := hsequence
  exact ⟨entry, by rw [hoffsetSequence, hlast], rfl, by omega⟩

theorem expectedSequence_lastOffset (h : entryLinks.Complete rows) :
    MemoryAuditProjectionProvider.expectedSequence (lastOffset rows) = rows.length := by
  cases hoffset : lastOffset rows with
  | none =>
      rw [lastOffset_eq_none.mp hoffset]
      rfl
  | some offset =>
      obtain ⟨_, -, -, hlength⟩ := lastOffset_eq_some h hoffset
      exact hlength.symm

end Prefixes

section Steps

/-- What the provider stores is the projection of the first of these entries. -/
def Projected (projections : MemoryAuditProjectionProvider D) (projectionId : JsString)
    (ledger : AuditLedgerRef) (rows : List (SignedAuditEntry D)) : Prop :=
  ∃ front, front <+: rows ∧ projections.read projectionId ledger = front.map project ∧
    projections.getOffset projectionId ledger = lastOffset front

/-- A journal of chains, and a projection of each. -/
structure ProjectionWorld.Faithful (projectionId : JsString) (world : ProjectionWorld D)
    (log : List (Commit D)) : Prop where
  journal : world.journal = replay log
  chained : ∀ ledger, entryLinks.Complete (rowsOf log ledger)
  projected : ∀ ledger, Projected world.projections projectionId ledger (rowsOf log ledger)

variable {projections : MemoryAuditProjectionProvider D} {projectionId : JsString}
  {ledger other : AuditLedgerRef} {rows : List (SignedAuditEntry D)} {log : List (Commit D)}
  {entry : SignedAuditEntry D} {world : ProjectionWorld D}

theorem projectionKey_eq_iff :
    projectionKey projectionId other = projectionKey projectionId ledger ↔
      ledgerKey other = ledgerKey ledger := by
  constructor
  · intro h
    exact (List.cons.inj (List.append_cancel_left h)).2
  · intro h
    exact congrArg (fun key => projectionId ++ 0 :: key) h

/-- What one ledger's maps are set to is what they hold for it, and for no other. -/
theorem projected_update {projections' : MemoryAuditProjectionProvider D}
    {offset : Option AuditProjectionOffset} {records : List (AuditTimelineProjection D)}
    (hoffsets : projections'.offsets =
      Function.update projections.offsets (projectionKey projectionId ledger) offset)
    (hrecords : projections'.records =
      Function.update projections.records (projectionKey projectionId ledger) records)
    {front : List (SignedAuditEntry D)} (hfront : front <+: rowsOf log ledger)
    (hread : records = front.map project) (hoffset : offset = lastOffset front)
    (h : Projected projections projectionId other (rowsOf log other)) :
    Projected projections' projectionId other (rowsOf log other) := by
  by_cases hkey : ledgerKey other = ledgerKey ledger
  · have hrows : rowsOf log other = rowsOf log ledger := by rw [rowsOf, hkey, rowsOf]
    refine ⟨front, hrows ▸ hfront, ?_, ?_⟩
    · rw [MemoryAuditProjectionProvider.read, hrecords, projectionKey_eq_iff.mpr hkey,
        Function.update_self, hread]
    · rw [MemoryAuditProjectionProvider.getOffset, hoffsets, projectionKey_eq_iff.mpr hkey,
        Function.update_self, hoffset]
  · have hne : projectionKey projectionId other ≠ projectionKey projectionId ledger :=
      fun hsame => hkey (projectionKey_eq_iff.mp hsame)
    obtain ⟨front, hfront, hread, hoffset⟩ := h
    refine ⟨front, hfront, ?_, ?_⟩
    · rw [MemoryAuditProjectionProvider.read, hrecords, Function.update_of_ne hne]
      exact hread
    · rw [MemoryAuditProjectionProvider.getOffset, hoffsets, Function.update_of_ne hne]
      exact hoffset

namespace ProjectionWorld.Faithful

theorem snapshot (h : world.Faithful projectionId log) :
    world.journal.snapshot ledger = rowsOf log ledger := by
  rw [h.journal]
  exact entriesByLedger_replay log (ledgerKey ledger)

theorem reset (h : world.Faithful projectionId log) :
    ({ world with projections := world.projections.reset projectionId ledger }
      : ProjectionWorld D).Faithful projectionId log where
  journal := h.journal
  chained := h.chained
  projected other := projected_update rfl rfl List.nil_prefix rfl rfl (h.projected other)

/-- An entry of the journal is applied in its turn, or not at all. -/
theorem compareAndApply (h : world.Faithful projectionId log) (hentry : entry ∈ rowsOf log ledger)
    (expectedOffset : Option AuditProjectionOffset) :
    ({ world with projections := (world.projections.compareAndApply projectionId ledger
      expectedOffset entry (project entry)).2 } : ProjectionWorld D).Faithful projectionId log where
  journal := h.journal
  chained := h.chained
  projected other := by
    unfold MemoryAuditProjectionProvider.compareAndApply
    dsimp only
    split
    · split_ifs <;> exact h.projected other
    · split_ifs with happlies
      · obtain ⟨front, hfront, hread, hoffset⟩ := h.projected ledger
        have hcomplete := (h.chained ledger).of_front hfront
        obtain ⟨i, hi⟩ := List.mem_iff_getElem?.mp hentry
        have hsequence : entry.core.sequence = i := (h.chained ledger).sequence_eq hi
        rw [hoffset, expectedSequence_lastOffset hcomplete, hsequence] at happlies
        refine projected_update rfl rfl (prefix_concat hfront (happlies.2 ▸ hi)) ?_
          lastOffset_concat.symm (h.projected other)
        rw [hread, List.map_append]
        rfl
      · exact h.projected other

/-- An append of an entry on the head of its ledger. -/
theorem chained_concat {key : Digest} (h : world.Faithful projectionId log)
    (hbuilt : BuiltOn ((replay log).getHead ledger) entry) (other : AuditLedgerRef) :
    entryLinks.Complete (rowsOf (log ++ [⟨ledger, key, entry⟩]) other) := by
  rw [rowsOf, commitsAt_concat, List.map_append]
  by_cases hkey : Commit.ledgerKey ⟨ledger, key, entry⟩ = ledgerKey other
  · rw [if_pos hkey]
    refine (h.chained other).concat ?_
    have hsame : ledgerKey ledger = ledgerKey other := hkey
    rw [getHead_replay, hsame] at hbuilt
    rw [rowsOf, List.getLast?_map]
    cases hlast : (commitsAt log (ledgerKey other)).getLast? with
    | none =>
        rw [hlast] at hbuilt
        exact hbuilt
    | some last =>
        rw [hlast] at hbuilt
        exact hbuilt
  · rw [if_neg hkey, List.map_nil, List.append_nil]
    exact h.chained other

theorem appends {world' : ProjectionWorld D} (h : world.Faithful projectionId log)
    (happends : Appends world world') :
    ∃ log', log <+: log' ∧ world'.Faithful projectionId log' := by
  cases happends with
  | @compareAndAppend expectedHead entry ledger key hbuilt =>
      obtain ⟨log', hcompared, hjournal⟩ :=
        compareAndAppend_replay log ledger expectedHead entry key
      rw [h.journal, hjournal]
      generalize ((replay log).compareAndAppend ledger expectedHead entry key).1 = result
        at hcompared
      cases hcompared with
      | duplicate | idempotencyConflict | headConflict =>
          exact ⟨log, List.prefix_rfl, rfl, h.chained, h.projected⟩
      | appended _ hheads =>
          rw [headsEqual_iff.mp hheads] at hbuilt
          refine ⟨log ++ [⟨ledger, key, entry⟩], List.prefix_append _ _, rfl,
            h.chained_concat hbuilt, ?_⟩
          intro other
          obtain ⟨front, hfront, hrest⟩ := h.projected other
          exact ⟨front, hfront.trans (rowsOf_grows (List.prefix_append _ _) other), hrest⟩

end ProjectionWorld.Faithful

end Steps

section Runs

variable (worker : AuditProjectionWorker) {ι : Type} (calls : ι → ProjectionCall)

/-- The head is read before the offset. -/
def headFirst (ledger : AuditLedgerRef) (journalHead : Option AuditHead) :
    Exchange (projectionSetting D) :=
  ⟨.getBoth worker.projectionId ledger, .ok (.head journalHead)⟩

/-- The ghost value is the log of the journal; requests are served as `served` has it. -/
def projectionProtocol (served : ι → Exchange (projectionSetting D) → Prop) :
    Protocol (projectionSetting D) ι (List (Commit D)) where
  inv w := w.1.Faithful worker.projectionId w.2
  rely _ w w' := w.2 <+: w'.2
  fresh _ _ := True
  serves c request world answer world' :=
    serveProjection request world answer world' ∧ served c ⟨request, answer⟩

/-- The call's requests are served with this head first. -/
def ReadFirst (served : ι → Exchange (projectionSetting D) → Prop) (c : ι)
    (ledger : AuditLedgerRef) (journalHead : Option AuditHead) : Prop :=
  served c (headFirst worker ledger journalHead)

/-- A report of a gap is of a projection that has gone past the head it was compared to, which was
read first. -/
def Explained (early : Option AuditHead → Prop) (rows : List (SignedAuditEntry D))
    (report : AuditProjectionReconciliation) : Prop :=
  report.status = .gap_detected → early report.journalHead ∧ ∃ entry ∈ rows,
    report.projectionHead = some entry.offset ∧
      ∀ head ∈ report.journalHead, head.sequence < entry.core.sequence

/-- What holds of a log and of every longer one. -/
def Lasting (fact : List (Commit D) → Prop) : Prop :=
  ∀ log log', log <+: log' → fact log → fact log'

variable {worker calls} {served : ι → Exchange (projectionSetting D) → Prop} {c : ι}
  {ledger : AuditLedgerRef} {early : Option AuditHead → Prop}

theorem contract_projectionReply {request : ProjectionRequest D} (pre : List (Commit D) → Prop)
    (post : Except AuditError request.Answer → List (Commit D) → Prop) (hpre : Lasting pre)
    (hpost : ∀ answer, Lasting (post answer))
    (hserve : ∀ world log answer world', world.Faithful worker.projectionId log → pre log →
      serveProjection request world answer world' → served c ⟨request, answer⟩ →
      world'.Faithful worker.projectionId log ∧ post answer log) :
    (projectionProtocol worker served : Protocol _ ι _).Contract c (fun w => pre w.2)
      (projectionReply request) fun answer w => pre w.2 ∧ post answer w.2 := by
  refine .ask ?_ fun w other _ => List.prefix_rfl
  rintro w ⟨world, log⟩ - hstart hinv hrely answer world' ⟨hserves, hserved⟩
  have hpre' := hpre _ _ hrely hstart
  obtain ⟨hfaithful, hanswer⟩ := hserve world log answer world' hinv hpre' hserves hserved
  refine ⟨log, hfaithful, fun _ _ => List.prefix_rfl, ?_⟩
  intro resumed _ hresumed
  exact ⟨hpre _ _ hresumed hpre', hpost _ _ _ hresumed hanswer⟩

/-- A request that leaves the world. -/
theorem contract_projectionRead {request : ProjectionRequest D} (pre : List (Commit D) → Prop)
    (post : request.Answer → List (Commit D) → Prop) (hpre : Lasting pre)
    (hpost : ∀ answer, Lasting (post answer))
    (hserve : ∀ world log answer world', world.Faithful worker.projectionId log → pre log →
      serveProjection request world answer world' → served c ⟨request, answer⟩ →
      world' = world ∧ ∃ read, answer = .ok read ∧ post read log) :
    (projectionProtocol worker served : Protocol _ ι _).Contract c (fun w => pre w.2)
      (projectionReply request)
      fun answer w => pre w.2 ∧ ∃ read, answer = .ok read ∧ post read w.2 := by
  refine contract_projectionReply pre (fun answer log => ∃ read, answer = .ok read ∧
    post read log) hpre ?_ ?_
  · rintro answer log log' hgrown ⟨read, hread, hlog⟩
    exact ⟨read, hread, hpost read log log' hgrown hlog⟩
  · intro world log answer world' hfaithful hlog hserves hserved
    obtain ⟨rfl, hread⟩ := hserve world log answer world' hfaithful hlog hserves hserved
    exact ⟨hfaithful, hread⟩

/-- What comes after a request that leaves the world. -/
theorem contract_afterRead {α : Type} {request : ProjectionRequest D}
    (pre : List (Commit D) → Prop) (post : request.Answer → List (Commit D) → Prop)
    {next : request.Answer → ProjectionM D α}
    {last : Except AuditError α → ProjectionWorld D × List (Commit D) → Prop}
    (hpre : Lasting pre) (hpost : ∀ answer, Lasting (post answer))
    (hserve : ∀ world log answer world', world.Faithful worker.projectionId log → pre log →
      serveProjection request world answer world' → served c ⟨request, answer⟩ →
      world' = world ∧ ∃ read, answer = .ok read ∧ post read log)
    (hnext : ∀ read, (projectionProtocol worker served : Protocol _ ι _).Contract c
      (fun w => pre w.2 ∧ post read w.2) (next read) last) :
    (projectionProtocol worker served : Protocol _ ι _).Contract c (fun w => pre w.2)
      (projectionReply request >>= next) last := by
  refine .bind (contract_projectionRead pre post hpre hpost hserve) ?_ ?_
  · intro read
    refine (hnext read).mono_pre ?_
    rintro w - ⟨hlog, found, hfound, hread⟩
    exact ⟨hlog, Except.ok.inj hfound ▸ hread⟩
  · rintro thrown w - ⟨-, read, hthrown, -⟩
    cases hthrown

theorem lasting_true : Lasting fun _ : List (Commit D) => True :=
  fun _ _ _ _ => trivial

/-- Entries of a ledger. -/
def EntriesOf (ledger : AuditLedgerRef) (entries : List (SignedAuditEntry D))
    (log : List (Commit D)) : Prop :=
  entries ⊆ rowsOf log ledger

theorem lasting_entriesOf {entries : List (SignedAuditEntry D)} :
    Lasting (EntriesOf ledger entries) :=
  fun _ _ hgrown hentries => List.Subset.trans hentries (rowsOf_grows hgrown ledger).subset

theorem readRange_subset (journal : MemoryAuditJournal D) (afterSequence limit : Option Nat) :
    journal.readRange ledger afterSequence limit ⊆ journal.snapshot ledger := by
  unfold MemoryAuditJournal.readRange
  cases limit with
  | none => exact List.filter_sublist.subset
  | some limit => exact List.Subset.trans (List.take_subset _ _) List.filter_sublist.subset

/-- Entries of the journal, applied one by one. -/
theorem contract_applyEntries (offset : Option AuditProjectionOffset) (counts : Synchronized)
    (entries : List (SignedAuditEntry D)) :
    (projectionProtocol worker served : Protocol _ ι _).Contract c
      (fun w => EntriesOf ledger entries w.2) (applyEntries worker ledger offset counts entries)
      fun _ _ => True := by
  induction entries generalizing offset counts with
  | nil => exact .pure fun _ _ _ => trivial
  | cons entry rest ih =>
      unfold applyEntries
      split_ifs with hchained
      · refine .bind (contract_projectionReply (EntriesOf ledger (entry :: rest)) (fun _ _ => True)
          lasting_entriesOf (fun _ => lasting_true) ?_) ?_ (fun _ _ _ _ => trivial)
        · rintro world log answer world' hfaithful hentries ⟨-, rfl⟩ -
          exact ⟨hfaithful.compareAndApply (hentries List.mem_cons_self) offset, trivial⟩
        · intro result
          cases result with
          | conflict actualOffset => exact .throw fun _ _ _ => trivial
          | applied | duplicate =>
              exact (ih _ _).mono_pre fun w _ h => List.Subset.trans (List.subset_cons_self _ _) h.1
      · exact .throw fun _ _ _ => trivial

theorem contract_synchronize :
    (projectionProtocol worker served : Protocol _ ι _).Contract c (fun _ => True)
      (synchronize (D := D) worker ledger) fun _ _ => True := by
  refine contract_afterRead (fun _ => True) (fun _ _ => True) lasting_true
    (fun _ => lasting_true) ?_ fun offset => ?_
  · rintro world log answer world' - - ⟨rfl, rfl⟩ -
    exact ⟨rfl, _, rfl, trivial⟩
  refine .of_weaker (fun _ => True) (contract_afterRead (fun _ => True) (EntriesOf ledger)
    lasting_true (fun _ => lasting_entriesOf) ?_ fun entries => ?_) fun _ _ _ => trivial
  · rintro world log answer _ hfaithful - ⟨rfl, rfl⟩ -
    refine ⟨rfl, _, rfl, ?_⟩
    rw [EntriesOf, ← hfaithful.snapshot]
    exact readRange_subset _ _ _
  · exact (contract_applyEntries offset ⟨0, 0⟩ entries).mono_pre fun _ _ h => h.2

theorem contract_rebuild :
    (projectionProtocol worker served : Protocol _ ι _).Contract c (fun _ => True)
      (rebuild (D := D) worker ledger) fun _ _ => True := by
  refine .bind (contract_projectionReply (fun _ => True) (fun _ _ => True) lasting_true
    (fun _ => lasting_true) ?_) ?_ (fun _ _ _ _ => trivial)
  · rintro world log answer world' hfaithful - ⟨-, rfl⟩ -
    exact ⟨hfaithful.reset, trivial⟩
  · exact fun _ => contract_synchronize.mono_pre fun _ _ _ => trivial

end Runs

end KyaOs.Audit
