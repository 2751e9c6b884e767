import KyaOs.Audit.RecorderSolo
import KyaOs.Js.Number

/-!
# Paged reads

`LocalAuditReadService.listEntries` over the in-memory journal. A page reads the head, then
the range, and appends may fall before, between and after the two. Following the cursors
from the first page on lists the ledger from its first entry to the last page's head.
-/

namespace KyaOs.Audit

open Js HashChain

def defaultReadEntriesLimit : Nat := 100
def maxReadEntriesLimit : Int := 1000

/-- `Math.trunc`. -/
def trunc (x : ℚ) : Int := if 0 ≤ x then x.floor else x.ceil

def clampLimit : Option JsNumber → Nat
  | some (.finite limit) => (max 1 (min maxReadEntriesLimit (trunc limit))).toNat
  | _ => defaultReadEntriesLimit

structure AuditReadEntriesQuery extends AuditLedgerRef where
  afterSequence : Option Nat := none
  limit : Option JsNumber := none

structure AuditReadEntriesPage (D : Type) where
  entries : List (SignedAuditEntry D)
  head : Option AuditHead
  nextAfterSequence : Option Nat

section Code

variable {D : Type}

/-- The cursor after these entries, `none` when they reach the head. -/
def nextCursor (entries : List (SignedAuditEntry D)) (head : AuditHead) : Option Nat :=
  match entries.getLast? with
  | none => none
  | some last =>
    if last.core.sequence = head.sequence then none else some last.core.sequence

/-- The journal answers as it is when the head is read, and then when the range is. -/
def listEntries (atHead atRange : MemoryAuditJournal D) (query : AuditReadEntriesQuery) :
    AuditReadEntriesPage D :=
  match atHead.getHead query.toAuditLedgerRef with
  | none => { entries := [], head := none, nextAfterSequence := none }
  | some head =>
    let entries := (atRange.readRange query.toAuditLedgerRef query.afterSequence
      (some (clampLimit query.limit))).takeWhile fun entry =>
        !decide (head.sequence < entry.core.sequence)
    { entries, head := some head, nextAfterSequence := nextCursor entries head }

end Code

theorem clampLimit_pos (limit : Option JsNumber) : 0 < clampLimit limit := by
  unfold clampLimit
  split
  · rename_i limit
    have hone : 1 ≤ max 1 (min maxReadEntriesLimit (trunc limit)) := le_max_left _ _
    omega
  · exact Nat.succ_pos _

section Page

variable {D : Type} {rows : List (SignedAuditEntry D)} {entry : SignedAuditEntry D} {i n : Nat}

theorem sequence_of_mem_take (h : entryLinks.Complete rows) (hmem : entry ∈ rows.take n) :
    entry.core.sequence < n := by
  obtain ⟨i, hi⟩ := List.mem_iff_getElem?.mp hmem
  rw [List.getElem?_take] at hi
  split_ifs at hi with hlt
  exact (h.sequence_eq hi).trans_lt hlt

theorem sequence_of_mem_drop (h : entryLinks.Complete rows) (hmem : entry ∈ rows.drop n) :
    n ≤ entry.core.sequence := by
  obtain ⟨i, hi⟩ := List.mem_iff_getElem?.mp hmem
  rw [List.getElem?_drop] at hi
  exact (Nat.le_add_right n i).trans (h.sequence_eq hi).ge

/-- The entries after a cursor are those from the next position on. -/
theorem filter_after (h : entryLinks.Complete rows) (after : Nat) :
    (rows.filter fun entry => decide (after < entry.core.sequence)) = rows.drop (after + 1) := by
  conv_lhs => rw [← List.take_append_drop (after + 1) rows]
  rw [List.filter_append, List.filter_eq_nil_iff.mpr, List.filter_eq_self.mpr, List.nil_append]
  · intro entry hmem
    exact decide_eq_true (sequence_of_mem_drop h hmem)
  · intro entry hmem
    have := sequence_of_mem_take h hmem
    simp only [decide_eq_true_eq, not_lt]
    omega

/-- Reading on up to the head stops after the entries that were there with it. -/
theorem takeWhile_head (h : entryLinks.Complete rows) (start limit : Nat) (hn : 0 < n) :
    (((rows.drop start).take limit).takeWhile fun entry =>
        !decide (n - 1 < entry.core.sequence)) = ((rows.take n).drop start).take limit := by
  have hsplit : (rows.drop start).take limit = ((rows.take n).drop start).take limit ++
      ((rows.drop n).drop (start - (rows.take n).length)).take
        (limit - ((rows.take n).drop start).length) := by
    conv_lhs => rw [← List.take_append_drop n rows, List.drop_append, List.take_append]
  rw [hsplit, List.takeWhile_append_of_pos]
  · rw [List.append_right_eq_self]
    generalize hlater : ((rows.drop n).drop (start - (rows.take n).length)).take
      (limit - ((rows.take n).drop start).length) = later
    cases later with
    | nil => rfl
    | cons entry rest =>
        have hmem : entry ∈ entry :: rest := List.mem_cons_self
        rw [← hlater] at hmem
        have hlate := sequence_of_mem_drop h (List.mem_of_mem_drop (List.mem_of_mem_take hmem))
        rw [List.takeWhile_cons_of_neg]
        simp only [Bool.not_eq_true', decide_eq_false_iff_not, not_lt, not_le]
        omega
  · intro entry hmem
    have hearly := sequence_of_mem_take h (List.mem_of_mem_drop (List.mem_of_mem_take hmem))
    simp only [Bool.not_eq_true', decide_eq_false_iff_not, not_lt]
    omega

/-- The rows of a ledger in a log. -/
def rowsOf (log : List (Commit D)) (ledger : AuditLedgerRef) : List (SignedAuditEntry D) :=
  (commitsAt log (ledgerKey ledger)).map (·.entry)

theorem rowsOf_grows {log log' : List (Commit D)} (h : log <+: log') (ledger : AuditLedgerRef) :
    rowsOf log ledger <+: rowsOf log' ledger :=
  (h.filter _).map _

/-- The head's sequence number is the position of the last row. -/
theorem getHead_rows {log : List (Commit D)} {ledger : AuditLedgerRef} {head : AuditHead}
    (hcomplete : entryLinks.Complete (rowsOf log ledger))
    (hhead : (replay log).getHead ledger = some head) :
    (rowsOf log ledger).length = head.sequence + 1 := by
  rw [getHead_replay] at hhead
  obtain ⟨last, hlast, rfl⟩ := Option.map_eq_some_iff.mp hhead
  have hrow : (rowsOf log ledger)[(rowsOf log ledger).length - 1]? = some last.entry := by
    rw [← List.getLast?_eq_getElem?, rowsOf, List.getLast?_map, hlast]
    rfl
  have hsequence : last.entry.core.sequence = _ := hcomplete.sequence_eq hrow
  have hpos := (List.getElem?_eq_some_iff.mp hrow).1
  show _ = last.entry.core.sequence + 1
  omega

theorem rows_of_getHead_none {log : List (Commit D)} {ledger : AuditLedgerRef}
    (hhead : (replay log).getHead ledger = none) : rowsOf log ledger = [] := by
  rw [getHead_replay, Option.map_eq_none_iff, List.getLast?_eq_none_iff] at hhead
  rw [rowsOf, hhead, List.map_nil]

/-- The position that a cursor goes on from. -/
def startAfter : Option Nat → Nat
  | none => 0
  | some after => after + 1

theorem readRange_replay {log : List (Commit D)} {ledger : AuditLedgerRef}
    (hcomplete : entryLinks.Complete (rowsOf log ledger)) (after : Option Nat) (limit : Nat) :
    (replay log).readRange ledger after (some limit) =
      ((rowsOf log ledger).drop (startAfter after)).take limit := by
  have hsnapshot : (replay log).snapshot ledger = rowsOf log ledger := entriesByLedger_replay _ _
  rw [MemoryAuditJournal.readRange, hsnapshot]
  cases after with
  | none => simp [startAfter]
  | some after => rw [filter_after hcomplete, startAfter]

variable {atHead atRange : List (Commit D)} {query : AuditReadEntriesQuery}

/-- A page is a slice of the rows that were there with its head. -/
theorem listEntries_entries
    (hcomplete : entryLinks.Complete (rowsOf atRange query.toAuditLedgerRef))
    (hgrown : atHead <+: atRange) :
    (listEntries (replay atHead) (replay atRange) query).entries =
      ((rowsOf atHead query.toAuditLedgerRef).drop (startAfter query.afterSequence)).take
        (clampLimit query.limit) := by
  have hprefix := rowsOf_grows hgrown query.toAuditLedgerRef
  have hcompleteHead := hcomplete.of_front hprefix
  unfold listEntries
  cases hhead : (replay atHead).getHead query.toAuditLedgerRef with
  | none => rw [rows_of_getHead_none hhead, List.drop_nil, List.take_nil]
  | some head =>
      have hlength := getHead_rows hcompleteHead hhead
      dsimp only
      rw [readRange_replay hcomplete, ← Nat.add_sub_cancel (n := head.sequence) (m := 1), ← hlength,
        takeWhile_head hcomplete _ _ (by omega), ← List.prefix_iff_eq_take.mp hprefix]

/-- The cursor after a slice of the rows. -/
theorem nextCursor_slice {rows : List (SignedAuditEntry D)} {head : AuditHead} {start limit : Nat}
    (hcomplete : entryLinks.Complete rows) (hlength : rows.length = head.sequence + 1)
    (hlimit : 0 < limit) :
    nextCursor ((rows.drop start).take limit) head =
      if start + limit < rows.length then some (start + limit - 1) else none := by
  have hslice : ((rows.drop start).take limit).length = min limit (rows.length - start) := by
    rw [List.length_take, List.length_drop]
  unfold nextCursor
  cases hlast : ((rows.drop start).take limit).getLast? with
  | none =>
      rw [List.getLast?_eq_none_iff, ← List.length_eq_zero_iff, hslice] at hlast
      rw [if_neg (by omega)]
  | some last =>
      have hmore : 0 < min limit (rows.length - start) := by
        rw [← hslice, List.length_pos_iff]
        intro hempty
        rw [hempty] at hlast
        cases hlast
      rw [List.getLast?_eq_getElem?, hslice, List.getElem?_take, if_pos (by omega),
        List.getElem?_drop] at hlast
      have hsequence : last.core.sequence = _ := hcomplete.sequence_eq hlast
      dsimp only
      by_cases hend : start + limit < rows.length
      · rw [if_neg (by omega), if_pos hend]
        congr 1
        omega
      · rw [if_pos (by omega), if_neg hend]

theorem map_sequence {rows : List (SignedAuditEntry D)} (hcomplete : entryLinks.Complete rows) :
    rows.map (·.core.sequence) = List.range rows.length := by
  apply List.ext_getElem?
  intro i
  rw [List.getElem?_map]
  by_cases hi : i < rows.length
  · have hrow := List.getElem?_eq_getElem hi
    rw [hrow, List.getElem?_range hi]
    exact congrArg some (hcomplete.sequence_eq hrow)
  · rw [List.getElem?_eq_none (by omega), List.getElem?_eq_none (by simpa using hi)]
    rfl

/-- A page's cursor is the position it stopped before, unless that is the end. -/
theorem listEntries_next
    (hcomplete : entryLinks.Complete (rowsOf atRange query.toAuditLedgerRef))
    (hgrown : atHead <+: atRange) :
    (listEntries (replay atHead) (replay atRange) query).nextAfterSequence =
      if startAfter query.afterSequence + clampLimit query.limit <
          (rowsOf atHead query.toAuditLedgerRef).length
      then some (startAfter query.afterSequence + clampLimit query.limit - 1) else none := by
  have hcompleteHead := hcomplete.of_front (rowsOf_grows hgrown query.toAuditLedgerRef)
  have hentries := listEntries_entries hcomplete hgrown
  unfold listEntries at hentries ⊢
  cases hhead : (replay atHead).getHead query.toAuditLedgerRef with
  | none => rw [rows_of_getHead_none hhead, List.length_nil, if_neg (Nat.not_lt_zero _)]
  | some head =>
      rw [hhead] at hentries
      dsimp only at hentries ⊢
      rw [hentries]
      exact nextCursor_slice hcompleteHead (getHead_rows hcompleteHead hhead) (clampLimit_pos _)

end Page

section Walk

variable {D : Type}

/-- The logs that the journal had when each page's head was read, and when its range was. Each
append extends its ledger's chain, as the appends of a recorder do; the journal itself compares
heads only. -/
structure Schedule (D : Type) where
  atHead : Nat → List (Commit D)
  atRange : Nat → List (Commit D)
  recorded : ∀ i, Recorded (fun _ _ => True) (atRange i)
  rangeAfterHead : ∀ i, atHead i <+: atRange i
  headAfterRange : ∀ i, atRange i <+: atHead (i + 1)

variable (schedule : Schedule D) (ledger : AuditLedgerRef) (limit : Option JsNumber)

/-- The page read at one turn, from a cursor. -/
def pageAt (i : Nat) (afterSequence : Option Nat) : AuditReadEntriesPage D :=
  listEntries (replay (schedule.atHead i)) (replay (schedule.atRange i))
    { ledger with afterSequence, limit }

/-- The first page, and each next page while there is a cursor. -/
def page : Nat → Option (AuditReadEntriesPage D)
  | 0 => some (pageAt schedule ledger limit 0 none)
  | i + 1 => do
    let before ← page i
    let next ← before.nextAfterSequence
    return pageAt schedule ledger limit (i + 1) (some next)

/-- What the pages before one have listed. -/
def listedBefore (i : Nat) : List (SignedAuditEntry D) :=
  (List.range i).flatMap fun j => (page schedule ledger limit j).elim [] (·.entries)

/-- Nothing is appended from this page on. -/
def Schedule.StopsAt (schedule : Schedule D) (i : Nat) : Prop :=
  ∀ j, i ≤ j → schedule.atHead j = schedule.atHead i

/-- What holds of the pages read along the cursors. -/
structure ReadsAll : Prop where
  bounded : ∀ i read, page schedule ledger limit i = some read → ∀ entry ∈ read.entries,
    ∃ head, read.head = some head ∧ entry.core.sequence ≤ head.sequence
  /-- Up to the page without a cursor, each entry is listed once, in order, from the first to
  the head of that page. -/
  complete : ∀ i read, page schedule ledger limit i = some read → read.nextAfterSequence = none →
    read.head = (replay (schedule.atHead i)).getHead ledger ∧
    listedBefore schedule ledger limit (i + 1) = rowsOf (schedule.atHead i) ledger ∧
    (listedBefore schedule ledger limit (i + 1)).map (·.core.sequence) =
      List.range (read.head.elim 0 fun head => head.sequence + 1)
  ends : ∀ i, schedule.StopsAt i →
    ∃ j read, page schedule ledger limit j = some read ∧ read.nextAfterSequence = none

variable {schedule ledger limit}

theorem Schedule.complete (schedule : Schedule D) (ledger : AuditLedgerRef) (i : Nat) :
    entryLinks.Complete (rowsOf (schedule.atRange i) ledger) :=
  (schedule.recorded i).complete _

theorem Schedule.grows (schedule : Schedule D) (i : Nat) :
    schedule.atHead i <+: schedule.atHead (i + 1) :=
  (schedule.rangeAfterHead i).trans (schedule.headAfterRange i)

theorem Schedule.completeHead (schedule : Schedule D) (ledger : AuditLedgerRef) (i : Nat) :
    entryLinks.Complete (rowsOf (schedule.atHead i) ledger) :=
  (schedule.complete ledger i).of_front (rowsOf_grows (schedule.rangeAfterHead i) ledger)

theorem head_pageAt (i : Nat) (after : Option Nat) :
    (pageAt schedule ledger limit i after).head = (replay (schedule.atHead i)).getHead ledger := by
  unfold pageAt listEntries
  cases (replay (schedule.atHead i)).getHead ledger <;> rfl

theorem entries_pageAt (i : Nat) (after : Option Nat) :
    (pageAt schedule ledger limit i after).entries =
      ((rowsOf (schedule.atHead i) ledger).drop (startAfter after)).take (clampLimit limit) :=
  listEntries_entries (schedule.complete ledger i) (schedule.rangeAfterHead i)

theorem next_pageAt (i : Nat) (after : Option Nat) :
    (pageAt schedule ledger limit i after).nextAfterSequence =
      if startAfter after + clampLimit limit < (rowsOf (schedule.atHead i) ledger).length
      then some (startAfter after + clampLimit limit - 1) else none :=
  listEntries_next (schedule.complete ledger i) (schedule.rangeAfterHead i)

theorem listedBefore_succ {i : Nat} {read : AuditReadEntriesPage D}
    (h : page schedule ledger limit i = some read) :
    listedBefore schedule ledger limit (i + 1) =
      listedBefore schedule ledger limit i ++ read.entries := by
  rw [listedBefore, List.range_succ, List.flatMap_append, List.flatMap_singleton, h]
  rfl

/-- Before each page, the rows up to its cursor have been listed, one at least a page. -/
theorem page_cursor {i : Nat} {read : AuditReadEntriesPage D}
    (h : page schedule ledger limit i = some read) :
    ∃ after, read = pageAt schedule ledger limit i after ∧
      listedBefore schedule ledger limit i =
        (rowsOf (schedule.atHead i) ledger).take (startAfter after) ∧
      i ≤ startAfter after ∧ startAfter after ≤ (rowsOf (schedule.atHead i) ledger).length := by
  induction i generalizing read with
  | zero =>
      cases h
      exact ⟨none, rfl, rfl, le_rfl, Nat.zero_le _⟩
  | succ i ih =>
      obtain ⟨before, hbefore, hread⟩ := Option.bind_eq_some_iff.mp h
      obtain ⟨next, hnext, hread⟩ := Option.bind_eq_some_iff.mp hread
      cases hread
      obtain ⟨after, rfl, hlisted, hturn, hstart⟩ := ih hbefore
      have hpos := clampLimit_pos limit
      rw [next_pageAt] at hnext
      split_ifs at hnext with hmore
      have hcursor : startAfter (some next) = startAfter after + clampLimit limit := by
        have hvalue := Option.some.inj hnext
        rw [startAfter]
        omega
      have hgrown := rowsOf_grows (schedule.grows i) ledger
      refine ⟨some next, rfl, ?_, by omega, hcursor ▸ hmore.le.trans hgrown.length_le⟩
      obtain ⟨later, hlater⟩ := hgrown
      rw [listedBefore_succ hbefore, hlisted, entries_pageAt, ← List.take_add, hcursor, ← hlater,
        List.take_append_of_le_length hmore.le]

/-- While no page is the last, each turn reads one. -/
theorem exists_page (h : ∀ j read, page schedule ledger limit j = some read →
    read.nextAfterSequence ≠ none) (i : Nat) :
    ∃ read, page schedule ledger limit i = some read := by
  induction i with
  | zero => exact ⟨_, rfl⟩
  | succ i ih =>
      obtain ⟨before, hbefore⟩ := ih
      obtain ⟨next, hnext⟩ := Option.ne_none_iff_exists'.mp (h i before hbefore)
      exact ⟨pageAt schedule ledger limit (i + 1) (some next), by simp [page, hbefore, hnext]⟩

/-- Following the cursors reads every entry up to the last page's head once, in order. -/
theorem pages_readAll (schedule : Schedule D) (ledger : AuditLedgerRef)
    (limit : Option JsNumber) : ReadsAll schedule ledger limit where
  bounded i read hread entry hentry := by
    obtain ⟨after, rfl, -, -, -⟩ := page_cursor hread
    rw [entries_pageAt] at hentry
    have hrow := List.mem_of_mem_drop (List.mem_of_mem_take hentry)
    cases hhead : (replay (schedule.atHead i)).getHead ledger with
    | none =>
        rw [rows_of_getHead_none hhead] at hrow
        cases hrow
    | some head =>
        refine ⟨head, (head_pageAt i after).trans hhead, Nat.le_of_lt_succ ?_⟩
        rw [← List.take_length (l := rowsOf (schedule.atHead i) ledger),
          getHead_rows (schedule.completeHead ledger i) hhead] at hrow
        exact sequence_of_mem_take (schedule.completeHead ledger i) hrow
  complete i read hread hlast := by
    obtain ⟨after, rfl, hlisted, -, -⟩ := page_cursor hread
    have hall : listedBefore schedule ledger limit (i + 1) = rowsOf (schedule.atHead i) ledger := by
      rw [next_pageAt] at hlast
      split_ifs at hlast with hmore
      rw [listedBefore_succ hread, hlisted, entries_pageAt, ← List.take_add,
        List.take_of_length_le (not_lt.mp hmore)]
    refine ⟨head_pageAt i after, hall, ?_⟩
    rw [hall, map_sequence (schedule.completeHead ledger i), head_pageAt]
    congr 1
    cases hhead : (replay (schedule.atHead i)).getHead ledger with
    | none => rw [rows_of_getHead_none hhead]; rfl
    | some head => exact getHead_rows (schedule.completeHead ledger i) hhead
  ends i hstops := by
    by_contra hnever
    simp only [not_exists, not_and] at hnever
    -- after as many pages as there are rows, the cursor has passed them all
    obtain ⟨read, hread⟩ := exists_page hnever (i + (rowsOf (schedule.atHead i) ledger).length)
    obtain ⟨after, rfl, -, hturn, -⟩ := page_cursor hread
    refine hnever _ _ hread ?_
    have hpos := clampLimit_pos limit
    rw [next_pageAt, hstops _ (Nat.le_add_right i _), if_neg (by omega)]

end Walk

section Sample

/-- Two entries, and a third that is appended before the first page's range is read. -/
def sampleHeads : Nat → List (Commit SampleDouble)
  | 0 => [sampleGenesis, sampleCommit (js "first")]
  | _ + 1 => [sampleGenesis, sampleCommit (js "first"), sampleSecond]

def sampleSchedule : Schedule SampleDouble where
  atHead := sampleHeads
  atRange i := sampleHeads (i + 1)
  recorded _ := sampleSecond_recorded.weaken fun _ _ _ => trivial
  rangeAfterHead i := by
    cases i with
    | zero => exact List.prefix_append _ [sampleSecond]
    | succ i => exact List.prefix_rfl
  headAfterRange _ := List.prefix_rfl

def samplePage (i : Nat) (after : Option Nat) : AuditReadEntriesPage SampleDouble :=
  pageAt sampleSchedule sampleConfig.toAuditLedgerRef (some (.finite 1)) i after

theorem clampLimit_one : clampLimit (some (.finite 1)) = 1 := by decide +kernel

theorem samplePage_reads (i : Nat) (after : Option Nat) :
    (samplePage i after).entries =
        ((rowsOf (sampleHeads i) sampleConfig.toAuditLedgerRef).drop (startAfter after)).take 1 ∧
      (samplePage i after).nextAfterSequence =
        if startAfter after + 1 < (rowsOf (sampleHeads i) sampleConfig.toAuditLedgerRef).length
        then some (startAfter after) else none := by
  rw [samplePage, entries_pageAt, next_pageAt, clampLimit_one]
  exact ⟨rfl, rfl⟩

/-- Page by page, one entry a page. -/
theorem pages_readAll_sample :
    ∃ first second third,
      page sampleSchedule sampleConfig.toAuditLedgerRef (some (.finite 1)) 0 = some first ∧
      page sampleSchedule sampleConfig.toAuditLedgerRef (some (.finite 1)) 1 = some second ∧
      page sampleSchedule sampleConfig.toAuditLedgerRef (some (.finite 1)) 2 = some third ∧
      first.entries = [sampleGenesis.entry] ∧
      second.entries = [(sampleCommit (js "first")).entry] ∧
      third.entries = [sampleSecond.entry] ∧ third.nextAfterSequence = none ∧
      listedBefore sampleSchedule sampleConfig.toAuditLedgerRef (some (.finite 1)) 3 =
        rowsOf (sampleHeads 2) sampleConfig.toAuditLedgerRef := by
  have hnext : (samplePage 0 none).nextAfterSequence = some 0 := (samplePage_reads 0 none).2
  have hnext' : (samplePage 1 (some 0)).nextAfterSequence = some 1 :=
    (samplePage_reads 1 (some 0)).2
  have hlast : (samplePage 2 (some 1)).nextAfterSequence = none := (samplePage_reads 2 (some 1)).2
  have hsecond : page sampleSchedule sampleConfig.toAuditLedgerRef (some (.finite 1)) 1 =
      some (samplePage 1 (some 0)) :=
    congrArg (fun next => Option.bind next fun next => some (samplePage 1 (some next))) hnext
  have hthird : page sampleSchedule sampleConfig.toAuditLedgerRef (some (.finite 1)) 2 =
      some (samplePage 2 (some 1)) := by
    rw [page, hsecond]
    exact congrArg (fun next => Option.bind next fun next => some (samplePage 2 (some next))) hnext'
  obtain ⟨-, hlisted, -⟩ := (pages_readAll sampleSchedule sampleConfig.toAuditLedgerRef
    (some (.finite 1))).complete 2 _ hthird hlast
  exact ⟨_, _, _, rfl, hsecond, hthird, (samplePage_reads 0 none).1,
    (samplePage_reads 1 (some 0)).1, (samplePage_reads 2 (some 1)).1, hlast, hlisted⟩

end Sample

end KyaOs.Audit
