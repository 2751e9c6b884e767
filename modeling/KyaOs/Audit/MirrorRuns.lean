import KyaOs.Audit.Mirror

/-!
# An honest chain in the mirror

The journal of a mirror is always a prefix of the chain it is fed, whatever order its entries
come in. An `ingest` whose entry another call commits between its lookup and its read of the
head takes the entry for a foreign one; where no head is read that late, none does.
-/

namespace KyaOs.Audit

open Js Concurrency

variable {D : Type}

/-- The chain of an honest recorder, as its verifier and its hasher have it. -/
structure HonestChain (options : AuditMirrorServiceOptions D) (chain : List (SignedAuditEntry D)) :
    Prop where
  complete : entryLinks.Complete chain
  ledger : ∀ entry ∈ chain, entry.core.toAuditLedgerRef = options.ledger
  wellFormed : ∀ entry ∈ chain, entry.core.event.WellFormed
  digest : ∀ entry ∈ chain,
    digestAuditEntry options.verifier.numbers options.verifier.sha256 entry.core =
      .ok entry.entryDigest
  verified : ∀ entry ∈ chain, ∃ report,
    options.verifier.verifyEntries [entry.toJson] options.verificationPolicy [] = .ok report ∧
      report.cryptographicIntegrity.verdict = .valid
  keyed : ∀ entry ∈ chain, ∃ key, hashAuditValue options.verifier.numbers options.sha256
    .mirrorIdempotency (mirrorIdentity entry) = .ok key
  prints : options.verifier.numbers.Prints
  injective : Injective options.verifier.sha256
  keysInjective : Injective options.sha256

section Chain

variable (options : AuditMirrorServiceOptions D) (chain : List (SignedAuditEntry D))

def mirrorKey (entry : SignedAuditEntry D) : Digest :=
  (hashAuditValue options.verifier.numbers options.sha256 .mirrorIdempotency
    (mirrorIdentity entry)).toOption.getD []

/-- The commits of the first entries. -/
def mirrorLog (count : Nat) : List (Commit D) :=
  (chain.take count).map fun entry => ⟨options.ledger, mirrorKey options entry, entry⟩

/-- The head after the first entries. -/
def headAfter (count : Nat) : Option AuditHead :=
  (chain.take count).getLast?.map fun entry =>
    { options.ledger with sequence := entry.core.sequence, entryDigest := entry.entryDigest }

variable {options chain} {entry other : SignedAuditEntry D} {n count : Nat}

theorem mirrorLog_succ (hn : chain[n]? = some entry) : mirrorLog options chain (n + 1) =
    mirrorLog options chain n ++ [⟨options.ledger, mirrorKey options entry, entry⟩] := by
  rw [mirrorLog, List.take_add_one, hn, List.map_append]
  rfl

theorem commitsAt_mirrorLog : commitsAt (mirrorLog options chain count) (ledgerKey options.ledger) =
    mirrorLog options chain count := by
  refine List.filter_eq_self.mpr ?_
  intro commit hcommit
  obtain ⟨entry, -, rfl⟩ := List.mem_map.mp hcommit
  exact decide_eq_true rfl

theorem map_entry_mirrorLog :
    (mirrorLog options chain count).map (·.entry) = chain.take count := by
  rw [mirrorLog, List.map_map]
  exact List.map_id _

@[simp] theorem snapshot_mirrorLog :
    (replay (mirrorLog options chain count)).snapshot options.ledger = chain.take count := by
  rw [MemoryAuditJournal.snapshot, entriesByLedger_replay, commitsAt_mirrorLog,
    map_entry_mirrorLog]

@[simp] theorem getHead_mirrorLog :
    (replay (mirrorLog options chain count)).getHead options.ledger =
      headAfter options chain count := by
  rw [getHead_replay, commitsAt_mirrorLog, headAfter, mirrorLog, List.getLast?_map, Option.map_map]
  rfl

theorem wellFormed_mirrorIdentity (entry : SignedAuditEntry D) :
    (mirrorIdentity entry).WellFormed := by
  refine .object (by simp only [List.map_cons, List.map_nil]; decide) ?_
  simp only [List.forall_mem_cons]
  exact ⟨.string _, .string _, nofun⟩

namespace HonestChain

variable (h : HonestChain options chain)
include h

theorem hash_mirrorIdentity (hentry : entry ∈ chain) :
    hashAuditValue options.verifier.numbers options.sha256 .mirrorIdempotency
      (mirrorIdentity entry) = .ok (mirrorKey options entry) := by
  obtain ⟨key, hkey⟩ := h.keyed entry hentry
  rw [mirrorKey, hkey]
  rfl

/-- Keys tell entries of the chain apart. -/
theorem eq_of_mirrorKey (hentry : entry ∈ chain) (hother : other ∈ chain)
    (hkey : mirrorKey options entry = mirrorKey options other) : entry = other := by
  have hsame := same_of_hashAuditValue h.prints h.keysInjective (wellFormed_mirrorIdentity entry)
    (wellFormed_mirrorIdentity other) (h.hash_mirrorIdentity hentry)
    (hkey ▸ h.hash_mirrorIdentity hother)
  have hdigest : entry.entryDigest = other.entryDigest := same_text (js "entryDigest") hsame rfl rfl
  have hcore := same_of_hashAuditValue h.prints h.injective
    (wellFormed_core (h.wellFormed entry hentry)) (wellFormed_core (h.wellFormed other hother))
    (h.digest entry hentry) (hdigest ▸ h.digest other hother)
  exact h.complete.eq_of_sequence_eq hentry hother (AuditEntryCore.agrees_of_same hcore).sequence

/-- The key of an entry is taken once it is in the log. -/
theorem lookup_mirrorLog (hn : chain[n]? = some entry) :
    lookup (mirrorLog options chain count)
        (idempotencyKey options.ledger.ledgerId (mirrorKey options entry)) =
      if n < count then some entry else none := by
  induction count with
  | zero => rfl
  | succ count ih =>
      cases hcount : chain[count]? with
      | none =>
          have hle : chain.length ≤ count := List.getElem?_eq_none_iff.mp hcount
          have hlt : n < chain.length := (List.getElem?_eq_some_iff.mp hn).1
          have hsame : mirrorLog options chain (count + 1) = mirrorLog options chain count := by
            rw [mirrorLog, mirrorLog, List.take_of_length_le hle,
              List.take_of_length_le (hle.trans count.le_succ)]
          rw [hsame, ih, if_pos (by omega), if_pos (by omega)]
      | some last =>
          rw [mirrorLog_succ hcount, lookup_concat, ih]
          have hkey : Commit.idempotencyKey
              ⟨options.ledger, mirrorKey options last, last⟩ =
                idempotencyKey options.ledger.ledgerId (mirrorKey options entry) ↔ count = n := by
            constructor
            · intro hsame
              have hsame := List.append_cancel_left hsame
              have hentry := h.eq_of_mirrorKey (List.mem_of_getElem? hcount)
                (List.mem_of_getElem? hn) (List.cons.inj hsame).2
              rw [← h.complete.sequence_eq hcount, ← h.complete.sequence_eq hn, hentry]
            · rintro rfl
              obtain rfl := Option.some.inj (hcount.symm.trans hn)
              rfl
          by_cases hsame : count = n
          · subst hsame
            obtain rfl := Option.some.inj (hcount.symm.trans hn)
            rw [if_pos (hkey.mpr rfl), if_pos count.lt_succ_self]
          · rw [if_neg (fun hid => hsame (hkey.mp hid))]
            exact if_congr (by omega) rfl rfl

/-- The head after some entries, and the entry at a position. -/
theorem headAfter_cases (hcount : count ≤ chain.length) :
    count = 0 ∧ headAfter options chain count = none ∨
      ∃ before last, count = before + 1 ∧ chain[before]? = some last ∧
        headAfter options chain count = some
          { options.ledger with sequence := before, entryDigest := last.entryDigest } := by
  cases count with
  | zero => exact .inl ⟨rfl, rfl⟩
  | succ before =>
      have hlast := List.getElem?_eq_getElem (show before < chain.length by omega)
      refine .inr ⟨before, chain[before], rfl, hlast, ?_⟩
      have hsequence : chain[before].core.sequence = before := h.complete.sequence_eq hlast
      have htake : (chain.take (before + 1)).getLast? = some chain[before] := by
        rw [List.take_add_one, hlast]
        exact List.getLast?_concat
      rw [headAfter, htake, Option.map_some, hsequence]

theorem isOutOfOrder_headAfter (hn : chain[n]? = some entry) (hcount : count ≤ chain.length) :
    isOutOfOrder (headAfter options chain count) entry = decide (count < n) := by
  have hsequence : entry.core.sequence = n := h.complete.sequence_eq hn
  obtain ⟨rfl, hhead⟩ | ⟨before, last, rfl, -, hhead⟩ := h.headAfter_cases hcount
  · rw [hhead, isOutOfOrder, hsequence]
  · rw [hhead, isOutOfOrder, hsequence]

theorem isContinuous_headAfter (hn : chain[n]? = some entry) (hcount : count ≤ chain.length) :
    isContinuous (headAfter options chain count) entry = decide (n = count) := by
  have hsequence : entry.core.sequence = n := h.complete.sequence_eq hn
  obtain ⟨rfl, hhead⟩ | ⟨before, last, rfl, hlast, hhead⟩ := h.headAfter_cases hcount
  · rw [hhead, isContinuous, hsequence]
    refine decide_eq_decide.mpr (and_iff_left_of_imp ?_)
    rintro rfl
    exact (h.complete.genesis entry (by rw [List.head?_eq_getElem?, hn]; rfl)).2
  · rw [hhead, isContinuous, hsequence]
    refine decide_eq_decide.mpr (and_iff_left_of_imp ?_)
    rintro rfl
    exact h.complete.previous_eq hlast hn

/-- The append of an entry on the head before it. -/
theorem compareAndAppend_mirrorLog (hn : chain[n]? = some entry) (hcount : n ≤ count) :
    (replay (mirrorLog options chain count)).compareAndAppend options.ledger
        (headAfter options chain n) entry (mirrorKey options entry) =
      if n = count then (.appended entry, replay (mirrorLog options chain (n + 1)))
      else (.duplicate entry, replay (mirrorLog options chain count)) := by
  have hlookup : (replay (mirrorLog options chain count)).getByIdempotencyKey
      options.ledger.ledgerId (mirrorKey options entry) = if n < count then some entry else none :=
    h.lookup_mirrorLog hn
  by_cases hsame : n = count
  · subst hsame
    rw [if_neg (lt_irrefl n)] at hlookup
    rw [if_pos rfl, mirrorLog_succ hn, replay_concat, ← getHead_mirrorLog]
    exact compareAndAppend_getHead hlookup (headsEqual_iff.mpr rfl)
  · rw [if_pos (by omega)] at hlookup
    rw [if_neg hsame, MemoryAuditJournal.compareAndAppend, hlookup]
    exact if_pos rfl

end HonestChain

end Chain

section Runs

variable (options : AuditMirrorServiceOptions D) (chain : List (SignedAuditEntry D)) {ι : Type}
  (calls : ι → SignedAuditEntry D)

/-- The head is not read for an entry that the journal already holds. -/
def ReadInTime (c : ι) (request : MirrorRequest D) (journal : MemoryAuditJournal D) : Prop :=
  ∀ ledger, request = .getHead ledger → calls c ∉ journal.snapshot options.ledger

/-- The runs of a mirror in which every head is read in time. -/
def promptMirror : Program (mirrorSetting D) ι (SignedAuditEntry D) where
  code := (mirrorProgram options calls).code
  serves c request journal answer journal' :=
    (mirrorProgram options calls).serves c request journal answer journal' ∧
      ReadInTime options calls c request journal
  environment := (mirrorProgram options calls).environment

/-- The journal holds as many entries as the ghost value says; `prompt` if every head is read in
time. -/
def mirrorProtocol (prompt : Prop) : Protocol (mirrorSetting D) ι Nat where
  inv w := w.2 ≤ chain.length ∧ w.1 = replay (mirrorLog options chain w.2)
  rely _ w w' := w.2 ≤ w'.2
  fresh _ _ := True
  serves c request journal answer journal' :=
    serveMirror options request journal answer journal' ∧
      (prompt → ReadInTime options calls c request journal)

/-- How an `ingest` may end. -/
inductive Ingested (prompt : Prop) (entry : SignedAuditEntry D) (n : Nat) :
    Except AuditError (SignedAuditEntry D) → Nat → Prop
  | entry {count : Nat} : n < count → Ingested prompt entry n (.ok entry) count
  | outOfOrder {count : Nat} : Ingested prompt entry n (.error (.protocol .MIRROR_OUT_OF_ORDER
      (js "Mirror entry arrived before its predecessor and may be retried"))) count
  | continuityFailed {count : Nat} : ¬ prompt → n < count →
      Ingested prompt entry n (.error (.protocol .MIRROR_CONTINUITY_FAILED
        (js "Mirror entry does not exactly extend the observed recorder chain"))) count

variable {options chain calls} {prompt : Prop} {c : ι} {entry : SignedAuditEntry D} {n floor : Nat}

theorem guarantee_of_le {w w' : MemoryAuditJournal D × Nat} (h : w.2 ≤ w'.2) :
    (mirrorProtocol options chain calls prompt).guarantee c w w' :=
  fun _ _ => h

/-- A request: what it is answered with, and how far the journal is then. -/
theorem contract_mirrorReply {request : MirrorRequest D}
    (post : Except AuditError request.Answer → Nat → Prop)
    (hserve : ∀ count answer journal', floor ≤ count → count ≤ chain.length →
      serveMirror options request (replay (mirrorLog options chain count)) answer journal' →
      (prompt → ReadInTime options calls c request (replay (mirrorLog options chain count))) →
      ∃ count', count ≤ count' ∧ count' ≤ chain.length ∧
        journal' = replay (mirrorLog options chain count') ∧
        ∀ later, count' ≤ later → post answer later) :
    (mirrorProtocol options chain calls prompt).Contract c (fun w => floor ≤ w.2)
      (mirrorReply request) fun answer w => post answer w.2 ∧ floor ≤ w.2 := by
  refine .ask ?_ fun w => guarantee_of_le le_rfl
  rintro w ⟨journal, count⟩ - hfloor ⟨hcount, hjournal⟩ hrely answer journal' ⟨hserves, hprompt⟩
  obtain rfl : journal = replay (mirrorLog options chain count) := hjournal
  have hfloor' := hfloor.trans hrely
  obtain ⟨count', hle, hcount', rfl, hpost⟩ :=
    hserve count answer journal' hfloor' hcount hserves hprompt
  refine ⟨count', ⟨hcount', rfl⟩, guarantee_of_le hle, ?_⟩
  intro resumed _ hresumed
  exact ⟨hpost _ hresumed, (hfloor'.trans hle).trans hresumed⟩

/-- An answer that leaves the journal as it is. -/
theorem contract_mirrorRead {request : MirrorRequest D}
    (post : Except AuditError request.Answer → Nat → Prop)
    (hserve : ∀ count answer journal', floor ≤ count → count ≤ chain.length →
      serveMirror options request (replay (mirrorLog options chain count)) answer journal' →
      (prompt → ReadInTime options calls c request (replay (mirrorLog options chain count))) →
      journal' = replay (mirrorLog options chain count) ∧
        ∀ later, count ≤ later → post answer later) :
    (mirrorProtocol options chain calls prompt).Contract c (fun w => floor ≤ w.2)
      (mirrorReply request) fun answer w => post answer w.2 ∧ floor ≤ w.2 := by
  refine contract_mirrorReply post ?_
  intro count answer journal' hfloor hcount hserves hprompt
  obtain ⟨hjournal, hpost⟩ := hserve count answer journal' hfloor hcount hserves hprompt
  exact ⟨count, le_rfl, hcount, hjournal, hpost⟩

/-- A request that has one answer and leaves the journal. -/
theorem contract_mirrorAnswer {request : MirrorRequest D} {b : request.Answer}
    (hserve : ∀ journal answer journal', serveMirror options request journal answer journal' →
      answer = .ok b ∧ journal' = journal) :
    (mirrorProtocol options chain calls prompt).Contract c (fun w => floor ≤ w.2)
      (mirrorReply request) fun answer w => answer = .ok b ∧ floor ≤ w.2 := by
  refine contract_mirrorRead (fun answer _ => answer = .ok b) ?_
  intro count answer journal' _ _ hserves _
  obtain ⟨hanswer, hjournal⟩ := hserve _ answer journal' hserves
  exact ⟨hjournal, fun _ _ => hanswer⟩

section Ingest

variable (h : HonestChain options chain) (hn : chain[n]? = some (calls c))
include h hn

theorem contract_ingestAt {count : Nat} (hcount : count ≤ chain.length)
    (hprompt : prompt → count ≤ n) :
    (mirrorProtocol options chain calls prompt).Contract c (fun w => count ≤ w.2)
      (ingestAt options (calls c) (mirrorKey options (calls c)) (headAfter options chain count))
      fun result w => Ingested prompt (calls c) n result w.2 := by
  rw [ingestAt, h.isOutOfOrder_headAfter hn hcount, h.isContinuous_headAfter hn hcount]
  obtain hbehind | rfl | hahead := lt_trichotomy count n
  · rw [if_pos (decide_eq_true hbehind)]
    exact .throw fun _ _ _ => .outOfOrder
  · rw [if_neg (by simp), if_pos (decide_eq_true rfl)]
    have hlt := (List.getElem?_eq_some_iff.mp hn).1
    refine .bind (contract_mirrorReply (fun answer later => count < later ∧
      (answer = .ok (AuditAppendResult.appended (calls c)) ∨
        answer = .ok (AuditAppendResult.duplicate (calls c)))) ?_) ?_ ?_
    · rintro found answer journal' hfloor hfound ⟨rfl, rfl⟩ -
      rw [h.compareAndAppend_mirrorLog hn hfloor]
      by_cases hsame : count = found
      · rw [if_pos hsame]
        exact ⟨count + 1, by omega, hlt, rfl, fun later hlater => ⟨hlater, .inl rfl⟩⟩
      · rw [if_neg hsame]
        exact ⟨found, le_rfl, hfound, rfl, fun later hlater => ⟨by omega, .inr rfl⟩⟩
    · intro result
      refine .of_pre (fun _ _ h => h.1.2) ?_
      rintro (hresult | hresult) <;> obtain rfl := Except.ok.inj hresult <;>
        exact .pure fun _ _ h => Ingested.entry h.1.1
    · rintro thrown w - ⟨⟨-, hthrown | hthrown⟩, -⟩ <;> cases hthrown
  · rw [if_neg (by simp; omega), if_neg (by simp; omega)]
    exact .throw fun _ _ hcount => .continuityFailed (fun hp => absurd (hprompt hp) (by omega))
      (lt_of_lt_of_le hahead hcount)

theorem contract_ingestNew :
    (mirrorProtocol options chain calls prompt).Contract c (fun w => 0 ≤ w.2)
      (ingestNew options (calls c) (mirrorKey options (calls c)))
      fun result w => Ingested prompt (calls c) n result w.2 := by
  refine .bind (contract_mirrorRead (fun answer later => ∃ count ≤ later, count ≤ chain.length ∧
    (prompt → count ≤ n) ∧ answer = .ok (headAfter options chain count)) ?_) ?_ ?_
  · rintro count answer journal' - hcount ⟨rfl, rfl⟩ hprompt
    rw [getHead_mirrorLog]
    refine ⟨rfl, fun later hlater => ⟨count, hlater, hcount, ?_, rfl⟩⟩
    intro hp
    have hunread := hprompt hp options.ledger rfl
    rw [snapshot_mirrorLog] at hunread
    by_contra hlt
    exact hunread (List.mem_of_getElem? ((List.getElem?_take_of_lt (by omega)).trans hn))
  · intro head
    refine .of_weaker (fun w => ∃ count, count ≤ w.2 ∧ count ≤ chain.length ∧
      (prompt → count ≤ n) ∧ head = headAfter options chain count) (.of_exists fun count => ?_) ?_
    · refine .of_pre (fun _ _ h => h.2) ?_
      rintro ⟨hcount, hprompt, rfl⟩
      exact (contract_ingestAt h hn hcount hprompt).mono_pre fun _ _ h => h.1
    · rintro w - ⟨⟨count, hle, hcount, hprompt, hhead⟩, -⟩
      exact ⟨count, hle, hcount, hprompt, Except.ok.inj hhead⟩
  · rintro thrown w - ⟨⟨_, -, -, -, hthrown⟩, -⟩
    cases hthrown

theorem contract_ingestVerified :
    (mirrorProtocol options chain calls prompt).Contract c (fun w => 0 ≤ w.2)
      (ingestVerified options (calls c))
      fun result w => Ingested prompt (calls c) n result w.2 := by
  have hmem := List.mem_of_getElem? hn
  have hledger : (calls c).core.ledgerId = options.ledger.ledgerId :=
    congrArg AuditLedgerRef.ledgerId (h.ledger _ hmem)
  have hhash : ∀ journal answer journal', serveMirror options
      (.hash (mirrorIdentity (calls c))) journal answer journal' →
        answer = .ok (mirrorKey options (calls c)) ∧ journal' = journal := by
    rintro journal answer journal' ⟨rfl, rfl⟩
    rw [h.hash_mirrorIdentity hmem]
    exact ⟨rfl, rfl⟩
  refine .bind_ok (contract_mirrorAnswer hhash) ?_
  refine .bind (contract_mirrorRead (fun answer later => answer = .ok none ∨
    answer = .ok (some (calls c)) ∧ n < later) ?_) ?_ ?_
  · rintro count answer journal' - - ⟨rfl, rfl⟩ -
    have hlookup : (replay (mirrorLog options chain count)).getByIdempotencyKey
        (calls c).core.ledgerId (mirrorKey options (calls c)) =
          if n < count then some (calls c) else none :=
      hledger ▸ h.lookup_mirrorLog hn
    refine ⟨rfl, fun later hlater => ?_⟩
    rw [hlookup]
    by_cases hlt : n < count
    · rw [if_pos hlt]
      exact .inr ⟨rfl, by omega⟩
    · rw [if_neg hlt]
      exact .inl rfl
  · intro duplicate
    cases duplicate with
    | none => exact (contract_ingestNew h hn).mono_pre fun _ _ _ => Nat.zero_le _
    | some duplicate =>
        refine .of_weaker (fun w => duplicate = calls c ∧ n < w.2)
          (.of_pre (fun _ _ h => h.1) ?_) ?_
        · rintro rfl
          simp only [if_true]
          exact .pure fun _ _ h => Ingested.entry h.2
        · rintro w - ⟨hnone | ⟨hsame, hlt⟩, -⟩
          · cases hnone
          · exact ⟨Option.some.inj (Except.ok.inj hsame), hlt⟩
  · rintro thrown w - ⟨hthrown | ⟨hthrown, -⟩, -⟩ <;> cases hthrown

/-- Every `ingest` of an entry of the chain. -/
theorem contract_ingest :
    (mirrorProtocol options chain calls prompt).Contract c (fun w => 0 ≤ w.2)
      (ingest options (calls c)) fun result w => Ingested prompt (calls c) n result w.2 := by
  have hmem := List.mem_of_getElem? hn
  obtain ⟨report, hreport, hvalid⟩ := h.verified _ hmem
  rw [ingest, if_pos (h.ledger _ hmem)]
  have hverify : ∀ journal answer journal', serveMirror options
      (.verifyEntries (calls c)) journal answer journal' →
        answer = .ok report ∧ journal' = journal := by
    rintro journal answer journal' ⟨rfl, rfl⟩
    rw [hreport]
    exact ⟨rfl, rfl⟩
  refine .bind_ok (contract_mirrorAnswer hverify) ?_
  rw [if_pos hvalid]
  exact contract_ingestVerified h hn

end Ingest

theorem Ingested.mono {result : Except AuditError (SignedAuditEntry D)} {count later : Nat}
    (h : Ingested prompt entry n result count) (hle : count ≤ later) :
    Ingested prompt entry n result later := by
  cases h with
  | entry hlt => exact .entry (hlt.trans_le hle)
  | outOfOrder => exact .outOfOrder
  | continuityFailed hprompt hlt => exact .continuityFailed hprompt (hlt.trans_le hle)

/-- Calls that ingest entries of the chain keep the protocol. -/
theorem mirror_discipline (h : HonestChain options chain) (hcalls : ∀ c, calls c ∈ chain)
    {program : Program (mirrorSetting D) ι (SignedAuditEntry D)}
    (hcode : program.code = (mirrorProgram options calls).code)
    (hserves : ∀ c request s answer s', program.serves c request s answer s' →
      (mirrorProtocol options chain calls prompt).serves c request s answer s')
    (henvironment : ∀ s s', ¬ program.environment s s') :
    Discipline program (mirrorProtocol options chain calls prompt) fun c _ result w =>
      Ingested prompt (calls c) (calls c).core.sequence result w.2 where
  rely_refl _ _ := le_rfl
  rely_trans _ _ _ _ h h' := le_trans h h'
  serves := hserves
  environment w s' _ hstep := absurd hstep (henvironment _ _)
  fresh_stable _ _ _ _ _ _ := trivial
  code := by
    intro c born _ _ w hinv _
    obtain ⟨n, hn⟩ := List.mem_iff_getElem?.mp (hcalls c)
    obtain rfl : (calls c).core.sequence = n := h.complete.sequence_eq hn
    rw [hcode]
    exact contract_ingest h hn w w.1 w.2 hinv (guarantee_of_le le_rfl) (Nat.zero_le _)
  post_stable _ _ _ _ _ hpost _ hrely := hpost.mono hrely

/-- What holds in every state of a run of a disciplined mirror. -/
theorem mirror_sound (prompt : Prop) (h : HonestChain options chain)
    (hcalls : ∀ c, calls c ∈ chain) (program : Program (mirrorSetting D) ι (SignedAuditEntry D))
    (hcode : program.code = (mirrorProgram options calls).code)
    (hserves : ∀ c request s answer s', program.serves c request s answer s' →
      (mirrorProtocol options chain calls prompt).serves c request s answer s')
    (henvironment : ∀ s s', ¬ program.environment s s')
    {run : Config (mirrorSetting D) ι (SignedAuditEntry D)}
    (hreaches : program.Reaches (Program.initial .empty) run) :
    ∃ count, run.state.snapshot options.ledger = chain.take count ∧
      ∀ c born result, run.calls c = some ⟨born, .finished result⟩ →
        Ingested prompt (calls c) (calls c).core.sequence result count := by
  have hdiscipline := mirror_discipline h hcalls hcode hserves henvironment
  have hinv : (mirrorProtocol options chain calls prompt).inv (.empty, 0) := ⟨Nat.zero_le _, rfl⟩
  obtain ⟨count, ⟨-, hstate⟩, -, hsound⟩ :=
    hreaches.sound hdiscipline (sound_initial hinv fun _ => trivial)
  have hjournal : run.state = replay (mirrorLog options chain count) := hstate
  refine ⟨count, ?_, fun c born result hc => hsound c _ hc⟩
  rw [hjournal, snapshot_mirrorLog]

/-- In every run the journal is a prefix of the chain, and a false alarm is about an entry that
the journal holds; where every head is read in time there is none. -/
theorem mirror_honest_chain (h : HonestChain options chain) (hcalls : ∀ c, calls c ∈ chain) :
    (∀ run, (mirrorProgram options calls).Reaches (Program.initial .empty) run →
      run.state.snapshot options.ledger <+: chain ∧
      ∀ c born result, run.calls c = some ⟨born, .finished result⟩ →
        result = .ok (calls c) ∨
        (∃ message, result = .error (.protocol .MIRROR_OUT_OF_ORDER message)) ∨
        (∃ message, result = .error (.protocol .MIRROR_CONTINUITY_FAILED message)) ∧
          calls c ∈ run.state.snapshot options.ledger) ∧
    ∀ run, (promptMirror options calls).Reaches (Program.initial .empty) run →
      run.state.snapshot options.ledger <+: chain ∧
      ∀ c born result, run.calls c = some ⟨born, .finished result⟩ →
        result = .ok (calls c) ∨
        ∃ message, result = .error (.protocol .MIRROR_OUT_OF_ORDER message) := by
  refine ⟨?_, ?_⟩
  · intro run hreaches
    obtain ⟨count, hsnapshot, hends⟩ := mirror_sound False h hcalls
      (mirrorProgram options calls) rfl (fun _ _ _ _ _ hserves => ⟨hserves, False.elim⟩)
      (fun _ _ hstep => hstep) hreaches
    refine ⟨hsnapshot ▸ List.take_prefix count chain, ?_⟩
    intro c born result hc
    cases hends c born result hc with
    | entry _ => exact .inl rfl
    | outOfOrder => exact .inr (.inl ⟨_, rfl⟩)
    | continuityFailed _ hlt =>
        obtain ⟨n, hn⟩ := List.mem_iff_getElem?.mp (hcalls c)
        have hsequence : (calls c).core.sequence = n := h.complete.sequence_eq hn
        rw [hsequence] at hlt
        rw [hsnapshot]
        exact .inr (.inr ⟨⟨_, rfl⟩,
          List.mem_of_getElem? ((List.getElem?_take_of_lt hlt).trans hn)⟩)
  · intro run hreaches
    obtain ⟨count, hsnapshot, hends⟩ := mirror_sound True h hcalls
      (promptMirror options calls) rfl
      (fun _ _ _ _ _ hserves => ⟨hserves.1, fun _ => hserves.2⟩) (fun _ _ hstep => hstep) hreaches
    refine ⟨hsnapshot ▸ List.take_prefix count chain, ?_⟩
    intro c born result hc
    cases hends c born result hc with
    | entry _ => exact .inl rfl
    | outOfOrder => exact .inr ⟨_, rfl⟩
    | continuityFailed hprompt _ => exact absurd trivial hprompt

end Runs

section Solo

open Async.Leads

/-- A service that answers as the mirror's does, apart from the head. -/
def ServesMirror (options : AuditMirrorServiceOptions D)
    (serves : Async.Serving (mirrorSetting D)) : Prop :=
  ∀ request journal answer journal', (∀ ledger, request ≠ .getHead ledger) →
    serveMirror options request journal answer journal' → serves request journal answer journal'

variable {options : AuditMirrorServiceOptions D} {chain : List (SignedAuditEntry D)}
  {entry : SignedAuditEntry D} {n count : Nat} {serves : Async.Serving (mirrorSetting D)}
  {head : Option AuditHead} {resumed journal' : MemoryAuditJournal D}
  {thread : Thread (mirrorSetting D) (SignedAuditEntry D)}

namespace HonestChain

section Front

variable (h : HonestChain options chain)
include h

theorem of_front {front : List (SignedAuditEntry D)} (hfront : front <+: chain) :
    HonestChain options front where
  complete := h.complete.of_front hfront
  ledger entry hentry := h.ledger entry (hfront.subset hentry)
  wellFormed entry hentry := h.wellFormed entry (hfront.subset hentry)
  digest entry hentry := h.digest entry (hfront.subset hentry)
  verified entry hentry := h.verified entry (hfront.subset hentry)
  keyed entry hentry := h.keyed entry (hfront.subset hentry)
  prints := h.prints
  injective := h.injective
  keysInjective := h.keysInjective

theorem serves_verifyEntries (hentry : entry ∈ chain) :
    ∃ report, report.cryptographicIntegrity.verdict = .valid ∧ ∀ journal,
      serveMirror options (.verifyEntries entry) journal (.ok report) journal := by
  obtain ⟨report, hreport, hvalid⟩ := h.verified entry hentry
  refine ⟨report, hvalid, fun journal => ⟨?_, rfl⟩⟩
  rw [hreport]
  rfl

theorem serves_hash (hentry : entry ∈ chain) (journal : MemoryAuditJournal D) :
    serveMirror options (.hash (mirrorIdentity entry)) journal (.ok (mirrorKey options entry))
      journal := by
  refine ⟨?_, rfl⟩
  rw [h.hash_mirrorIdentity hentry]
  rfl

end Front

variable (h : HonestChain options chain) (hn : chain[n]? = some entry)
include h hn

/-- An entry that the journal does not have comes to the head. -/
theorem ingest_pauses (hserves : ServesMirror options serves) (hcount : count ≤ n)
    (hends : (ingestAt options entry (mirrorKey options entry) head).Leads serves resumed journal'
      thread) :
    Pauses serves (ingest options entry) (replay (mirrorLog options chain count))
      (replay (mirrorLog options chain count)) (.getHead options.ledger) (.ok head) resumed journal'
      thread := by
  have hmem := List.mem_of_getElem? hn
  obtain ⟨report, hvalid, hverify⟩ := h.serves_verifyEntries hmem
  have hledger := h.ledger entry hmem
  have hlookup : (replay (mirrorLog options chain count)).getByIdempotencyKey
      entry.core.ledgerId (mirrorKey options entry) = none := by
    rw [show entry.core.ledgerId = options.ledger.ledgerId from
      congrArg AuditLedgerRef.ledgerId hledger]
    exact (h.lookup_mirrorLog hn).trans (if_neg (by omega))
  rw [ingest, if_pos hledger]
  refine .after (.ask (hserves _ _ _ _ nofun (hverify _))) ?_
  rw [if_pos hvalid]
  refine .after (.ask (hserves _ _ _ _ nofun (h.serves_hash hmem _))) ?_
  exact .after (.ask (hserves _ _ _ _ nofun ⟨congrArg Except.ok hlookup.symm, rfl⟩))
    (.bind .ask hends)

/-- An entry that the journal has is returned. -/
theorem ingest_duplicate (hserves : ServesMirror options serves) (hcount : n < count) :
    (ingest options entry).Leads serves (replay (mirrorLog options chain count))
      (replay (mirrorLog options chain count)) (.finished (.ok entry)) := by
  have hmem := List.mem_of_getElem? hn
  obtain ⟨report, hvalid, hverify⟩ := h.serves_verifyEntries hmem
  have hledger := h.ledger entry hmem
  have hlookup : (replay (mirrorLog options chain count)).getByIdempotencyKey
      entry.core.ledgerId (mirrorKey options entry) = some entry := by
    rw [show entry.core.ledgerId = options.ledger.ledgerId from
      congrArg AuditLedgerRef.ledgerId hledger]
    exact (h.lookup_mirrorLog hn).trans (if_pos hcount)
  rw [ingest, if_pos hledger]
  refine .bind (.ask (hserves _ _ _ _ nofun (hverify _))) ?_
  rw [if_pos hvalid]
  refine .bind (.ask (hserves _ _ _ _ nofun (h.serves_hash hmem _))) ?_
  refine .bind (.ask (hserves _ _ _ _ nofun ⟨congrArg Except.ok hlookup.symm, rfl⟩)) ?_
  simp only [if_true]
  exact .done

/-- On the head before it an entry is appended. -/
theorem ingestAt_appends (hserves : ServesMirror options serves) :
    (ingestAt options entry (mirrorKey options entry) (headAfter options chain n)).Leads serves
      (replay (mirrorLog options chain n)) (replay (mirrorLog options chain (n + 1)))
      (.finished (.ok entry)) := by
  have hlength : n ≤ chain.length := (List.getElem?_eq_some_iff.mp hn).1.le
  have happend := h.compareAndAppend_mirrorLog hn le_rfl
  rw [if_pos rfl] at happend
  have hserve : serveMirror options (.compareAndAppend options.ledger (headAfter options chain n)
      entry (mirrorKey options entry)) (replay (mirrorLog options chain n))
      (.ok (.appended entry)) (replay (mirrorLog options chain (n + 1))) :=
    ⟨congrArg (fun appended => Except.ok appended.1) happend.symm, congrArg Prod.snd happend.symm⟩
  rw [ingestAt, h.isOutOfOrder_headAfter hn hlength, h.isContinuous_headAfter hn hlength]
  simp only [lt_irrefl, decide_false, Bool.false_eq_true, if_false, decide_true, if_true]
  exact ask_bind (hserves _ _ _ _ nofun hserve) .done

/-- On an earlier head it is out of order. -/
theorem ingestAt_early (resumed : MemoryAuditJournal D) (hcount : count < n) :
    (ingestAt options entry (mirrorKey options entry) (headAfter options chain count)).Leads serves
      resumed resumed (.finished (.error (.protocol .MIRROR_OUT_OF_ORDER
        (js "Mirror entry arrived before its predecessor and may be retried")))) := by
  have hlength : count ≤ chain.length := hcount.le.trans (List.getElem?_eq_some_iff.mp hn).1.le
  rw [ingestAt, h.isOutOfOrder_headAfter hn hlength, if_pos (decide_eq_true hcount)]
  exact .done

/-- On a later head it is taken for a foreign entry. -/
theorem ingestAt_late (resumed : MemoryAuditJournal D) (hcount : n < count)
    (hlength : count ≤ chain.length) :
    (ingestAt options entry (mirrorKey options entry) (headAfter options chain count)).Leads serves
      resumed resumed (.finished (.error (.protocol .MIRROR_CONTINUITY_FAILED
        (js "Mirror entry does not exactly extend the observed recorder chain")))) := by
  rw [ingestAt, h.isOutOfOrder_headAfter hn hlength, h.isContinuous_headAfter hn hlength]
  simp only [hcount.not_gt, hcount.ne, decide_false, Bool.false_eq_true, if_false]
  exact .done

end HonestChain

end Solo

section Sample

open Async.Leads

def sampleMirror : AuditMirrorServiceOptions SampleDouble where
  ledger := sampleConfig.toAuditLedgerRef
  verifier := linkedVerifier
  verificationPolicy := samplePolicyValue
  sha256 := sampleSha256

/-- The genesis and an event after it. -/
def sampleChain : List (SignedAuditEntry SampleDouble) :=
  [sampleGenesis.entry, (sampleCommit (js "first")).entry]

/-- The genesis, twice. -/
def sampleIngests : Bool → SignedAuditEntry SampleDouble :=
  fun _ => sampleGenesis.entry

/-- The two entries by turns. -/
def sampleFeed (c : Nat) : SignedAuditEntry SampleDouble :=
  if c % 2 = 0 then sampleGenesis.entry else (sampleCommit (js "first")).entry

theorem forall_mem_sampleChain {p : SignedAuditEntry SampleDouble → Prop}
    (hgenesis : p sampleGenesis.entry) (hfirst : p (sampleCommit (js "first")).entry) :
    ∀ entry ∈ sampleChain, p entry :=
  List.forall_mem_cons.mpr ⟨hgenesis, List.forall_mem_singleton.mpr hfirst⟩

theorem sampleEntry_keyed {event : AuditProducerEvent SampleDouble} {head : Option AuditHead} :
    ∃ key, hashAuditValue sampleDoubles sampleSha256 .mirrorIdempotency
      (mirrorIdentity (sampleEntry event head)) = .ok key := by
  have hledger : hasLoneSurrogate (js "ledger") = false := by decide
  have hdigest : hasLoneSurrogate (sampleEntry event head).entryDigest = false :=
    hasLoneSurrogate_sampleDigest _ _
  refine ⟨_, sampleDigest_eq (wellFormed_mirrorIdentity _) (.object ?_ ?_)⟩
  · simp only [List.forall_mem_cons]
    exact ⟨by decide, by decide, nofun⟩
  · simp only [List.forall_mem_cons]
    exact ⟨.string hledger, .string hdigest, nofun⟩

theorem sampleChain_honest : HonestChain sampleMirror sampleChain where
  complete := (HashChain.Links.Complete.nil.concat ⟨rfl, rfl⟩).concat ⟨rfl, rfl⟩
  ledger := forall_mem_sampleChain rfl rfl
  wellFormed := forall_mem_sampleChain (canonical_of_isCanonical _ canonical_genesis).1
    (canonical_of_isCanonical _ sampleFresh_first.event).1
  digest := forall_mem_sampleChain
    (sampleEntry_attested canonical_genesis (hasLoneSurrogate_decimalString _) (by simp)).entry
    (sampleCommit_attested sampleFresh_first.event).entry
  verified := by
    refine forall_mem_sampleChain ?_ ?_
    · obtain ⟨report, hreport, hvalid⟩ := verifyEntries_one entrySchema_genesis
        (verifyEntry_genesis [])
      exact ⟨report, hreport, hvalid⟩
    · obtain ⟨report, hreport, hvalid⟩ := verifyEntries_one
        (entrySchema_linked sampleFresh_first.event)
        (verifyEntry_sample sampleFresh_first.event sampleFresh_first.manifest
          (by rintro _ ⟨⟩; exact hasLoneSurrogate_sampleDigest _ _) [])
      exact ⟨report, hreport, hvalid⟩
  keyed := forall_mem_sampleChain sampleEntry_keyed sampleEntry_keyed
  prints := sampleDoubles_prints
  injective := sampleSha256_injective
  keysInjective := sampleSha256_injective

theorem sampleFeed_mem (c : Nat) : sampleFeed c ∈ sampleChain := by
  unfold sampleFeed
  split_ifs
  · exact List.mem_cons_self
  · exact List.mem_cons_of_mem _ (List.mem_singleton_self _)

theorem servesMirror_promptMirror (c : Nat) :
    ServesMirror sampleMirror ((promptMirror sampleMirror sampleFeed).serves c) :=
  fun _ _ _ _ hnot hserves => ⟨hserves, fun ledger hhead => absurd hhead (hnot ledger)⟩

theorem servesMirror_mirrorProgram (c : Bool) :
    ServesMirror sampleMirror ((mirrorProgram sampleMirror sampleIngests).serves c) :=
  fun _ _ _ _ _ hserves => hserves

/-- A head is read in time for an entry past those of the journal. -/
theorem sampleHead_serves {c n count : Nat} (hn : sampleChain[n]? = some (sampleFeed c))
    (hcount : count ≤ n) :
    (promptMirror sampleMirror sampleFeed).serves c (.getHead sampleMirror.ledger)
      (replay (mirrorLog sampleMirror sampleChain count))
      (.ok (headAfter sampleMirror sampleChain count))
      (replay (mirrorLog sampleMirror sampleChain count)) := by
  refine ⟨⟨congrArg Except.ok getHead_mirrorLog.symm, rfl⟩, ?_⟩
  rintro ledger ⟨⟩ hmem
  rw [snapshot_mirrorLog] at hmem
  obtain ⟨i, hi⟩ := List.mem_iff_getElem?.mp hmem
  have hlength : i < min count sampleChain.length :=
    List.length_take ▸ (List.getElem?_eq_some_iff.mp hi).1
  rw [List.getElem?_take_of_lt (by omega)] at hi
  have hsame : i = n :=
    (sampleChain_honest.complete.sequence_eq hi).symm.trans
      (sampleChain_honest.complete.sequence_eq hn)
  omega

/-- While the genesis waits for the head its successor arrives early; the genesis arrives again
once it is in the journal, and then its successor. -/
theorem mirror_honest_chain_sample :
    ∃ run, (promptMirror sampleMirror sampleFeed).Reaches (Program.initial .empty) run ∧
      run.state.snapshot sampleMirror.ledger = sampleChain ∧
      run.state.snapshot sampleMirror.ledger <+: sampleChain ∧
      (∃ born message, run.calls 1 =
        some ⟨born, .finished (.error (.protocol .MIRROR_OUT_OF_ORDER message))⟩) ∧
      ∀ c < 4, ∃ born result, run.calls c = some ⟨born, .finished result⟩ ∧
        (result = .ok (sampleFeed c) ∨
          ∃ message, result = .error (.protocol .MIRROR_OUT_OF_ORDER message)) := by
  have hgenesis : sampleChain[0]? = some (sampleFeed 0) := rfl
  have hfirst : sampleChain[1]? = some (sampleFeed 1) := rfl
  have hgenesis' : sampleChain[0]? = some (sampleFeed 2) := rfl
  have hfirst' : sampleChain[1]? = some (sampleFeed 3) := rfl
  have h := sampleChain_honest
  obtain ⟨k, hwaits, hends⟩ := h.ingest_pauses hgenesis (servesMirror_promptMirror 0) le_rfl
    (h.ingestAt_appends hgenesis (servesMirror_promptMirror 0))
  have hearly := (h.ingest_pauses hfirst (servesMirror_promptMirror 1) (Nat.zero_le 1)
    (h.ingestAt_early hfirst (replay (mirrorLog sampleMirror sampleChain 0))
      Nat.zero_lt_one)).leads (sampleHead_serves hfirst (Nat.zero_le 1))
  have hagain := h.ingest_duplicate hgenesis' (servesMirror_promptMirror 2) Nat.zero_lt_one
  have hthen := (h.ingest_pauses hfirst' (servesMirror_promptMirror 3) le_rfl
    (h.ingestAt_appends hfirst' (servesMirror_promptMirror 3))).leads
      (sampleHead_serves hfirst le_rfl)
  obtain ⟨early, hreachesEarly, hstate, hwaiting, hearlier, hnone⟩ :=
    hwaits.run_both Nat.one_ne_zero hearly
  have hhead : (promptMirror sampleMirror sampleFeed).serves 0 (.getHead sampleMirror.ledger)
      early.state (.ok (headAfter sampleMirror sampleChain 0)) early.state := by
    rw [hstate]
    exact sampleHead_serves hgenesis le_rfl
  rw [← hstate] at hends
  obtain ⟨appended, hreachesAppended, happended⟩ :=
    Async.Leads.reaches_served hwaiting hhead hends
  rw [← happended.state] at hagain
  have hfresh : ∀ c, 1 < c → appended.calls c = none := fun c hc =>
    (happended.others c (by omega)).trans (hnone c (by omega) (by omega))
  obtain ⟨again, hreachesAgain, hduplicate⟩ := hagain.reaches_called (hfresh 2 (by decide))
  rw [← hduplicate.state.trans happended.state] at hthen
  obtain ⟨run, hreachesRun, hrun⟩ :=
    hthen.reaches_called ((hduplicate.others 3 (by decide)).trans (hfresh 3 (by decide)))
  have hzero := (hrun.others 0 (by decide)).trans
    ((hduplicate.others 0 (by decide)).trans happended.moved)
  have hone := (hrun.others 1 (by decide)).trans ((hduplicate.others 1 (by decide)).trans
    ((happended.others 1 (by decide)).trans hearlier))
  have htwo := (hrun.others 2 (by decide)).trans hduplicate.moved
  have hruns := Program.Reaches.trans (.trans (.trans hreachesEarly hreachesAppended)
    hreachesAgain) hreachesRun
  obtain ⟨hobserved, hcalls⟩ := (mirror_honest_chain h sampleFeed_mem).2 run hruns
  have hsnapshot : run.state.snapshot sampleMirror.ledger = sampleChain := by
    rw [hrun.state]
    exact snapshot_mirrorLog
  refine ⟨run, hruns, hsnapshot, hobserved, ⟨_, _, hone⟩, ?_⟩
  intro c hc
  interval_cases c
  · exact ⟨_, _, hzero, hcalls _ _ _ hzero⟩
  · exact ⟨_, _, hone, hcalls _ _ _ hone⟩
  · exact ⟨_, _, htwo, hcalls _ _ _ htwo⟩
  · exact ⟨_, _, hrun.moved, hcalls _ _ _ hrun.moved⟩

/-- Two calls with one entry: one reads the head that the other has appended it to. -/
theorem mirror_false_alarm :
    HonestChain sampleMirror [sampleGenesis.entry] ∧ (∀ c, sampleIngests c = sampleGenesis.entry) ∧
    ∃ run, (mirrorProgram sampleMirror sampleIngests).Reaches (Program.initial .empty) run ∧
      run.calls true = some ⟨.empty, .finished (.error (.protocol .MIRROR_CONTINUITY_FAILED
        (js "Mirror entry does not exactly extend the observed recorder chain")))⟩ := by
  have h : HonestChain sampleMirror [sampleGenesis.entry] :=
    sampleChain_honest.of_front (List.prefix_append _ [_])
  refine ⟨h, fun _ => rfl, ?_⟩
  have hgenesis : [sampleGenesis.entry][0]? = some sampleGenesis.entry := rfl
  have hserves := servesMirror_mirrorProgram
  obtain ⟨k, hwaits, hends⟩ := h.ingest_pauses hgenesis (hserves true) le_rfl
    (h.ingestAt_late hgenesis (replay (mirrorLog sampleMirror [sampleGenesis.entry] 1))
      Nat.zero_lt_one le_rfl)
  have hother := (h.ingest_pauses hgenesis (hserves false) le_rfl
    (h.ingestAt_appends hgenesis (hserves false))).leads
      ⟨congrArg Except.ok getHead_mirrorLog.symm, rfl⟩
  obtain ⟨committed, hcommits, hstate, hwaiting, -, -⟩ :=
    hwaits.run_both Bool.false_ne_true hother
  have hhead : (mirrorProgram sampleMirror sampleIngests).serves true
      (.getHead sampleMirror.ledger) committed.state
      (.ok (headAfter sampleMirror [sampleGenesis.entry] 1))
      (replay (mirrorLog sampleMirror [sampleGenesis.entry] 1)) := by
    rw [hstate]
    exact ⟨congrArg Except.ok getHead_mirrorLog.symm, rfl⟩
  obtain ⟨run, hfails, hrun⟩ := Async.Leads.reaches_served hwaiting hhead hends
  exact ⟨run, hcommits.trans hfails, hrun.moved⟩

end Sample

end KyaOs.Audit
