import Mathlib.Data.List.Chain
import KyaOs.Audit.Observer
import KyaOs.Audit.RecorderSolo

/-!
# What an observer endorses

The receipts issued under one key are a chain: each is of a larger tree that the configured
check found consistent with the one before, and links to that one's receipt. Ledgers of one key
share the chain.
-/

namespace KyaOs.Audit

open Js Concurrency

variable {D ι : Type}

section Receipts

/-- The leaves of a checkpoint's tree. -/
def leavesOf (leaves : Nat → Digest → List Digest) (checkpoint : SignedAuditCheckpoint D) :
    List Digest :=
  leaves checkpoint.core.treeSize checkpoint.core.rootDigest

variable (config : MemoryAuditCheckpointObserverConfig D)
  (accepts : SignedAuditCheckpoint D → SignedAuditCheckpoint D → Prop)
  (leaves : Nat → Digest → List Digest)

/-- The later receipt comes right after the earlier one. -/
structure PublishedAfter (earlier later : ObservedAuditCheckpoint D) : Prop where
  size : earlier.checkpoint.core.treeSize < later.checkpoint.core.treeSize
  accepted : accepts earlier.checkpoint later.checkpoint
  linked : later.receipt.core.previousObservationDigest = some earlier.receipt.observationDigest

/-- Receipts in the order they were issued. -/
structure Issued (issued : List (ObservedAuditCheckpoint D)) : Prop where
  core : ∀ observed ∈ issued, ∃ existing now,
    observed.receipt.core = observationCore config observed.checkpoint existing now
  first : ∀ observed ∈ issued.head?, observed.receipt.core.previousObservationDigest = none
  linked : issued.IsChain (PublishedAfter accepts)

/-- The receipt issued for a checkpoint, or for one with its root and digest. -/
def Endorses (issued : List (ObservedAuditCheckpoint D)) (checkpoint : SignedAuditCheckpoint D)
    (receipt : AuditObservationReceipt D) : Prop :=
  ∃ observed ∈ issued, observed.receipt = receipt ∧
    observed.checkpoint.checkpointDigest = checkpoint.checkpointDigest ∧
    observed.checkpoint.core.treeSize = checkpoint.core.treeSize ∧
    observed.checkpoint.core.rootDigest = checkpoint.core.rootDigest

/-- The later tree is larger and begins with the earlier one. -/
def GrowsTo (earlier later : ObservedAuditCheckpoint D) : Prop :=
  earlier.checkpoint.core.treeSize < later.checkpoint.core.treeSize ∧
    leavesOf leaves earlier.checkpoint <+: leavesOf leaves later.checkpoint

variable {config accepts leaves} {issued : List (ObservedAuditCheckpoint D)}
  {checkpoint : SignedAuditCheckpoint D} {receipt : AuditObservationReceipt D} {now : D}

theorem issued_nil : Issued config accepts ([] : List (ObservedAuditCheckpoint D)) :=
  ⟨nofun, nofun, .nil⟩

/-- What may be issued after the receipts so far. -/
theorem Issued.concat (h : Issued config accepts issued)
    (hcore : receipt.core = observationCore config checkpoint issued.getLast? now)
    (hextends : ∀ last ∈ issued.getLast?,
      last.checkpoint.core.treeSize < checkpoint.core.treeSize ∧
        accepts last.checkpoint checkpoint) :
    Issued config accepts (issued ++ [⟨checkpoint, receipt⟩]) where
  core observed hmem := by
    obtain hold | hnew := List.mem_append.mp hmem
    · exact h.core observed hold
    · obtain rfl := List.mem_singleton.mp hnew
      exact ⟨_, now, hcore⟩
  first observed hmem := by
    cases hissued : issued with
    | nil =>
        subst hissued
        obtain rfl : _ = observed := Option.some.inj hmem
        rw [hcore]
        rfl
    | cons first rest =>
        refine h.first observed ?_
        rw [hissued] at hmem ⊢
        exact hmem
  linked := by
    refine List.isChain_append.mpr ⟨h.linked, .singleton _, ?_⟩
    intro last hlast next hnext
    obtain rfl : _ = next := Option.some.inj hnext
    obtain ⟨hsize, haccepted⟩ := hextends last hlast
    refine ⟨hsize, haccepted, ?_⟩
    rw [hcore, Option.mem_def.mp hlast]
    rfl

theorem Endorses.mono {issued' : List (ObservedAuditCheckpoint D)}
    (h : Endorses issued checkpoint receipt) (hgrows : issued <+: issued') :
    Endorses issued' checkpoint receipt := by
  obtain ⟨observed, hmem, hsame⟩ := h
  exact ⟨observed, hgrows.subset hmem, hsame⟩

/-- What is endorsed at the size of the last tree is the last receipt. -/
theorem Endorses.last (h : Endorses issued checkpoint receipt)
    (hsizes : issued.Pairwise fun earlier later =>
      earlier.checkpoint.core.treeSize < later.checkpoint.core.treeSize)
    (hlast : ∀ last ∈ issued.getLast?,
      last.checkpoint.core.treeSize ≤ checkpoint.core.treeSize) :
    ∃ last ∈ issued.getLast?, last.receipt = receipt ∧
      last.checkpoint.checkpointDigest = checkpoint.checkpointDigest := by
  obtain ⟨observed, hmem, hreceipt, hdigest, hsize, -⟩ := h
  obtain rfl | ⟨before, last, rfl⟩ := List.eq_nil_or_concat' issued
  · exact absurd hmem List.not_mem_nil
  have hle := hlast last List.getLast?_concat
  obtain hold | hnew := List.mem_append.mp hmem
  · have hlt := (List.pairwise_append.mp hsizes).2.2 observed hold last (List.mem_singleton_self _)
    omega
  · obtain rfl := List.mem_singleton.mp hnew
    exact ⟨observed, List.getLast?_concat, hreceipt, hdigest⟩

theorem GrowsTo.trans {a b c : ObservedAuditCheckpoint D} (h : GrowsTo leaves a b)
    (h' : GrowsTo leaves b c) : GrowsTo leaves a c :=
  ⟨h.1.trans h'.1, h.2.trans h'.2⟩

/-- Consistency with the last tree is consistency with all trees before. -/
theorem Issued.pairwise (h : Issued config accepts issued)
    (hsound : ∀ previous next, accepts previous next →
      leavesOf leaves previous <+: leavesOf leaves next) : issued.Pairwise (GrowsTo leaves) := by
  have : Trans (GrowsTo (D := D) leaves) (GrowsTo leaves) (GrowsTo leaves) := ⟨GrowsTo.trans⟩
  refine (h.linked.imp ?_).pairwise
  intro earlier later hsucceeds
  exact ⟨hsucceeds.size, hsound _ _ hsucceeds.accepted⟩

end Receipts

/-- The publications inside, and the receipts issued, by key. -/
structure ObserverGhost (D ι : Type) where
  queue : JsString → List ι
  issued : JsString → List (ObservedAuditCheckpoint D)

def ObserverGhost.issue (ghost : ObserverGhost D ι) (key : JsString)
    (observed : ObservedAuditCheckpoint D) : ObserverGhost D ι :=
  { ghost with issued := Function.update ghost.issued key (ghost.issued key ++ [observed]) }

@[simp] theorem ObserverGhost.issued_issue (ghost : ObserverGhost D ι) (key : JsString)
    (observed : ObservedAuditCheckpoint D) : (ghost.issue key observed).issued =
      Function.update ghost.issued key (ghost.issued key ++ [observed]) := rfl

section Protocol

variable (config : MemoryAuditCheckpointObserverConfig D)
  (accepts : SignedAuditCheckpoint D → SignedAuditCheckpoint D → Prop)
  (calls : ι → SignedAuditCheckpoint D)

structure Observing (world : ObserverWorld D ι) (ghost : ObserverGhost D ι) : Prop where
  lined : world.publications.Lined ghost.queue
  keyed : ∀ key, ∀ c ∈ ghost.queue key, publicationKey (calls c) = key
  observed : ∀ key, world.observations key = (ghost.issued key).getLast?
  issued : ∀ key, Issued config accepts (ghost.issued key)

/-- What the others do to publication `c`: they leave the receipts of its key alone while it
is the head there. -/
structure LeftAlone (c : ι) (w w' : ObserverWorld D ι × ObserverGhost D ι) : Prop where
  advances : ∀ key, Tails.Advances c (w.2.queue key) (w'.2.queue key)
  outside : ∀ key, c ∉ w.2.queue key → c ∉ w'.2.queue key
  released : w'.1.publications.released c = w.1.publications.released c
  kept : ∀ key after, w.2.queue key = c :: after → w'.2.issued key = w.2.issued key
  grows : ∀ key, w.2.issued key <+: w'.2.issued key

def observerProtocol : Protocol (observerSetting D ι) ι (ObserverGhost D ι) where
  inv w := Observing config accepts calls w.1 w.2
  rely := LeftAlone
  fresh c w := (∀ key, c ∉ w.2.queue key) ∧ w.1.publications.released c = false
  serves _ := serveObserver config accepts

/-- The call is the head of its key, with these receipts issued so far. -/
structure HoldsAt (key : JsString) (c : ι) (issued : List (ObservedAuditCheckpoint D))
    (w : ObserverWorld D ι × ObserverGhost D ι) : Prop where
  head : ∃ after, w.2.queue key = c :: after
  issued : w.2.issued key = issued

/-- The call is the head of its key; what it returns is endorsed. -/
structure Serialized (c : ι) (checkpoint : SignedAuditCheckpoint D)
    (result : Except AuditError (AuditObservationReceipt D))
    (w : ObserverWorld D ι × ObserverGhost D ι) : Prop where
  head : ∃ after, w.2.queue (publicationKey checkpoint) = c :: after
  endorses : ∀ receipt, result = .ok receipt →
    Endorses (w.2.issued (publicationKey checkpoint)) checkpoint receipt

variable {config accepts calls} {c : ι} {w w' w'' : ObserverWorld D ι × ObserverGhost D ι}
  {key : JsString} {issued : List (ObservedAuditCheckpoint D)}
  {checkpoint : SignedAuditCheckpoint D}

theorem LeftAlone.refl : LeftAlone c w w where
  advances _ := .refl
  outside _ h := h
  released := rfl
  kept _ _ _ := rfl
  grows _ := List.prefix_rfl

theorem LeftAlone.trans (h : LeftAlone c w w') (h' : LeftAlone c w' w'') : LeftAlone c w w'' where
  advances key := (h.advances key).trans (h'.advances key)
  outside key hout := h'.outside key (h.outside key hout)
  released := h'.released.trans h.released
  kept key after hhead := by
    obtain ⟨after', hhead'⟩ := (h.advances key).head hhead
    exact (h'.kept key after' hhead').trans (h.kept key after hhead)
  grows key := (h.grows key).trans (h'.grows key)

theorem guarantee_trans (h : (observerProtocol config accepts calls).guarantee c w w')
    (h' : (observerProtocol config accepts calls).guarantee c w' w'') :
    (observerProtocol config accepts calls).guarantee c w w'' :=
  fun other hother => (h other hother).trans (h' other hother)

theorem guarantee_refl : (observerProtocol config accepts calls).guarantee c w w :=
  fun _ _ => .refl

theorem stable_holdsAt :
    (observerProtocol config accepts calls).Stable c (HoldsAt key c issued) := by
  rintro w w' ⟨⟨after, hhead⟩, hissued⟩ - - hrely
  exact ⟨(hrely.advances key).head hhead, (hrely.kept key after hhead).trans hissued⟩

/-- A request that leaves the world as it is. -/
theorem contract_observerReply {request : ObserverRequest D ι}
    {pre : ObserverWorld D ι × ObserverGhost D ι → Prop}
    (hstable : (observerProtocol config accepts calls).Stable c pre)
    (fits : Except AuditError request.Answer → Prop)
    (hserve : ∀ world answer world', serveObserver config accepts request world answer world' →
      fits answer ∧ world' = world) :
    (observerProtocol config accepts calls).Contract c pre (observerReply request)
      fun answer w => fits answer ∧ pre w := by
  refine .ask ?_ fun _ => guarantee_refl
  rintro w asked hinv hpre hasked hrely answer world' hserves
  obtain ⟨hfits, rfl⟩ := hserve _ answer world' hserves
  refine ⟨asked.2, hasked, guarantee_refl, ?_⟩
  intro resumed hresumed hrely'
  have hthrough := hstable _ _ hpre hinv hasked hrely
  exact ⟨hfits, hstable _ _ hthrough hasked hresumed hrely'⟩

theorem serialized_error {e : AuditError} (h : HoldsAt (publicationKey checkpoint) c issued w) :
    Serialized c checkpoint (.error e) w :=
  ⟨h.head, nofun⟩

/-- The publication before this one has settled: this one is the head. -/
theorem contract_previous {key : JsString} {previous : Option ι} :
    (observerProtocol config accepts calls).Contract c
      (fun w => Tails.Behind (w.2.queue key) previous c) (observerReply (.previous previous))
      fun answer w => answer = .ok () ∧ ∃ issued, HoldsAt key c issued w := by
  refine .ask ?_ fun _ => guarantee_refl
  rintro w asked - hbehind hasked hrely answer world' ⟨rfl, hpass, rfl⟩
  refine ⟨asked.2, hasked, guarantee_refl, ?_⟩
  intro resumed _ hrely'
  obtain ⟨after, hhead⟩ := hasked.lined.head (hbehind.advances (hrely.advances _)) hpass
  exact ⟨rfl, _, (hrely'.advances _).head hhead, rfl⟩

/-- The head of a key issues a receipt there. -/
theorem Observing.observe (h : Observing config accepts calls w.1 w.2)
    (hholds : HoldsAt (publicationKey checkpoint) c issued w)
    {receipt : AuditObservationReceipt D} {now : D}
    (hcore : receipt.core = observationCore config checkpoint issued.getLast? now)
    (hextends : ∀ last ∈ issued.getLast?,
      last.checkpoint.core.treeSize < checkpoint.core.treeSize ∧
        accepts last.checkpoint checkpoint) :
    ∃ g, Observing config accepts calls
        (w.1.observe (publicationKey checkpoint) ⟨checkpoint, receipt⟩) g ∧
      (observerProtocol config accepts calls).guarantee c w
        (w.1.observe (publicationKey checkpoint) ⟨checkpoint, receipt⟩, g) ∧
      Serialized c checkpoint (.ok receipt)
        (w.1.observe (publicationKey checkpoint) ⟨checkpoint, receipt⟩, g) := by
  obtain ⟨⟨after, hhead⟩, rfl⟩ := hholds
  refine ⟨w.2.issue (publicationKey checkpoint) ⟨checkpoint, receipt⟩,
    ⟨h.lined, h.keyed, ?_, ?_⟩, ?_, ⟨after, hhead⟩, ?_⟩
  · intro key
    rw [ObserverWorld.observations_observe, ObserverGhost.issued_issue]
    by_cases hkey : key = publicationKey checkpoint
    · rw [hkey, Function.update_self, Function.update_self, List.getLast?_concat]
    · rw [Function.update_of_ne hkey, Function.update_of_ne hkey]
      exact h.observed key
  · intro key
    rw [ObserverGhost.issued_issue]
    by_cases hkey : key = publicationKey checkpoint
    · rw [hkey, Function.update_self]
      exact (h.issued _).concat hcore hextends
    · rw [Function.update_of_ne hkey]
      exact h.issued key
  · intro other hother
    refine ⟨fun _ => .refl, fun _ hout => hout, rfl, ?_, ?_⟩
    · intro key rest hrest
      refine Function.update_of_ne ?_ _ _
      rintro rfl
      exact hother (List.cons.inj (hrest.symm.trans hhead)).1
    · intro key
      rw [ObserverGhost.issued_issue]
      by_cases hkey : key = publicationKey checkpoint
      · rw [hkey, Function.update_self]
        exact List.prefix_append _ _
      · rw [Function.update_of_ne hkey]
  · intro returned hreturned
    obtain rfl := Except.ok.inj hreturned
    refine ⟨⟨checkpoint, receipt⟩, ?_, rfl, rfl, rfl, rfl⟩
    rw [ObserverGhost.issued_issue, Function.update_self]
    exact List.mem_concat_self

theorem contract_issueReceipt (hextends : ∀ last ∈ issued.getLast?,
      last.checkpoint.core.treeSize < checkpoint.core.treeSize ∧
        accepts last.checkpoint checkpoint) :
    (observerProtocol config accepts calls).Contract c
      (HoldsAt (publicationKey checkpoint) c issued)
      (issueReceipt config checkpoint issued.getLast?) (Serialized c checkpoint) := by
  refine .state fun world => ?_
  refine .bind ((contract_observerReply stable_holdsAt (fun _ => True) ?_).mono_pre
    fun _ _ h => h.2) ?_ ?_
  · rintro _ answer _ ⟨-, rfl⟩
    exact ⟨trivial, rfl⟩
  · intro digest
    refine .check ?_ ?_
    · intro text _
      refine .bind ((contract_observerReply stable_holdsAt (fun _ => True) ?_).mono_pre
        fun _ _ h => h.2) ?_ ?_
      · rintro _ answer _ rfl
        exact ⟨trivial, rfl⟩
      · intro jws
        refine .update (fun _ _ _ => guarantee_trans) ?_ (.pure fun _ _ h => h)
        rintro w hinv ⟨-, hholds⟩
        exact Observing.observe hinv hholds rfl hextends
      · rintro e w - ⟨-, hholds⟩
        exact serialized_error hholds
    · rintro e w - - ⟨-, hholds⟩
      exact serialized_error hholds
  · rintro e w - ⟨-, hholds⟩
    exact serialized_error hholds

theorem contract_publishVerified :
    (observerProtocol config accepts calls).Contract c
      (HoldsAt (publicationKey checkpoint) c issued)
      (publishVerified config checkpoint issued.getLast?) (Serialized c checkpoint) := by
  cases hlast : issued.getLast? with
  | none =>
      rw [publishVerified, ← hlast]
      refine contract_issueReceipt ?_
      rw [hlast]
      exact nofun
  | some existing =>
      rw [publishVerified]
      split_ifs with hbackwards hsame hconflict
      · exact .throw fun _ _ hholds => serialized_error hholds
      · exact .throw fun _ _ hholds => serialized_error hholds
      · rw [not_or, not_not, not_not] at hconflict
        refine .pure ?_
        rintro w - ⟨hhead, hissued⟩
        refine ⟨hhead, ?_⟩
        intro receipt hreceipt
        obtain rfl := Except.ok.inj hreceipt
        refine ⟨existing, ?_, rfl, hconflict.2.symm, hsame.symm, hconflict.1.symm⟩
        rw [hissued]
        exact List.mem_of_getLast? hlast
      · refine .bind (contract_observerReply stable_holdsAt (fun answer => answer = .ok true →
          accepts existing.checkpoint checkpoint) ?_) ?_ ?_
        · rintro _ answer _ ⟨haccepts, rfl⟩
          exact ⟨haccepts, rfl⟩
        · intro consistent
          cases consistent with
          | false => exact .throw fun _ _ h => serialized_error h.2
          | true =>
              refine .of_pre (fun _ _ h => h.1 rfl) fun haccepts => ?_
              rw [if_pos rfl, ← hlast]
              refine (contract_issueReceipt ?_).mono_pre fun _ _ h => h.2
              rw [hlast]
              rintro last ⟨⟩
              exact ⟨by omega, haccepts⟩
        · rintro e w - ⟨-, hholds⟩
          exact serialized_error hholds

theorem contract_publishSerialized :
    (observerProtocol config accepts calls).Contract c
      (HoldsAt (publicationKey checkpoint) c issued) (publishSerialized config checkpoint)
      (Serialized c checkpoint) := by
  refine .bind (contract_observerReply stable_holdsAt (fun _ => True) ?_) ?_ ?_
  · rintro _ answer _ rfl
    exact ⟨trivial, rfl⟩
  · intro verified
    cases verified with
    | false => exact .throw fun _ _ h => serialized_error h.2
    | true =>
        rw [if_pos rfl]
        refine .state fun world => ?_
        refine .of_pre ?_ fun (hexisting : world.observations (publicationKey checkpoint) =
          issued.getLast?) => ?_
        · rintro w hinv ⟨rfl, -, -, hissued⟩
          rw [← hissued]
          exact hinv.observed _
        · rw [hexisting]
          exact contract_publishVerified.mono_pre fun _ _ h => h.2.2
  · rintro e w - ⟨-, hholds⟩
    exact serialized_error hholds

end Protocol

theorem observing_empty {config : MemoryAuditCheckpointObserverConfig D}
    {accepts : SignedAuditCheckpoint D → SignedAuditCheckpoint D → Prop}
    {calls : ι → SignedAuditCheckpoint D} (now : D) :
    Observing config accepts calls (ObserverWorld.empty now : ObserverWorld D ι)
      ⟨fun _ => [], fun _ => []⟩ where
  lined := Tails.lined_empty
  keyed _ _ hc := absurd hc List.not_mem_nil
  observed _ := rfl
  issued _ := issued_nil

section Publications

variable [DecidableEq ι] {config : MemoryAuditCheckpointObserverConfig D}
  {accepts : SignedAuditCheckpoint D → SignedAuditCheckpoint D → Prop}
  {calls : ι → SignedAuditCheckpoint D} {c : ι} {w : ObserverWorld D ι × ObserverGhost D ι}

/-- A publication enters the queue of its key. -/
theorem Observing.enter (h : Observing config accepts calls w.1 w.2)
    (houtside : ∀ key, c ∉ w.2.queue key) (hreleased : w.1.publications.released c = false) :
    ∃ g, Observing config accepts calls
        { w.1 with publications := w.1.publications.enter (publicationKey (calls c)) c } g ∧
      (observerProtocol config accepts calls).guarantee c w
        ({ w.1 with publications := w.1.publications.enter (publicationKey (calls c)) c }, g) ∧
      Tails.Behind (g.queue (publicationKey (calls c)))
        (w.1.publications.tails (publicationKey (calls c))) c := by
  refine ⟨{ w.2 with queue := Tails.entered w.2.queue (publicationKey (calls c)) c },
    ⟨h.lined.enter (houtside _) hreleased, ?_, h.observed, h.issued⟩, ?_, h.lined.behind⟩
  · intro key d hd
    by_cases hdc : d = c
    · by_contra hkey
      have hold : d ∈ w.2.queue key := (Function.update_of_ne (hdc ▸ Ne.symm hkey) _ _).subst hd
      exact houtside key (hdc ▸ hold)
    · exact h.keyed key d (Tails.mem_entered hdc hd)
  · intro other hother
    refine ⟨Tails.advances_entered, ?_, rfl, fun _ _ _ => rfl, fun _ => List.prefix_rfl⟩
    intro key hout hin
    exact hout (Tails.mem_entered hother hin)

/-- A publication leaves the queue of its key. -/
theorem Observing.leave (h : Observing config accepts calls w.1 w.2) {key : JsString}
    {after : List ι} (hhead : w.2.queue key = c :: after) :
    ∃ g, Observing config accepts calls
        { w.1 with publications := w.1.publications.leave key c } g ∧
      (observerProtocol config accepts calls).guarantee c w
        ({ w.1 with publications := w.1.publications.leave key c }, g) ∧
      g.issued = w.2.issued := by
  have hown : ∀ other, c ∈ w.2.queue other → other = key := by
    intro other hother
    have hmem : c ∈ w.2.queue key := hhead ▸ List.mem_cons_self
    exact (h.keyed other c hother).symm.trans (h.keyed key c hmem)
  refine ⟨{ w.2 with queue := Function.update w.2.queue key after },
    ⟨h.lined.leave hhead fun other hne hc => hne (hown other hc), ?_, h.observed, h.issued⟩, ?_,
    rfl⟩
  · intro other d hd
    exact h.keyed other d (Tails.mem_left hhead hd)
  · intro other hother
    refine ⟨Tails.advances_left hother hhead, ?_, ?_, fun _ _ _ => rfl, fun _ => List.prefix_rfl⟩
    · intro key' hout hin
      exact hout (Tails.mem_left hhead hin)
    · exact Function.update_of_ne hother _ _

theorem contract_publish :
    (observerProtocol config accepts calls).Contract c
      ((observerProtocol config accepts calls).fresh c) (publish config (calls c) c)
      fun result w => ∀ receipt, result = .ok receipt →
        Endorses (w.2.issued (publicationKey (calls c))) (calls c) receipt := by
  refine .state fun world => ?_
  refine .update (fun _ _ _ => guarantee_trans) ?_ (.bind_ok contract_previous
    (.finally_ (fun _ _ _ => guarantee_trans)
      (.of_exists fun issued => contract_publishSerialized) ?_))
  · rintro w hinv ⟨rfl, houtside, hreleased⟩
    exact Observing.enter hinv houtside hreleased
  · rintro result w hinv ⟨⟨after, hhead⟩, hendorses⟩
    obtain ⟨g, hinv', hguarantee, hissued⟩ := Observing.leave hinv hhead
    refine ⟨g, hinv', hguarantee, ?_⟩
    intro receipt hreceipt
    rw [hissued]
    exact hendorses receipt hreceipt

theorem discipline_observer :
    Discipline (observerProgram config accepts calls) (observerProtocol config accepts calls)
      fun c _ result w => ∀ receipt, result = .ok receipt →
        Endorses (w.2.issued (publicationKey (calls c))) (calls c) receipt where
  rely_refl _ _ := .refl
  rely_trans _ _ _ _ := .trans
  serves _ _ _ _ _ h := h
  environment w world' hinv henvironment := by
    obtain ⟨now, rfl⟩ := henvironment
    exact ⟨w.2, ⟨hinv.lined, hinv.keyed, hinv.observed, hinv.issued⟩,
      fun _ => ⟨fun _ => .refl, fun _ h => h, rfl, fun _ _ _ => rfl, fun _ => List.prefix_rfl⟩⟩
  fresh_stable c w w' hfresh _ hrely :=
    ⟨fun key => hrely.outside key (hfresh.1 key), hrely.released.trans hfresh.2⟩
  code c born _ hfresh w hinv hrely := by
    refine contract_publish w w.1 w.2 hinv guarantee_refl ?_
    exact ⟨fun key => hrely.outside key (hfresh.1 key), hrely.released.trans hfresh.2⟩
  post_stable c _ result w w' hpost _ hrely := by
    intro receipt hreceipt
    exact (hpost receipt hreceipt).mono (hrely.grows _)

/-- In every run the receipts under a key form one chain of growing trees. Every receipt returned
is of it, and the observer verifies it as long as no larger tree is observed. -/
theorem publish_never_splits (config : MemoryAuditCheckpointObserverConfig D)
    (accepts : SignedAuditCheckpoint D → SignedAuditCheckpoint D → Prop)
    (leaves : Nat → Digest → List Digest)
    (hsound : ∀ previous next, accepts previous next →
      leavesOf leaves previous <+: leavesOf leaves next)
    (calls : ι → SignedAuditCheckpoint D) (now : D)
    (final : Config (observerSetting D ι) ι (AuditObservationReceipt D))
    (hreaches : (observerProgram config accepts calls).Reaches
      (Program.initial (.empty now)) final) :
    ∃ issued : JsString → List (ObservedAuditCheckpoint D),
      (∀ key, final.state.observations key = (issued key).getLast? ∧
        Issued config accepts (issued key) ∧ (issued key).Pairwise (GrowsTo leaves)) ∧
      ∀ c born receipt, final.calls c = some ⟨born, .finished (.ok receipt)⟩ →
        Endorses (issued (publicationKey (calls c))) (calls c) receipt ∧
        ((∀ last ∈ final.state.observations (publicationKey (calls c)),
            last.checkpoint.core.treeSize ≤ (calls c).core.treeSize) →
          final.state.verifyObservation (calls c) receipt = true) := by
  obtain ⟨ghost, hinv, -, hcalls⟩ := hreaches.sound discipline_observer
    (sound_initial (observing_empty now) fun _ => ⟨fun _ => List.not_mem_nil, rfl⟩)
  have hgrows := fun key => (hinv.issued key).pairwise hsound
  refine ⟨ghost.issued, fun key => ⟨hinv.observed key, hinv.issued key, hgrows key⟩, ?_⟩
  intro c born receipt hfinished
  have hendorses := hcalls c _ hfinished receipt rfl
  refine ⟨hendorses, ?_⟩
  intro hlargest
  rw [hinv.observed] at hlargest
  obtain ⟨last, hlast, hreceipt, hdigest⟩ :=
    hendorses.last ((hgrows _).imp fun hgrow => hgrow.1) hlargest
  have hlatest : final.state.latest (calls c).core.toAuditLedgerRef = some last :=
    (hinv.observed _).trans hlast
  simp [ObserverWorld.verifyObservation, hlatest, hreceipt, hdigest]

end Publications

section Sample

open Async.Leads

def sampleObserver : MemoryAuditCheckpointObserverConfig SampleDouble where
  observerId := js "observer"
  signer := { did := js "did:web:observer", kid := js "key", alg := .EdDSA }
  numbers := sampleDoubles
  sha256 := sampleSha256

/-- Of as many equal leaves as its size says. -/
def sampleCheckpoint (size : Nat) (rootDigest : Digest) : SignedAuditCheckpoint SampleDouble where
  core :=
    { schema := js "checkpoint"
      checkpointId := rootDigest
      ledgerId := js "ledger"
      ledgerEpochId := js "epoch"
      treeSize := size
      firstSequence := 0
      lastSequence := size - 1
      rootDigest
      headEntryDigest := js "head"
      previousCheckpointDigest := none
      createdAt := .zero
      issuer := sampleObserver.signer
      integritySuite := js "suite" }
  checkpointDigest := rootDigest
  jws := js "jws"

def sampleLeaves (size : Nat) (_ : Digest) : List Digest := .replicate size (js "leaf")

/-- A check that accepts what extends. -/
def sampleAccepts (previous next : SignedAuditCheckpoint SampleDouble) : Prop :=
  leavesOf sampleLeaves previous <+: leavesOf sampleLeaves next

/-- The larger tree comes second. -/
def samplePublications (second : Bool) : SignedAuditCheckpoint SampleDouble :=
  if second then sampleCheckpoint 2 (js "two") else sampleCheckpoint 1 (js "one")

def sampleReceipt (existing : Option (ObservedAuditCheckpoint SampleDouble)) (second : Bool) :
    AuditObservationReceipt SampleDouble :=
  let core := observationCore sampleObserver (samplePublications second) existing .zero
  { core
    observationDigest := sampleDigest .observation core.toJson
    jws := js "jws" }

def sampleObserved (existing : Option (ObservedAuditCheckpoint SampleDouble)) (second : Bool) :
    ObservedAuditCheckpoint SampleDouble :=
  ⟨samplePublications second, sampleReceipt existing second⟩

abbrev sampleObserving :=
  observerProgram sampleObserver sampleAccepts samplePublications

abbrev sampleObserverStart : Config (observerSetting SampleDouble Bool) Bool
    (AuditObservationReceipt SampleDouble) :=
  Program.initial (.empty .zero)

variable (world : ObserverWorld SampleDouble Bool)

theorem issueReceipt_leads (existing : Option (ObservedAuditCheckpoint SampleDouble))
    (second : Bool) (hclock : world.clock = .zero)
    (hsupported : JsonValue.Supported sampleDoubles (sampleReceipt existing second).core.toJson) :
    (issueReceipt sampleObserver (samplePublications second) existing).Leads
      (serveObserver sampleObserver sampleAccepts) world
      (world.observe (publicationKey (samplePublications second)) (sampleObserved existing second))
      (.finished (.ok (sampleReceipt existing second))) := by
  have hwellFormed := wellFormed_observationCore (sampleReceipt existing second).core
  obtain ⟨text, htext⟩ := (canonicalizeJson_eq_ok sampleDoubles_prints hwellFormed).mpr hsupported
  refine state ?_
  rw [hclock]
  have hhash : serveObserver sampleObserver sampleAccepts
      (.hash (sampleReceipt existing second).core) world
      (.ok (sampleReceipt existing second).observationDigest) world := by
    refine ⟨?_, rfl⟩
    rintro digest ⟨⟩
    exact sampleDigest_eq hwellFormed hsupported
  refine ask_bind hhash (check (congrArg (Except.mapError AuditError.other) htext) ?_)
  have hsign : serveObserver sampleObserver sampleAccepts (.sign (encodeUtf8 text)) world
      (.ok (js "jws")) world := rfl
  exact ask_bind hsign (update .done)

/-- A publication that finds nobody inside. -/
theorem publish_leads (second : Bool) {receipt : AuditObservationReceipt SampleDouble}
    {world' : ObserverWorld SampleDouble Bool}
    (hidle : world.publications.tails (publicationKey (samplePublications second)) = none)
    (hverified : (publishVerified sampleObserver (samplePublications second)
        (world.observations (publicationKey (samplePublications second)))).Leads
      (serveObserver sampleObserver sampleAccepts)
      { world with publications :=
        world.publications.enter (publicationKey (samplePublications second)) second }
      world' (.finished (.ok receipt))) :
    (publish sampleObserver (samplePublications second) second).Leads
      (serveObserver sampleObserver sampleAccepts) world
      { world' with publications :=
        world'.publications.leave (publicationKey (samplePublications second)) second }
      (.finished (.ok receipt)) := by
  refine state (update ?_)
  rw [hidle]
  have hprevious : serveObserver sampleObserver sampleAccepts (.previous none)
      { world with publications :=
        world.publications.enter (publicationKey (samplePublications second)) second } (.ok ())
      { world with publications :=
        world.publications.enter (publicationKey (samplePublications second)) second } :=
    ⟨rfl, nofun, rfl⟩
  have hverify : serveObserver sampleObserver sampleAccepts
      (.verifyCheckpoint (samplePublications second))
      { world with publications :=
        world.publications.enter (publicationKey (samplePublications second)) second } (.ok true)
      { world with publications :=
        world.publications.enter (publicationKey (samplePublications second)) second } := rfl
  exact ask_bind hprevious (.finally_ (ask_bind hverify (state hverified)))

theorem supported_sampleReceipt {existing : Option (ObservedAuditCheckpoint SampleDouble)}
    {second : Bool} (hdigest : JsonValue.Supported sampleDoubles
      (digestOrNull (existing.map (·.receipt.observationDigest)))) :
    JsonValue.Supported sampleDoubles (sampleReceipt existing second).core.toJson := by
  have hfirst : JsonValue.Supported sampleDoubles (sampleReceipt none second).core.toJson :=
    (canonical_of_isCanonical _ (by cases second <;> decide +kernel)).2
  cases hfirst with
  | object hnames hmembers =>
      simp only [List.forall_mem_cons] at hmembers
      obtain ⟨h₁, h₂, h₃, h₄, h₅, h₆, h₇, h₈, -, hnil⟩ := hmembers
      refine .object (by simpa only [List.forall_mem_cons] using hnames) ?_
      simp only [List.forall_mem_cons]
      exact ⟨h₁, h₂, h₃, h₄, h₅, h₆, h₇, h₈, hdigest, hnil⟩

/-- The second tree is issued a receipt that links to the first one's. -/
theorem publishVerified_leads (hclock : world.clock = .zero) :
    (publishVerified sampleObserver (samplePublications true)
        (some (sampleObserved none false))).Leads (serveObserver sampleObserver sampleAccepts) world
      (world.observe (publicationKey (samplePublications true))
        (sampleObserved (some (sampleObserved none false)) true))
      (.finished (.ok (sampleReceipt (some (sampleObserved none false)) true))) := by
  have hconsistent : serveObserver sampleObserver sampleAccepts
      (.verifyConsistency (samplePublications false) (samplePublications true)) world (.ok true)
      world :=
    ⟨fun _ => ⟨[js "leaf"], rfl⟩, rfl⟩
  exact ask_bind hconsistent (issueReceipt_leads _ _ true hclock
    (supported_sampleReceipt (.string (hasLoneSurrogate_sampleDigest _ _))))

theorem publish_never_splits_sample :
    ∃ final born, sampleObserving.Reaches sampleObserverStart final ∧
      final.calls true = some ⟨born,
        .finished (.ok (sampleReceipt (some (sampleObserved none false)) true))⟩ ∧
      final.state.verifyObservation (samplePublications true)
        (sampleReceipt (some (sampleObserved none false)) true) = true := by
  have hfirst : (sampleObserving.code false).Leads (sampleObserving.serves false)
      sampleObserverStart.state _ _ :=
    publish_leads sampleObserverStart.state false rfl
      (issueReceipt_leads _ none false rfl (supported_sampleReceipt .null))
  obtain ⟨first, hreaches, hmoved⟩ := hfirst.reaches_called rfl
  have hidle :
      first.state.publications.tails (publicationKey (samplePublications true)) = none := by
    rw [hmoved.state]
    rfl
  have hsecond : (sampleObserving.code true).Leads (sampleObserving.serves true) first.state _ _ :=
    publish_leads first.state true hidle (by rw [hmoved.state]; exact publishVerified_leads _ rfl)
  obtain ⟨final, hreaches', hmoved'⟩ :=
    hsecond.reaches_called (hmoved.others true Bool.true_eq_false.mp)
  have hfinal := hreaches.trans hreaches'
  obtain ⟨issued, -, hreturned⟩ := publish_never_splits sampleObserver sampleAccepts sampleLeaves
    (fun _ _ haccepts => haccepts) samplePublications .zero final hfinal
  refine ⟨final, _, hfinal, hmoved'.moved, (hreturned true _ _ hmoved'.moved).2 ?_⟩
  rw [hmoved'.state]
  rintro last ⟨⟩
  exact le_rfl

end Sample

end KyaOs.Audit
