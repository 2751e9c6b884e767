import Mathlib.Data.List.Infix
import Mathlib.Data.List.Nodup
import Mathlib.Data.List.Pairwise
import Mathlib.Logic.Function.Basic
import KyaOs.Audit.Providers

/-!
# The watermarks of a source

`MemoryAuditSourceState`: per source the sequences claimed for event ids, which of them no
receipt has come for, and the digest that the next claim links to. `Follows` relates a state to
the events emitted for the source; every operation keeps it.
-/

namespace KyaOs.Audit

open Js

/-- What a claim answers. -/
structure SourceEventClaim where
  sequence : Nat
  previousSourceEventDigest : Option Digest
  deriving DecidableEq

structure SourceClaim extends SourceEventClaim where
  eventDigest : Option Digest
  deriving DecidableEq

/-- The maps and the set are in the order of insertion where that is read. -/
structure MutableSourceState where
  next : Nat
  pending : List (Nat × JsString)
  claims : JsString → Option SourceClaim
  retained : List JsString
  latestDigest : Option Digest

structure AuditSourceState where
  sourceId : JsString
  highestEmitted : Nat
  highestReceipted : Nat
  pendingSequences : List Nat

/-- `pending.set`. -/
def setPending (sequence : Nat) (eventId : JsString) : List (Nat × JsString) →
    List (Nat × JsString)
  | [] => [(sequence, eventId)]
  | entry :: rest =>
    if entry.1 = sequence then (sequence, eventId) :: rest
    else entry :: setPending sequence eventId rest

/-- The loop of `markReceipted`. -/
def evict (redeliveryWindow : Nat) : List JsString → (JsString → Option SourceClaim) →
    List JsString × (JsString → Option SourceClaim)
  | [], claims => ([], claims)
  | oldest :: rest, claims =>
    if (oldest :: rest).length ≤ redeliveryWindow then (oldest :: rest, claims)
    else evict redeliveryWindow rest (Function.update claims oldest none)

namespace MutableSourceState

variable (state : MutableSourceState)

def empty : MutableSourceState where
  next := 0
  pending := []
  claims _ := none
  retained := []
  latestDigest := none

def claimEvent (eventId : JsString) : SourceEventClaim × MutableSourceState :=
  match state.claims eventId with
  | some existing =>
    (existing.toSourceEventClaim,
      if eventId ∈ state.retained then
        { state with retained := state.retained.erase eventId ++ [eventId] }
      else state)
  | none =>
    let claim : SourceClaim :=
      { sequence := state.next + 1
        previousSourceEventDigest := state.latestDigest
        eventDigest := none }
    (claim.toSourceEventClaim,
      { state with
        next := state.next + 1
        latestDigest := none
        claims := Function.update state.claims eventId (some claim)
        pending := setPending claim.sequence eventId state.pending })

def abandonClaim (eventId : JsString) (sequence : Nat) : MutableSourceState :=
  match state.claims eventId with
  | none => state
  | some claim =>
    if claim.sequence ≠ sequence ∨ claim.eventDigest ≠ none ∨ claim.sequence ≠ state.next then state
    else
      { state with
        claims := Function.update state.claims eventId none
        pending := state.pending.filter (·.1 ≠ claim.sequence)
        next := state.next - 1
        latestDigest := claim.previousSourceEventDigest }

def markEmitted (eventId : JsString) (sequence : Nat) (eventDigest : Digest) :
    Except AuditError Unit × MutableSourceState :=
  match state.claims eventId with
  | none => (.error (.other (.rangeError (js "Unknown source event claim"))), state)
  | some claim =>
    if claim.sequence ≠ sequence then
      (.error (.other (.rangeError (js "Unknown source event claim"))), state)
    else if claim.eventDigest ≠ none ∧ claim.eventDigest ≠ some eventDigest then
      (.error (.protocol .EVENT_ID_CONFLICT (js "Source event identity collision: " ++ eventId)),
        state)
    else
      (.ok (),
        { state with
          claims := Function.update state.claims eventId
            (some { claim with eventDigest := some eventDigest })
          latestDigest := if sequence = state.next then some eventDigest else state.latestDigest })

def markReceipted (redeliveryWindow sequence : Nat) :
    Except AuditError Unit × MutableSourceState :=
  if sequence < 1 ∨ state.next < sequence then
    (.error (.other (.rangeError (js "Unknown source sequence"))), state)
  else
    match state.pending.lookup sequence with
    | none => (.ok (), state)
    | some eventId =>
      let retained := if eventId ∈ state.retained then state.retained
        else state.retained ++ [eventId]
      let evicted := evict redeliveryWindow retained state.claims
      (.ok (),
        { state with
          pending := state.pending.filter (·.1 ≠ sequence)
          retained := evicted.1
          claims := evicted.2 })

def getState (sourceId : JsString) : AuditSourceState where
  sourceId
  highestEmitted := state.next
  highestReceipted :=
    match state.pending with
    | [] => state.next
    | first :: _ => first.1 - 1
  pendingSequences := state.pending.map Prod.fst

end MutableSourceState

/-- The digest of the event before the one at this place. -/
def linkAt (emitted : List (JsString × Digest)) (place : Nat) : Option Digest :=
  (emitted.take place).getLast?.map Prod.snd

/-- The claims, pending sequences and retained event ids after these events were emitted, the
first with sequence 1; `claiming` is an event id whose sequence comes next and that is not
emitted yet. -/
structure Claimed (emitted : List (JsString × Digest)) (claiming : Option JsString)
    (claims : JsString → Option SourceClaim) (pending : List (Nat × JsString))
    (retained : List JsString) : Prop where
  ofClaim : ∀ eventId claim, claims eventId = some claim →
    claiming = some eventId ∨ ∃ place eventDigest, emitted[place]? = some (eventId, eventDigest) ∧
      claim = ⟨⟨place + 1, linkAt emitted place⟩, some eventDigest⟩
  next : ∀ eventId ∈ claiming, claims eventId =
      some ⟨⟨emitted.length + 1, linkAt emitted emitted.length⟩, none⟩ ∧
    (emitted.length + 1, eventId) ∈ pending
  ascending : (pending.map Prod.fst).Pairwise (· < ·)
  ofPending : ∀ entry ∈ pending, ∃ claim, claims entry.2 = some claim ∧ claim.sequence = entry.1
  ofRetained : ∀ eventId ∈ retained, (∃ claim, claims eventId = some claim) ∧
    ∀ entry ∈ pending, entry.2 ≠ eventId
  nodup : retained.Nodup

structure MutableSourceState.Follows (state : MutableSourceState)
    (emitted : List (JsString × Digest)) (claiming : Option JsString) : Prop where
  next : state.next = emitted.length + claiming.toList.length
  latest : claiming = none → state.latestDigest = linkAt emitted emitted.length
  maps : Claimed emitted claiming state.claims state.pending state.retained

theorem linkAt_append {emitted : List (JsString × Digest)} {place : Nat}
    (h : place ≤ emitted.length) (more : List (JsString × Digest)) :
    linkAt (emitted ++ more) place = linkAt emitted place := by
  rw [linkAt, linkAt, List.take_append_of_le_length h]

theorem linkAt_succ {emitted : List (JsString × Digest)} {place : Nat}
    {event : JsString × Digest} (h : emitted[place]? = some event) :
    linkAt emitted (place + 1) = some event.2 := by
  rw [linkAt, List.take_add_one, h, Option.toList_some, List.getLast?_concat, Option.map_some]

theorem lt_of_emitted {emitted : List (JsString × Digest)} {place : Nat}
    {event : JsString × Digest} (h : emitted[place]? = some event) : place < emitted.length :=
  (List.getElem?_eq_some_iff.mp h).1

section Maps

/-- The oldest go. -/
theorem evict_eq (redeliveryWindow : Nat) (retained : List JsString)
    (claims : JsString → Option SourceClaim) : ∃ gone kept, retained = gone ++ kept ∧
      (evict redeliveryWindow retained claims).1 = kept ∧
      ∀ eventId, (evict redeliveryWindow retained claims).2 eventId =
        if eventId ∈ gone then none else claims eventId := by
  induction retained generalizing claims with
  | nil => exact ⟨[], [], rfl, rfl, fun _ => rfl⟩
  | cons oldest rest ih =>
      rw [evict]
      split_ifs with hfits
      · exact ⟨[], oldest :: rest, rfl, rfl, fun _ => rfl⟩
      · obtain ⟨gone, kept, rfl, hkept, hclaims⟩ := ih (Function.update claims oldest none)
        refine ⟨oldest :: gone, kept, rfl, hkept, ?_⟩
        intro eventId
        rw [hclaims]
        by_cases hgone : eventId ∈ gone
        · rw [if_pos hgone, if_pos (List.mem_cons_of_mem oldest hgone)]
        · by_cases holdest : eventId = oldest
          · rw [if_neg hgone, if_pos (holdest ▸ List.mem_cons_self), holdest, Function.update_self]
          · rw [if_neg hgone, Function.update_of_ne holdest,
              if_neg (by simp only [List.mem_cons, not_or]; exact ⟨holdest, hgone⟩)]

/-- A sequence above those pending comes last. -/
theorem setPending_of_lt {sequence : Nat} {eventId : JsString} {pending : List (Nat × JsString)}
    (h : ∀ entry ∈ pending, entry.1 < sequence) :
    setPending sequence eventId pending = pending ++ [(sequence, eventId)] := by
  induction pending with
  | nil => rfl
  | cons entry rest ih =>
      obtain ⟨hentry, hrest⟩ := List.forall_mem_cons.mp h
      rw [setPending, if_neg (by omega), ih hrest, List.cons_append]

theorem mem_of_lookup_pending {sequence : Nat} {eventId : JsString}
    {pending : List (Nat × JsString)} (h : pending.lookup sequence = some eventId) :
    (sequence, eventId) ∈ pending := by
  obtain ⟨before, after, hpending, -⟩ := List.lookup_eq_some_iff.mp h
  rw [hpending]
  exact List.mem_append_right before List.mem_cons_self

end Maps

namespace Claimed

variable {emitted : List (JsString × Digest)} {claiming : Option JsString}
  {claims : JsString → Option SourceClaim} {pending : List (Nat × JsString)}
  {retained : List JsString} {eventId : JsString} {sequence place : Nat} {eventDigest : Digest}

theorem nil : Claimed [] none (fun _ => none) [] [] :=
  ⟨nofun, nofun, .nil, nofun, nofun, .nil⟩

/-- A claim that is not new is of an event emitted. -/
theorem claimed_none (h : Claimed emitted none claims pending retained) {claim : SourceClaim}
    (hclaim : claims eventId = some claim) : ∃ place eventDigest,
      emitted[place]? = some (eventId, eventDigest) ∧
      claim = ⟨⟨place + 1, linkAt emitted place⟩, some eventDigest⟩ :=
  (h.ofClaim _ _ hclaim).resolve_left nofun

/-- Every sequence pending was claimed. -/
theorem le_of_pending (h : Claimed emitted claiming claims pending retained)
    {entry : Nat × JsString} (hentry : entry ∈ pending) :
    1 ≤ entry.1 ∧ entry.1 ≤ emitted.length + claiming.toList.length := by
  obtain ⟨claim, hclaim, hsequence⟩ := h.ofPending entry hentry
  rw [← hsequence]
  obtain rfl | ⟨place, eventDigest, hplace, rfl⟩ := h.ofClaim _ _ hclaim
  · rw [(h.next _ rfl).1] at hclaim
    obtain rfl := Option.some.inj hclaim
    exact ⟨Nat.succ_pos _, le_rfl⟩
  · have := lt_of_emitted hplace
    exact ⟨Nat.succ_pos _, by simp only; omega⟩

/-- An event id that has no claim takes the next sequence. -/
theorem claim (h : Claimed emitted none claims pending retained)
    (hnone : claims eventId = none) : Claimed emitted (some eventId)
      (Function.update claims eventId
        (some ⟨⟨emitted.length + 1, linkAt emitted emitted.length⟩, none⟩))
      (setPending (emitted.length + 1) eventId pending) retained := by
  have hbelow : ∀ entry ∈ pending, entry.1 < emitted.length + 1 := fun entry hentry =>
    Nat.lt_succ_of_le (h.le_of_pending hentry).2
  rw [setPending_of_lt hbelow]
  have hother : ∀ entry ∈ pending, entry.2 ≠ eventId := by
    rintro entry hentry rfl
    obtain ⟨claim, hclaim, -⟩ := h.ofPending entry hentry
    rw [hnone] at hclaim
    cases hclaim
  refine ⟨?_, ?_, ?_, ?_, ?_, h.nodup⟩
  · intro other claim hclaim
    by_cases hsame : other = eventId
    · exact .inl (hsame ▸ rfl)
    · rw [Function.update_of_ne hsame] at hclaim
      exact .inr (h.claimed_none hclaim)
  · rintro other ⟨⟩
    exact ⟨Function.update_self .., List.mem_concat_self⟩
  · rw [List.map_append, List.pairwise_append]
    refine ⟨h.ascending, List.pairwise_singleton _ _, ?_⟩
    intro sequence hsequence last hlast
    obtain ⟨entry, hentry, rfl⟩ := List.mem_map.mp hsequence
    obtain rfl := List.mem_singleton.mp hlast
    exact hbelow entry hentry
  · intro entry hentry
    obtain hold | hnew := List.mem_append.mp hentry
    · rw [Function.update_of_ne (hother entry hold)]
      exact h.ofPending entry hold
    · obtain rfl := List.mem_singleton.mp hnew
      exact ⟨_, Function.update_self .., rfl⟩
  · intro other hin
    obtain ⟨⟨claim, hclaim⟩, hold⟩ := h.ofRetained other hin
    have hne : other ≠ eventId := by
      rintro rfl
      rw [hnone] at hclaim
      cases hclaim
    rw [Function.update_of_ne hne]
    refine ⟨⟨claim, hclaim⟩, ?_⟩
    intro entry hentry
    obtain hin' | hnew := List.mem_append.mp hentry
    · exact hold entry hin'
    · obtain rfl := List.mem_singleton.mp hnew
      exact Ne.symm hne

/-- A retained event id becomes the youngest. -/
theorem retain (h : Claimed emitted claiming claims pending retained) (hin : eventId ∈ retained) :
    Claimed emitted claiming claims pending (retained.erase eventId ++ [eventId]) := by
  refine ⟨h.ofClaim, h.next, h.ascending, h.ofPending, ?_, ?_⟩
  · intro other hother
    obtain hold | hnew := List.mem_append.mp hother
    · exact h.ofRetained other (List.mem_of_mem_erase hold)
    · exact h.ofRetained other (List.mem_singleton.mp hnew ▸ hin)
  · refine (h.nodup.erase eventId).append (List.nodup_singleton eventId) ?_
    rw [List.disjoint_singleton, h.nodup.mem_erase_iff]
    exact fun hkept => hkept.1 rfl

/-- The event of the next sequence is emitted. -/
theorem emit (h : Claimed emitted (some eventId) claims pending retained) (eventDigest : Digest) :
    Claimed (emitted ++ [(eventId, eventDigest)]) none
      (Function.update claims eventId
        (some ⟨⟨emitted.length + 1, linkAt emitted emitted.length⟩, some eventDigest⟩))
      pending retained := by
  obtain ⟨hclaiming, hpending⟩ := h.next eventId rfl
  refine ⟨?_, nofun, h.ascending, ?_, ?_, h.nodup⟩
  · intro other claim hclaim
    refine .inr ?_
    by_cases hsame : other = eventId
    · rw [hsame, Function.update_self] at hclaim
      obtain rfl := Option.some.inj hclaim
      exact ⟨emitted.length, eventDigest, hsame ▸ List.getElem?_concat_length,
        by rw [linkAt_append le_rfl]⟩
    · rw [Function.update_of_ne hsame] at hclaim
      obtain hsome | ⟨place, digest, hplace, rfl⟩ := h.ofClaim other claim hclaim
      · exact absurd (Option.some.inj hsome).symm hsame
      · have hlt := lt_of_emitted hplace
        exact ⟨place, digest, (List.getElem?_append_left hlt).trans hplace,
          by rw [linkAt_append hlt.le]⟩
  · intro entry hentry
    obtain ⟨claim, hclaim, hsequence⟩ := h.ofPending entry hentry
    by_cases hsame : entry.2 = eventId
    · rw [hsame, hclaiming] at hclaim
      obtain rfl := Option.some.inj hclaim
      rw [hsame, Function.update_self]
      exact ⟨_, rfl, hsequence⟩
    · rw [Function.update_of_ne hsame]
      exact ⟨claim, hclaim, hsequence⟩
  · intro other hin
    obtain ⟨hclaim, hother⟩ := h.ofRetained other hin
    rw [Function.update_of_ne fun hsame => hother _ hpending hsame.symm]
    exact ⟨hclaim, hother⟩

/-- The claim of the next sequence is given up. -/
theorem abandon (h : Claimed emitted (some eventId) claims pending retained) :
    Claimed emitted none (Function.update claims eventId none)
      (pending.filter (·.1 ≠ emitted.length + 1)) retained := by
  obtain ⟨hclaiming, hpending⟩ := h.next eventId rfl
  refine ⟨?_, nofun, h.ascending.sublist (List.filter_sublist.map Prod.fst), ?_, ?_, h.nodup⟩
  · intro other claim hclaim
    by_cases hsame : other = eventId
    · rw [hsame, Function.update_self] at hclaim
      cases hclaim
    · rw [Function.update_of_ne hsame] at hclaim
      exact .inr ((h.ofClaim other claim hclaim).resolve_left
        fun hsome => hsame (Option.some.inj hsome).symm)
  · intro entry hentry
    obtain ⟨hin, hne⟩ := List.mem_filter.mp hentry
    obtain ⟨claim, hclaim, hsequence⟩ := h.ofPending entry hin
    have hsame : entry.2 ≠ eventId := by
      intro hsame
      rw [hsame, hclaiming] at hclaim
      obtain rfl := Option.some.inj hclaim
      exact of_decide_eq_true hne hsequence.symm
    rw [Function.update_of_ne hsame]
    exact ⟨claim, hclaim, hsequence⟩
  · intro other hin
    obtain ⟨hclaim, hother⟩ := h.ofRetained other hin
    rw [Function.update_of_ne fun hsame => hother _ hpending hsame.symm]
    exact ⟨hclaim, fun entry hentry => hother entry (List.mem_of_mem_filter hentry)⟩

/-- A receipt comes for an event emitted. -/
theorem receipt (h : Claimed emitted claiming claims pending retained)
    (hsequence : sequence ≤ emitted.length) (hpending : (sequence, eventId) ∈ pending)
    (redeliveryWindow : Nat) :
    Claimed emitted claiming (evict redeliveryWindow (retained ++ [eventId]) claims).2
      (pending.filter (·.1 ≠ sequence))
      (evict redeliveryWindow (retained ++ [eventId]) claims).1 := by
  obtain ⟨gone, kept, hretained, hkept, hclaims⟩ :=
    evict_eq redeliveryWindow (retained ++ [eventId]) claims
  rw [hkept]
  have hnew : eventId ∉ retained := fun hin => (h.ofRetained eventId hin).2 _ hpending rfl
  have hnodup : (gone ++ kept).Nodup := by
    rw [← hretained]
    exact h.nodup.append (List.nodup_singleton eventId) (List.disjoint_singleton.mpr hnew)
  -- of two sequences pending under one event id there is one claim
  have hother : ∀ entry ∈ pending, entry.1 ≠ sequence → entry.2 ∉ retained ++ [eventId] := by
    intro entry hentry hne hin
    obtain hold | hsame := List.mem_append.mp hin
    · exact (h.ofRetained _ hold).2 entry hentry rfl
    · obtain ⟨claim, hclaim, hclaimed⟩ := h.ofPending entry hentry
      obtain ⟨claim', hclaim', hclaimed'⟩ := h.ofPending _ hpending
      rw [List.mem_singleton.mp hsame, hclaim'] at hclaim
      obtain rfl := Option.some.inj hclaim
      exact hne (hclaimed.symm.trans hclaimed')
  have hgone : ∀ other, other ∉ retained ++ [eventId] → other ∉ gone := by
    intro other hout hin
    rw [hretained] at hout
    exact hout (List.mem_append_left kept hin)
  refine ⟨?_, ?_, h.ascending.sublist (List.filter_sublist.map Prod.fst), ?_, ?_,
    (List.nodup_append'.mp hnodup).2.1⟩
  · intro other claim hclaim
    rw [hclaims] at hclaim
    split_ifs at hclaim
    exact h.ofClaim other claim hclaim
  · intro other hclaiming
    obtain ⟨hclaim, hin⟩ := h.next other hclaiming
    have hne : emitted.length + 1 ≠ sequence := by omega
    rw [hclaims, if_neg (hgone other (hother _ hin hne))]
    exact ⟨hclaim, List.mem_filter.mpr ⟨hin, decide_eq_true hne⟩⟩
  · intro entry hentry
    obtain ⟨hin, hne⟩ := List.mem_filter.mp hentry
    rw [hclaims, if_neg (hgone _ (hother entry hin (of_decide_eq_true hne)))]
    exact h.ofPending entry hin
  · intro other hin
    have hout : other ∉ gone := fun hbefore =>
      (List.nodup_append'.mp hnodup).2.2 hbefore hin
    rw [hclaims, if_neg hout]
    have hmem : other ∈ retained ++ [eventId] := hretained ▸ List.mem_append_right gone hin
    refine ⟨?_, ?_⟩
    · obtain hold | hsame := List.mem_append.mp hmem
      · exact (h.ofRetained other hold).1
      · obtain ⟨claim, hclaim, -⟩ := h.ofPending _ hpending
        exact ⟨claim, List.mem_singleton.mp hsame ▸ hclaim⟩
    · rintro entry hentry rfl
      obtain ⟨hin', hne⟩ := List.mem_filter.mp hentry
      exact hother entry hin' (of_decide_eq_true hne) hmem

end Claimed

namespace MutableSourceState.Follows

variable {state : MutableSourceState} {emitted : List (JsString × Digest)}
  {claiming : Option JsString} {eventId : JsString} {sequence place : Nat} {eventDigest : Digest}

theorem empty : MutableSourceState.empty.Follows [] none :=
  ⟨rfl, fun _ => rfl, .nil⟩

/-- A claim is the next sequence, or that of an event emitted. -/
theorem claimEvent (h : state.Follows emitted none) (eventId : JsString) :
    ∃ claiming place, (state.claimEvent eventId).2.Follows emitted claiming ∧
      (state.claimEvent eventId).1 = ⟨place + 1, linkAt emitted place⟩ ∧
      (claiming = some eventId ∧ place = emitted.length ∨
        claiming = none ∧ ∃ eventDigest, emitted[place]? = some (eventId, eventDigest)) := by
  have hnext : state.next = emitted.length := h.next
  rw [MutableSourceState.claimEvent]
  cases hclaim : state.claims eventId with
  | some existing =>
      obtain ⟨place, eventDigest, hplace, rfl⟩ := h.maps.claimed_none hclaim
      refine ⟨none, place, ?_, rfl, .inr ⟨rfl, eventDigest, hplace⟩⟩
      simp only
      split_ifs with hretained
      · exact ⟨h.next, h.latest, h.maps.retain hretained⟩
      · exact h
  | none =>
      rw [h.latest rfl, hnext]
      exact ⟨some eventId, emitted.length, ⟨rfl, nofun, h.maps.claim hclaim⟩, rfl, .inl ⟨rfl, rfl⟩⟩

/-- The event of the next sequence is emitted. -/
theorem markEmitted_next (h : state.Follows emitted (some eventId)) (eventDigest : Digest) :
    (state.markEmitted eventId (emitted.length + 1) eventDigest).1 = .ok () ∧
      (state.markEmitted eventId (emitted.length + 1) eventDigest).2.Follows
        (emitted ++ [(eventId, eventDigest)]) none := by
  have hnext : state.next = emitted.length + 1 := h.next
  rw [MutableSourceState.markEmitted, (h.maps.next eventId rfl).1]
  simp only [ne_eq, not_true_eq_false, if_false, false_and, hnext, if_true]
  refine ⟨trivial, ?_, ?_, h.maps.emit eventDigest⟩
  · rw [List.length_append]
    rfl
  · intro _
    have hlast := linkAt_succ (List.getElem?_concat_length (l := emitted)
      (a := (eventId, eventDigest)))
    rw [List.length_append]
    exact hlast.symm

/-- An event emitted before is emitted again only as it was. -/
theorem markEmitted_again (h : state.Follows emitted none) (eventId : JsString) (place : Nat)
    (eventDigest : Digest) :
    (state.markEmitted eventId (place + 1) eventDigest).2.Follows emitted none ∧
      ((state.markEmitted eventId (place + 1) eventDigest).1 = .ok () →
        emitted[place]? = some (eventId, eventDigest)) := by
  have hnext : state.next = emitted.length := h.next
  rw [MutableSourceState.markEmitted]
  cases hclaim : state.claims eventId with
  | none => exact ⟨h, nofun⟩
  | some claim =>
      obtain ⟨place', digest, hplace, rfl⟩ := h.maps.claimed_none hclaim
      simp only
      split_ifs with hsequence hdigest
      · exact ⟨h, nofun⟩
      · exact ⟨h, nofun⟩
      all_goals
        obtain rfl : place' = place := by simpa using hsequence
        obtain rfl : digest = eventDigest := by simpa using hdigest
        rw [← hclaim, Function.update_eq_self]
        refine ⟨⟨h.next, ?_, h.maps⟩, fun _ => hplace⟩
      · rename_i hlast
        intro _
        rw [← hnext, ← hlast]
        exact (linkAt_succ hplace).symm
      · exact h.latest

/-- A claim that is not emitted is given up. -/
theorem abandonClaim (h : state.Follows emitted claiming)
    (hclaim : claiming = some eventId ∧ sequence = emitted.length + 1 ∨ claiming = none) :
    (state.abandonClaim eventId sequence).Follows emitted none := by
  rw [MutableSourceState.abandonClaim]
  obtain ⟨rfl, rfl⟩ | rfl := hclaim
  · have hnext : state.next = emitted.length + 1 := h.next
    rw [(h.maps.next eventId rfl).1]
    simp only [ne_eq, not_true_eq_false, hnext, or_self, if_false]
    exact ⟨rfl, fun _ => rfl, h.maps.abandon⟩
  · cases hclaim : state.claims eventId with
    | none => exact h
    | some claim =>
        obtain ⟨place, digest, -, rfl⟩ := h.maps.claimed_none hclaim
        simp only [ne_eq, reduceCtorEq, not_false_eq_true, true_or, or_true, if_true]
        exact h

theorem markReceipted (h : state.Follows emitted claiming) (hsequence : sequence ≤ emitted.length)
    (redeliveryWindow : Nat) :
    (state.markReceipted redeliveryWindow sequence).2.Follows emitted claiming := by
  rw [MutableSourceState.markReceipted]
  split_ifs with hknown
  · exact h
  · cases hlookup : state.pending.lookup sequence with
    | none => exact h
    | some eventId =>
        have hpending := mem_of_lookup_pending hlookup
        have hnew : eventId ∉ state.retained := fun hin =>
          (h.maps.ofRetained eventId hin).2 _ hpending rfl
        simp only [if_neg hnew]
        exact ⟨h.next, h.latest, h.maps.receipt hsequence hpending redeliveryWindow⟩

/-- The watermark is below every sequence pending, and the sequence after it, if claimed, is
pending. -/
theorem getState (h : state.Follows emitted claiming) (sourceId : JsString) :
    (state.getState sourceId).pendingSequences.Pairwise (· < ·) ∧
      (∀ sequence ∈ (state.getState sourceId).pendingSequences,
        (state.getState sourceId).highestReceipted < sequence ∧
          sequence ≤ (state.getState sourceId).highestEmitted) ∧
      ((state.getState sourceId).highestReceipted = (state.getState sourceId).highestEmitted ∨
        (state.getState sourceId).highestReceipted + 1 ∈
          (state.getState sourceId).pendingSequences) := by
  have hascending := h.maps.ascending
  have hbounds := fun entry (hentry : entry ∈ state.pending) => h.maps.le_of_pending hentry
  rw [← h.next] at hbounds
  rw [MutableSourceState.getState]
  cases hpending : state.pending with
  | nil => exact ⟨.nil, nofun, .inl rfl⟩
  | cons first rest =>
      rw [hpending] at hascending hbounds
      rw [List.map_cons] at hascending
      obtain ⟨hfirst, -⟩ := List.pairwise_cons.mp hascending
      have hpositive := (hbounds first List.mem_cons_self).1
      refine ⟨hascending, ?_, .inr ?_⟩
      · intro sequence hsequence
        obtain ⟨entry, hentry, rfl⟩ := List.mem_map.mp hsequence
        have hle : first.1 ≤ entry.1 := by
          obtain rfl | hlater := List.mem_cons.mp hentry
          · exact le_rfl
          · exact (hfirst _ (List.mem_map_of_mem hlater)).le
        exact ⟨by simp only; omega, (hbounds entry hentry).2⟩
      · simp only [Nat.sub_add_cancel hpositive]
        exact List.mem_cons_self

end MutableSourceState.Follows

end KyaOs.Audit
