import KyaOs.Concurrency.Actions
import KyaOs.Delegation.Registration
import KyaOs.Utils.TtlCache
import Mathlib.Logic.Function.Basic
import Mathlib.Tactic.Linarith

/-!
# A bound on the staleness of status bits

`withStatusCache` over any resolver. An entry is dated when an answer is stored, not when the
check was begun, its key joins three texts, and overlapping checks store in the order in which
they are answered. Where none of this shows, every answer keeps the bound.
-/

namespace KyaOs

open Js Concurrency

structure StatusCacheOptions where
  maxStalenessMs : JsNumber
  maxEntries : Option JsNumber := none

def StatusCacheOptions.ttlOptions (options : StatusCacheOptions) : TtlOptions where
  ttlMs := options.maxStalenessMs
  maxEntries := options.maxEntries.getD (.ofNat 1000)

/-- `${statusListCredential}\0${statusListIndex}\0${statusPurpose}`. -/
def statusKey (status : CredentialStatus) : JsString :=
  status.statusListCredential ++ 0 :: status.statusListIndex ++ 0 :: status.statusPurpose

/-- A check of the resolver, the call that made it, and what the clock showed when it was
begun. -/
structure StatusCheck where
  call : Nat
  status : CredentialStatus
  begun : ℚ
  deriving DecidableEq

/-- A cached bit. The check that it is the answer to, and when it was answered, are read by no
operation. -/
structure StatusBit where
  revoked : Bool
  check : StatusCheck
  stored : ℚ

/-- How far a call of `checkStatus` has come. -/
inductive StatusCheckPhase where
  /-- It waits for the resolver. -/
  | asked (check : StatusCheck)
  | served (status : CredentialStatus) (bit : StatusBit)
  | checked (check : StatusCheck) (answer : Except Error Bool)

/-- The check that a call has begun. -/
def StatusCheckPhase.check? : StatusCheckPhase → Option StatusCheck
  | .asked check | .checked check _ => some check
  | .served .. => none

/-- What a call returned, and when. -/
structure StatusAnswer where
  call : Nat
  status : CredentialStatus
  bit : StatusBit
  time : ℚ

/-- The cache and the calls of one wrapped resolver; no operation reads the checks begun and
the answers returned, oldest first. -/
structure StatusCacheWorld where
  cache : TtlCache StatusBit := {}
  calls : Nat → Option StatusCheckPhase := fun _ => none
  checks : List StatusCheck := []
  returned : List StatusAnswer := []

/-- What a call does next, with what the clock shows and the resolver answers. -/
inductive StatusCacheAction where
  | checkStatus (call : Nat) (status : CredentialStatus) (now begun : ℚ)
  | answer (call : Nat) (answer : Except Error Bool) (now : ℚ)

namespace StatusCacheWorld

def setPhase (w : StatusCacheWorld) (call : Nat) (phase : StatusCheckPhase) : StatusCacheWorld :=
  { w with calls := Function.update w.calls call (some phase) }

/-- A hit is returned; on a miss the resolver is asked. -/
def checkStatus (w : StatusCacheWorld) (call : Nat) (status : CredentialStatus) (now begun : ℚ) :
    StatusCacheWorld :=
  match w.cache.get now (statusKey status) with
  | (some hit, cache) =>
    setPhase { w with cache, returned := w.returned ++ [⟨call, status, hit, now⟩] } call
      (.served status hit)
  | (none, cache) =>
    let check : StatusCheck := { call, status, begun }
    setPhase { w with cache, checks := w.checks ++ [check] } call (.asked check)

/-- The resolver's answer is stored and returned; a throw is passed on. -/
def answered (options : StatusCacheOptions) (w : StatusCacheWorld) (check : StatusCheck)
    (now : ℚ) : Except Error Bool → StatusCacheWorld
  | .error error => w.setPhase check.call (.checked check (.error error))
  | .ok revoked =>
    setPhase { w with
      cache := w.cache.set options.ttlOptions now (statusKey check.status) ⟨revoked, check, now⟩
      returned := w.returned ++ [⟨check.call, check.status, ⟨revoked, check, now⟩, now⟩] }
      check.call
      (.checked check (.ok revoked))

def act (options : StatusCacheOptions) (w : StatusCacheWorld) :
    StatusCacheAction → Option StatusCacheWorld
  | .checkStatus call status now begun =>
    match w.calls call with
    | none => some (w.checkStatus call status now begun)
    | some _ => none
  | .answer call answer now =>
    match w.calls call with
    | some (.asked check) => some (w.answered options check now answer)
    | _ => none

end StatusCacheWorld

/-- The same three fields. -/
structure CredentialStatus.SameBit (status status' : CredentialStatus) : Prop where
  credential : status.statusListCredential = status'.statusListCredential
  index : status.statusListIndex = status'.statusListIndex
  purpose : status.statusPurpose = status'.statusPurpose

namespace CredentialStatus.SameBit

variable {status status' status'' : CredentialStatus}

theorem refl (status : CredentialStatus) : status.SameBit status := ⟨rfl, rfl, rfl⟩

theorem symm (h : status.SameBit status') : status'.SameBit status :=
  ⟨h.credential.symm, h.index.symm, h.purpose.symm⟩

theorem trans (h : status.SameBit status') (h' : status'.SameBit status'') :
    status.SameBit status'' :=
  ⟨h.credential.trans h'.credential, h.index.trans h'.index, h.purpose.trans h'.purpose⟩

theorem statusKey_eq (h : status.SameBit status') : statusKey status = statusKey status' := by
  rw [statusKey, statusKey, h.credential, h.index, h.purpose]

end CredentialStatus.SameBit

/-- What was begun is older at `now` than `max(maxStalenessMs, 0)`; nothing is within a bound
that is no number. -/
def StatusCacheOptions.Stale (options : StatusCacheOptions) (begun now : ℚ) : Prop :=
  match options.maxStalenessMs with
  | .finite bound => begun < now - max bound 0
  | .infinity negative => negative = true ∧ begun < now
  | .nan => True

/-- A check may take `latency` when its answer is served `age` after it was stored. -/
def StatusCacheOptions.Leaves (options : StatusCacheOptions) (latency age : ℚ) : Prop :=
  match options.maxStalenessMs with
  | .finite bound => latency ≤ bound - age
  | .infinity _ => True
  | .nan => False

theorem StatusCacheOptions.leaves_iff {options : StatusCacheOptions} {begun stored now : ℚ}
    (h : ¬ options.ttlOptions.Disabled) :
    options.Leaves (stored - begun) (now - stored) ↔ ¬ options.Stale begun now := by
  have hon : ¬ options.maxStalenessMs.le (.ofNat 0) = true := fun hle => h (.inl hle)
  rw [Leaves, Stale]
  cases hms : options.maxStalenessMs with
  | finite bound =>
      rw [hms, JsNumber.ofNat, JsNumber.le_finite, Nat.cast_zero, not_le] at hon
      dsimp only
      rw [max_eq_left hon.le, not_lt]
      exact ⟨fun h => by linarith, fun h => by linarith⟩
  | infinity negative =>
      cases negative with
      | false => simp
      | true => simp [hms, JsNumber.le, JsNumber.lt, JsNumber.ofNat] at hon
  | nan => simp

namespace StatusCacheWorld

def BegunBefore (w : StatusCacheWorld) (earlier later : StatusCheck) : Prop :=
  [earlier, later].Sublist w.checks

/-- The bit is what the resolver answered to its check. -/
structure Answered (w : StatusCacheWorld) (bit : StatusBit) : Prop where
  begun : bit.check ∈ w.checks
  answer : w.calls bit.check.call = some (.checked bit.check (.ok bit.revoked))

/-- A returned bit is the resolver's answer to a check of the same fields, the call's own or
one that is not stale. -/
structure WithinBound (options : StatusCacheOptions) (w : StatusCacheWorld) (r : StatusAnswer) :
    Prop where
  answered : w.Answered r.bit
  same : r.bit.check.status.SameBit r.status
  age : r.bit.check.call = r.call ∨ ¬ options.Stale r.bit.check.begun r.time

/-- A clear answer after a revoked one is not to an earlier check. -/
def KeepsRevoked (w : StatusCacheWorld) (r r' : StatusAnswer) : Prop :=
  r.bit.revoked = true → r'.bit.revoked = false → r.status.SameBit r'.status →
    ¬ w.BegunBefore r'.bit.check r.bit.check

/-- What every interleaving of calls is to keep. -/
structure HonoursStaleness (options : StatusCacheOptions) (w : StatusCacheWorld) : Prop where
  bounded : ∀ r ∈ w.returned, w.WithinBound options r
  /-- What is cached was returned, not thrown. -/
  stored : w.cache.Holds fun _ => w.Answered
  ordered : w.returned.Pairwise w.KeepsRevoked

/-- A live bit under the key of a call's status is of the same fields, and its check took no
longer than its time in the cache leaves of the bound. No check is answered clear that a later
one of the same status has overtaken, and was answered revoked. -/
def InTime (w : StatusCacheWorld) (options : StatusCacheOptions) : StatusCacheAction → Prop
  | .checkStatus _ status now _ => ∀ entry, w.cache.entries.lookup (statusKey status) = some entry →
      entry.expiresAt.lt (.finite now) = false → entry.value.check.status.SameBit status ∧
        options.Leaves (entry.value.stored - entry.value.check.begun) (now - entry.value.stored)
  | .answer call (.ok false) _ => ∀ check, w.calls call = some (.asked check) →
      ∀ other overtaking, w.calls other = some (.checked overtaking (.ok true)) →
        overtaking.status.SameBit check.status → ¬ w.BegunBefore check overtaking
  | .answer .. => True

variable {options : StatusCacheOptions} {w w' : StatusCacheWorld} {action : StatusCacheAction}
  {call : Nat} {phase : StatusCheckPhase}

/-- What is cached under a key was answered to a check of that key. -/
def Stored (options : StatusCacheOptions) (w : StatusCacheWorld) (key : JsString)
    (bit : StatusBit) : Prop :=
  ¬ options.ttlOptions.Disabled ∧ key = statusKey bit.check.status ∧ w.Answered bit

/-- What runs in time keep. -/
structure Inv (options : StatusCacheOptions) (w : StatusCacheWorld) : Prop where
  bounded : ∀ r ∈ w.returned, w.WithinBound options r
  stored : w.cache.Holds (w.Stored options)
  ordered : w.returned.Pairwise w.KeepsRevoked
  begun : ∀ call phase check, w.calls call = some phase → phase.check? = some check →
    check.call = call ∧ check ∈ w.checks
  /-- The checks that were answered have been returned. -/
  recorded : ∀ bit, w.Answered bit → ∃ r ∈ w.returned, r.status = bit.check.status ∧
    r.bit.check = bit.check ∧ r.bit.revoked = bit.revoked
  /-- No clear bit in the cache is of an earlier check than a revoked answer. -/
  clear : w.cache.Holds fun _ bit => bit.revoked = false → ∀ r ∈ w.returned,
    r.bit.revoked = true → r.status.SameBit bit.check.status → ¬ w.BegunBefore bit.check r.bit.check

theorem Inv.honours (h : w.Inv options) : w.HonoursStaleness options where
  bounded := h.bounded
  stored key entry hmem := (h.stored key entry hmem).2.2
  ordered := h.ordered

@[simp] theorem setPhase_calls_self : (w.setPhase call phase).calls call = some phase :=
  Function.update_self call _ _

theorem setPhase_calls_of_ne {other : Nat} (h : other ≠ call) :
    (w.setPhase call phase).calls other = w.calls other :=
  Function.update_of_ne h _ _

/-- The checks of `w` are still there, and answered as they were. -/
structure Extends (w w' : StatusCacheWorld) : Prop where
  checks : w.checks ⊆ w'.checks
  answers : ∀ call check answer, w.calls call = some (.checked check answer) →
    w'.calls call = some (.checked check answer)

namespace Extends

theorem answered (h : w.Extends w') {bit : StatusBit} (hbit : w.Answered bit) :
    w'.Answered bit :=
  ⟨h.checks hbit.begun, h.answers _ _ _ hbit.answer⟩

theorem withinBound (h : w.Extends w') {r : StatusAnswer} (hbound : w.WithinBound options r) :
    w'.WithinBound options r :=
  ⟨h.answered hbound.answered, hbound.same, hbound.age⟩

theorem stored (h : w.Extends w') {key : JsString} {bit : StatusBit}
    (hstored : w.Stored options key bit) : w'.Stored options key bit :=
  ⟨hstored.1, hstored.2.1, h.answered hstored.2.2⟩

end Extends

/-- A call that has not been answered moves on. -/
theorem extends_setPhase {w₁ : StatusCacheWorld} (hchecks : w.checks ⊆ w₁.checks)
    (hcalls : w₁.calls = w.calls)
    (hfree : ∀ check answer, w.calls call ≠ some (.checked check answer)) :
    w.Extends (w₁.setPhase call phase) := by
  refine ⟨hchecks, ?_⟩
  intro other check answer hother
  by_cases hsame : other = call
  · subst hsame
    exact absurd hother (hfree check answer)
  · rw [setPhase_calls_of_ne hsame, hcalls]
    exact hother

/-- A new check was begun after the others. -/
theorem begunBefore_append {check earlier later : StatusCheck}
    (hchecks : w'.checks = w.checks ++ [check]) (h : w'.BegunBefore earlier later) :
    w.BegunBefore earlier later ∨ later = check := by
  rw [BegunBefore, hchecks, List.sublist_append_iff] at h
  obtain ⟨first, last, hparts, hfirst, hlast⟩ := h
  obtain rfl | ⟨init, c, rfl⟩ := last.eq_nil_or_concat
  · rw [List.append_nil] at hparts
    rw [BegunBefore, hparts]
    exact .inl hfirst
  · rw [List.concat_eq_append, ← List.append_assoc] at hparts
    have hsingle : c ∈ [check] := hlast.subset (by simp)
    have hend := congrArg List.getLast? hparts
    simp only [List.getLast?_concat, List.getLast?_cons_cons, List.getLast?_singleton,
      Option.some.injEq] at hend
    exact .inr (hend.trans (List.mem_singleton.mp hsingle))

/-- Only the phase of `call` is new. -/
theorem answered_setPhase {w₁ : StatusCacheWorld} (hcalls : w₁.calls = w.calls)
    (hchecks : w₁.checks = w.checks) {bit : StatusBit}
    (hbit : (w₁.setPhase call phase).Answered bit) :
    w.Answered bit ∨ bit.check.call = call ∧ phase = .checked bit.check (.ok bit.revoked) := by
  obtain ⟨hbegun, hanswer⟩ := hbit
  by_cases hsame : bit.check.call = call
  · rw [hsame, setPhase_calls_self] at hanswer
    exact .inr ⟨hsame, Option.some.inj hanswer⟩
  · rw [setPhase_calls_of_ne hsame, hcalls] at hanswer
    exact .inl ⟨hchecks ▸ hbegun, hanswer⟩

/-- What another call has come to is as it was. -/
theorem calls_setPhase {w₁ : StatusCacheWorld} (hcalls : w₁.calls = w.calls) {other : Nat}
    {found : StatusCheckPhase} (hother : (w₁.setPhase call phase).calls other = some found) :
    w.calls other = some found ∨ other = call ∧ phase = found := by
  by_cases hsame : other = call
  · rw [hsame, setPhase_calls_self] at hother
    exact .inr ⟨hsame, Option.some.inj hother⟩
  · rw [setPhase_calls_of_ne hsame, hcalls] at hother
    exact .inl hother

theorem Inv.hit (h : w.Inv options) {status : CredentialStatus} {now : ℚ} {bit : StatusBit}
    {cache : TtlCache StatusBit} (hnone : w.calls call = none)
    (hentry : ∃ entry, (statusKey status, entry) ∈ w.cache.entries ∧ entry.value = bit)
    (hcache : cache.entries ⊆ w.cache.entries) (hsame : bit.check.status.SameBit status)
    (hage : ¬ options.Stale bit.check.begun now) :
    (setPhase { w with cache, returned := w.returned ++ [⟨call, status, bit, now⟩] } call
      (.served status bit)).Inv options := by
  have hextends := @extends_setPhase w call (.served status bit)
    { w with cache, returned := w.returned ++ [⟨call, status, bit, now⟩] } (List.Subset.refl _) rfl
    fun check answer => by rw [hnone]; exact nofun
  obtain ⟨entry, hmem, rfl⟩ := hentry
  obtain ⟨-, -, hanswered⟩ := h.stored _ _ hmem
  refine ⟨?_, ?_, ?_, ?_, ?_, ?_⟩
  · intro r hr
    obtain hold | hnew := List.mem_append.mp hr
    · exact hextends.withinBound (h.bounded r hold)
    · obtain rfl := List.mem_singleton.mp hnew
      exact ⟨hextends.answered hanswered, hsame, .inr hage⟩
  · intro key entry' hmem'
    exact hextends.stored (h.stored key entry' (hcache hmem'))
  · refine List.pairwise_append.mpr ⟨h.ordered, List.pairwise_singleton _ _, ?_⟩
    intro r hr r' hr' hrevoked hclear hsame'
    obtain rfl := List.mem_singleton.mp hr'
    exact h.clear _ entry hmem hclear r hr hrevoked (hsame'.trans hsame.symm)
  · intro other found check hother hcheck
    obtain hold | ⟨-, rfl⟩ := calls_setPhase (w := w) (by rfl) hother
    · exact h.begun other found check hold hcheck
    · cases hcheck
  · intro bit' hbit'
    obtain hold | ⟨-, hphase⟩ := answered_setPhase (w := w) (by rfl) (by rfl) hbit'
    · obtain ⟨r, hr, hrecorded⟩ := h.recorded bit' hold
      exact ⟨r, List.mem_append_left _ hr, hrecorded⟩
    · cases hphase
  · intro key entry' hmem' hclear r hr hrevoked hsame'
    obtain hold | hnew := List.mem_append.mp hr
    · exact h.clear key entry' (hcache hmem') hclear r hold hrevoked hsame'
    · obtain rfl := List.mem_singleton.mp hnew
      -- The answer to the check of the hit was returned before.
      obtain ⟨r, hr, hstatus, hcheck, hbit⟩ := h.recorded _ hanswered
      have hbefore := h.clear key entry' (hcache hmem') hclear r hr (hbit.trans hrevoked)
        (hstatus ▸ hsame.trans hsame')
      rwa [hcheck] at hbefore

theorem Inv.miss (h : w.Inv options) {check : StatusCheck} {cache : TtlCache StatusBit}
    (hnone : w.calls check.call = none) (hcache : cache.entries ⊆ w.cache.entries) :
    (setPhase { w with cache, checks := w.checks ++ [check] } check.call (.asked check)).Inv
      options := by
  have hextends := @extends_setPhase w check.call (.asked check)
    { w with cache, checks := w.checks ++ [check] } (List.subset_append_left _ _) rfl
    fun check answer => by rw [hnone]; exact nofun
  -- A check that was answered is not the new one.
  have hbegun : ∀ {bit : StatusBit} {earlier : StatusCheck}, w.Answered bit →
      (setPhase { w with cache, checks := w.checks ++ [check] } check.call
        (.asked check)).BegunBefore earlier bit.check → w.BegunBefore earlier bit.check := by
    intro bit earlier hbit hbefore
    obtain hold | hnew := begunBefore_append rfl hbefore
    · exact hold
    · have hanswer := hbit.answer
      rw [hnew, hnone] at hanswer
      cases hanswer
  refine ⟨?_, ?_, ?_, ?_, ?_, ?_⟩
  · exact fun r hr => hextends.withinBound (h.bounded r hr)
  · exact fun key entry hmem => hextends.stored (h.stored key entry (hcache hmem))
  · refine h.ordered.imp_of_mem ?_
    intro r r' hr hr' hkeeps hrevoked hclear hsame hbefore
    exact hkeeps hrevoked hclear hsame (hbegun (h.bounded r hr).answered hbefore)
  · intro other found check' hother hcheck
    obtain hold | ⟨rfl, rfl⟩ := calls_setPhase (w := w) (by rfl) hother
    · obtain ⟨hcall, hmem⟩ := h.begun other found check' hold hcheck
      exact ⟨hcall, List.mem_append_left _ hmem⟩
    · cases hcheck
      exact ⟨rfl, List.mem_append_right _ (List.mem_singleton_self _)⟩
  · rintro bit ⟨hmem, hanswer⟩
    have hne : bit.check.call ≠ check.call := by
      intro hsame
      rw [hsame, setPhase_calls_self] at hanswer
      cases hanswer
    rw [setPhase_calls_of_ne hne] at hanswer
    refine h.recorded bit ⟨?_, hanswer⟩
    obtain hold | hnew := List.mem_append.mp hmem
    · exact hold
    · exact absurd (congrArg StatusCheck.call (List.mem_singleton.mp hnew)) hne
  · intro key entry hmem hclear r hr hrevoked hsame hbefore
    exact h.clear key entry (hcache hmem) hclear r hr hrevoked hsame
      (hbegun (h.bounded r hr).answered hbefore)

theorem Inv.throw (h : w.Inv options) {check : StatusCheck} {error : Error}
    (hasked : w.calls call = some (.asked check)) :
    (w.answered options check 0 (.error error)).Inv options := by
  obtain ⟨rfl, hbegun⟩ := h.begun call _ check hasked rfl
  have hextends := @extends_setPhase w check.call (.checked check (.error error)) w
    (List.Subset.refl _) rfl fun check answer => by rw [hasked]; exact nofun
  refine ⟨?_, ?_, h.ordered, ?_, ?_, h.clear⟩
  · exact fun r hr => hextends.withinBound (h.bounded r hr)
  · exact fun key entry hmem => hextends.stored (h.stored key entry hmem)
  · intro other found check' hother hcheck
    obtain hold | ⟨rfl, rfl⟩ := calls_setPhase (w := w) (by rfl) hother
    · exact h.begun other found check' hold hcheck
    · cases hcheck
      exact ⟨rfl, hbegun⟩
  · intro bit hbit
    obtain hold | ⟨-, hphase⟩ := answered_setPhase (w := w) (by rfl) (by rfl) hbit
    · exact h.recorded bit hold
    · cases hphase

theorem Inv.store (h : w.Inv options) {check : StatusCheck} {revoked : Bool} {now : ℚ}
    (hasked : w.calls call = some (.asked check))
    (hclear : revoked = false → ∀ r ∈ w.returned, r.bit.revoked = true →
      r.status.SameBit check.status → ¬ w.BegunBefore check r.bit.check) :
    (w.answered options check now (.ok revoked)).Inv options := by
  obtain ⟨rfl, hbegun⟩ := h.begun call _ check hasked rfl
  have hextends : w.Extends (w.answered options check now (.ok revoked)) :=
    extends_setPhase (List.Subset.refl _) rfl fun check answer => by rw [hasked]; exact nofun
  have hanswered : (w.answered options check now (.ok revoked)).Answered ⟨revoked, check, now⟩ :=
    ⟨hbegun, setPhase_calls_self⟩
  -- What is in the cache is the new bit, or was there under another key.
  have hentries : ∀ key entry,
      (key, entry) ∈ (w.answered options check now (.ok revoked)).cache.entries →
      (¬ options.ttlOptions.Disabled ∧ key = statusKey check.status ∧
        entry.value = ⟨revoked, check, now⟩) ∨
      (key ≠ statusKey check.status ∧ (key, entry) ∈ w.cache.entries) := by
    intro key entry hmem
    by_cases hoff : options.ttlOptions.Disabled
    · rw [answered, setPhase, TtlCache.set_disabled hoff] at hmem
      exact absurd hoff (h.stored key entry hmem).1
    · obtain ⟨hkey, hvalue⟩ | hold := TtlCache.mem_set hoff hmem
      · exact .inl ⟨hoff, hkey, hvalue⟩
      · exact .inr hold
  refine ⟨?_, ?_, ?_, ?_, ?_, ?_⟩
  · intro r hr
    obtain hold | hnew := List.mem_append.mp hr
    · exact hextends.withinBound (h.bounded r hold)
    · obtain rfl := List.mem_singleton.mp hnew
      exact ⟨hanswered, .refl _, .inl rfl⟩
  · intro key entry hmem
    obtain ⟨henabled, hkey, hvalue⟩ | ⟨-, hold⟩ := hentries key entry hmem
    · rw [hvalue]
      exact ⟨henabled, hkey, hanswered⟩
    · exact hextends.stored (h.stored key entry hold)
  · refine List.pairwise_append.mpr ⟨h.ordered, List.pairwise_singleton _ _, ?_⟩
    intro r hr r' hr' hrevoked hclear' hsame
    obtain rfl := List.mem_singleton.mp hr'
    exact hclear hclear' r hr hrevoked hsame
  · intro other found check' hother hcheck
    obtain hold | ⟨rfl, rfl⟩ := calls_setPhase (w := w) (by rfl) hother
    · exact h.begun other found check' hold hcheck
    · cases hcheck
      exact ⟨rfl, hbegun⟩
  · intro bit hbit
    obtain hold | ⟨-, hphase⟩ := answered_setPhase (w := w) (by rfl) (by rfl) hbit
    · obtain ⟨r, hr, hrecorded⟩ := h.recorded bit hold
      exact ⟨r, List.mem_append_left _ hr, hrecorded⟩
    · obtain ⟨bitRevoked, bitCheck⟩ := bit
      cases hphase
      exact ⟨_, List.mem_append_right _ (List.mem_singleton_self _), rfl, rfl, rfl⟩
  · intro key entry hmem hentryClear r hr hrevoked hsame
    obtain hold | hnew := List.mem_append.mp hr
    · obtain ⟨-, -, hvalue⟩ | ⟨-, hkept⟩ := hentries key entry hmem
      · rw [hvalue] at hentryClear hsame ⊢
        exact hclear hentryClear r hold hrevoked hsame
      · exact h.clear key entry hkept hentryClear r hold hrevoked hsame
    · obtain rfl := List.mem_singleton.mp hnew
      obtain ⟨-, -, hvalue⟩ | ⟨hkey, hkept⟩ := hentries key entry hmem
      · rw [hvalue, show revoked = true from hrevoked] at hentryClear
        cases hentryClear
      · exact absurd ((h.stored key entry hkept).2.1.trans hsame.symm.statusKey_eq) hkey

/-- The four things an action can do to the world, and what it takes to be in time. -/
inductive Transition (options : StatusCacheOptions) (w : StatusCacheWorld) :
    StatusCacheWorld → Prop → Prop
  | hit {call : Nat} {status : CredentialStatus} {now : ℚ} {bit : StatusBit}
      {cache : TtlCache StatusBit} : w.calls call = none →
      (∃ entry, (statusKey status, entry) ∈ w.cache.entries ∧ entry.value = bit) →
      cache.entries ⊆ w.cache.entries →
      Transition options w (setPhase { w with
          cache, returned := w.returned ++ [⟨call, status, bit, now⟩] } call (.served status bit))
        (bit.check.status.SameBit status ∧ ¬ options.Stale bit.check.begun now)
  | miss {check : StatusCheck} {cache : TtlCache StatusBit} : w.calls check.call = none →
      cache.entries ⊆ w.cache.entries →
      Transition options w (setPhase { w with cache, checks := w.checks ++ [check] } check.call
        (.asked check)) True
  | throw {call : Nat} {check : StatusCheck} {error : Error} :
      w.calls call = some (.asked check) →
      Transition options w (w.answered options check 0 (.error error)) True
  | store {call : Nat} {check : StatusCheck} {revoked : Bool} {now : ℚ} :
      w.calls call = some (.asked check) →
      Transition options w (w.answered options check now (.ok revoked))
        (revoked = false → ∀ r ∈ w.returned, r.bit.revoked = true →
          r.status.SameBit check.status → ¬ w.BegunBefore check r.bit.check)

/-- What is asked of a call, of the bit that it finds. -/
theorem Inv.inTime_checkStatus (h : w.Inv options) {status : CredentialStatus} {now begun : ℚ} :
    (∀ bit, (w.cache.get now (statusKey status)).1 = some bit →
      bit.check.status.SameBit status ∧ ¬ options.Stale bit.check.begun now) ↔
      w.InTime options (.checkStatus call status now begun) := by
  rw [InTime, TtlCache.get]
  split
  · rename_i hlookup
    refine iff_of_true ?_ ?_
    · intro bit hbit
      cases hbit
    · intro entry hentry
      cases hlookup.symm.trans hentry
  · rename_i entry hlookup
    have hleaves := @StatusCacheOptions.leaves_iff options entry.value.check.begun
      entry.value.stored now (h.stored _ _ (TtlCache.mem_of_lookup hlookup)).1
    constructor
    · intro hfound _ hentry hlive
      cases hlookup.symm.trans hentry
      rw [hleaves]
      exact hfound entry.value (by simp [hlive])
    · intro hfound bit hbit
      split_ifs at hbit with hexpired
      cases hbit
      rw [← hleaves]
      exact hfound entry hlookup (Bool.not_eq_true _ ▸ hexpired)

/-- The revoked answers that a check may be overtaken by are those that were returned. -/
theorem Inv.overtaken_iff (h : w.Inv options) {check : StatusCheck} :
    (∀ r ∈ w.returned, r.bit.revoked = true → r.status.SameBit check.status →
      ¬ w.BegunBefore check r.bit.check) ↔
      ∀ other overtaking, w.calls other = some (.checked overtaking (.ok true)) →
        overtaking.status.SameBit check.status → ¬ w.BegunBefore check overtaking := by
  constructor
  · intro hreturned other overtaking hother hsame
    obtain ⟨rfl, hmem⟩ := h.begun other _ overtaking hother rfl
    obtain ⟨r, hr, hstatus, hcheck, hrevoked⟩ := h.recorded ⟨true, overtaking, 0⟩ ⟨hmem, hother⟩
    have hbefore := hreturned r hr hrevoked (hstatus ▸ hsame)
    rwa [hcheck] at hbefore
  · intro hcalls r hr hrevoked hsame
    obtain ⟨⟨-, hanswer⟩, hstatus, -⟩ := h.bounded r hr
    rw [hrevoked] at hanswer
    exact hcalls _ _ hanswer (hstatus.trans hsame)

theorem transition_of_act (hinv : w.Inv options) (h : w.act options action = some w') :
    ∃ inTime, w.Transition options w' inTime ∧ (inTime ↔ w.InTime options action) := by
  cases action with
  | checkStatus call status now begun =>
      simp only [act] at h
      split at h
      · rename_i hnone
        obtain rfl := Option.some.inj h
        have hsubset := w.cache.get_subset now (statusKey status)
        rw [← hinv.inTime_checkStatus, checkStatus]
        split
        · rename_i bit cache hget
          rw [hget] at hsubset
          have hholds : w.cache.Holds fun key bit =>
              ∃ entry, (key, entry) ∈ w.cache.entries ∧ entry.value = bit :=
            fun key entry hmem => ⟨entry, hmem, rfl⟩
          have hhit : (w.cache.get now (statusKey status)).1 = some bit := by rw [hget]
          refine ⟨_, .hit hnone (hholds.of_get hhit) hsubset, ?_⟩
          rw [hget]
          exact ⟨fun hfound bit' hbit => Option.some.inj hbit ▸ hfound, fun h => h bit rfl⟩
        · rename_i cache hget
          rw [hget] at hsubset
          refine ⟨True, .miss hnone hsubset, ?_⟩
          rw [hget]
          refine iff_of_true trivial ?_
          intro bit hbit
          cases hbit
      · cases h
  | answer call answer now =>
      simp only [act] at h
      split at h
      · rename_i check hasked
        obtain rfl := Option.some.inj h
        cases answer with
        | error error => exact ⟨True, .throw hasked, Iff.rfl⟩
        | ok revoked =>
            refine ⟨_, .store hasked, ?_⟩
            cases revoked with
            | true => exact iff_of_true (fun hfalse => by cases hfalse) trivial
            | false =>
                rw [forall_prop_of_true rfl, hinv.overtaken_iff, InTime]
                constructor
                · intro hclear check' hasked'
                  cases hasked.symm.trans hasked'
                  exact hclear
                · exact fun hclear => hclear check hasked
      · cases h

theorem Inv.act (h : w.Inv options) (hact : w.act options action = some w')
    (hinTime : w.InTime options action) : w'.Inv options := by
  obtain ⟨inTime, htransition, hiff⟩ := transition_of_act h hact
  have hallowed := hiff.mpr hinTime
  cases htransition with
  | hit hnone hentry hcache => exact h.hit hnone hentry hcache hallowed.1 hallowed.2
  | miss hnone hcache => exact h.miss hnone hcache
  | throw hasked => exact h.throw hasked
  | store hasked => exact h.store hasked hallowed

/-- An action that is not in time breaks the bound, or the order of the answers. -/
theorem Inv.inTime (h : w.Inv options) (hact : w.act options action = some w')
    (hhonours : w'.HonoursStaleness options) : w.InTime options action := by
  obtain ⟨inTime, htransition, hiff⟩ := transition_of_act h hact
  refine hiff.mp ?_
  cases htransition with
  | @hit call status now bit cache hnone hentry hcache =>
      have hbound := hhonours.bounded _ (List.mem_append_right _ (List.mem_singleton_self _))
      refine ⟨hbound.same, ?_⟩
      obtain hown | hage := hbound.age
      · obtain ⟨entry, hmem, rfl⟩ := hentry
        have hanswer := (h.stored _ _ hmem).2.2.answer
        rw [show entry.value.check.call = call from hown, hnone] at hanswer
        cases hanswer
      · exact hage
  | miss => trivial
  | throw => trivial
  | store hasked =>
      intro hclear r hr hrevoked hsame
      have hpairs := (List.pairwise_append.mp hhonours.ordered).2.2
      exact hpairs r hr _ (List.mem_singleton_self _) hrevoked hclear hsame

theorem inv_start : Inv options {} where
  bounded r hr := absurd hr List.not_mem_nil
  stored key entry hmem := absurd hmem List.not_mem_nil
  ordered := List.Pairwise.nil
  begun call phase check hbegun := by cases hbegun
  recorded bit hbit := absurd hbit.begun List.not_mem_nil
  clear key entry hmem := absurd hmem List.not_mem_nil

instance (status status' : CredentialStatus) : Decidable (status.SameBit status') :=
  decidable_of_iff (status.statusListCredential = status'.statusListCredential ∧
      status.statusListIndex = status'.statusListIndex ∧
      status.statusPurpose = status'.statusPurpose)
    ⟨fun ⟨hcredential, hindex, hpurpose⟩ => ⟨hcredential, hindex, hpurpose⟩,
      fun h => ⟨h.credential, h.index, h.purpose⟩⟩

instance (options : StatusCacheOptions) (latency age : ℚ) :
    Decidable (options.Leaves latency age) :=
  match h : options.maxStalenessMs with
  | .finite bound =>
      decidable_of_iff (latency ≤ bound - age) (by rw [StatusCacheOptions.Leaves, h])
  | .infinity _ => .isTrue (by rw [StatusCacheOptions.Leaves, h]; trivial)
  | .nan => .isFalse (by rw [StatusCacheOptions.Leaves, h]; exact id)

instance (w : StatusCacheWorld) (earlier later : StatusCheck) :
    Decidable (w.BegunBefore earlier later) :=
  inferInstanceAs (Decidable ([earlier, later].Sublist w.checks))

/-- Whether an action is in time, as computed from the checks begun. -/
def isInTime (options : StatusCacheOptions) (w : StatusCacheWorld) : StatusCacheAction → Bool
  | .checkStatus _ status now _ => (w.cache.entries.lookup (statusKey status)).all fun entry =>
      entry.expiresAt.lt (.finite now) || decide (entry.value.check.status.SameBit status ∧
        options.Leaves (entry.value.stored - entry.value.check.begun) (now - entry.value.stored))
  | .answer call (.ok false) _ => w.checks.all fun begun =>
      match w.calls call, w.calls begun.call with
      | some (.asked check), some (.checked overtaking (.ok true)) =>
          !decide (overtaking.status.SameBit check.status ∧ w.BegunBefore check overtaking)
      | _, _ => true
  | .answer .. => true

theorem Inv.inTime_of_isInTime (h : w.Inv options) (hcomputed : isInTime options w action = true) :
    w.InTime options action := by
  cases action with
  | checkStatus call status now begun =>
      intro entry hentry hlive
      have hfound := (Option.all_eq_true _ _).mp hcomputed entry hentry
      rw [hlive, Bool.false_or, decide_eq_true_eq] at hfound
      exact hfound
  | answer call answer now =>
      match answer, hcomputed with
      | .ok true, _ | .error _, _ => trivial
      | .ok false, hcomputed =>
          intro check hasked other overtaking hother hsame hbefore
          obtain ⟨rfl, hmem⟩ := h.begun other _ overtaking hother rfl
          have hfound := List.all_eq_true.mp hcomputed overtaking hmem
          simp [hasked, hother, hsame, hbefore] at hfound

def inTimeAct (options : StatusCacheOptions) (w : StatusCacheWorld) (action : StatusCacheAction) :
    Option StatusCacheWorld :=
  if isInTime options w action then w.act options action else none

theorem acted_of_run {actions : List StatusCacheAction}
    (h : actions.foldlM (inTimeAct options) {} = some w) :
    Acted (act options) (fun w => w.InTime options) {} w := by
  refine kept_of_foldlM (fun w action w' hacted hact => ?_) .start h
  rw [inTimeAct, Option.ite_none_right_eq_some] at hact
  have hinv := hacted.invariant inv_start fun _ _ _ hinv hact => hinv.act hact
  exact hacted.act hact.2 (hinv.inTime_of_isInTime hact.1)

section Sample

def sampleCacheOptions : StatusCacheOptions where
  maxStalenessMs := .ofNat 10

def sampleStatus : CredentialStatus where
  type := js "StatusList2021Entry"
  statusPurpose := js "revocation"
  statusListIndex := js "3"
  statusListCredential := js "https://a.b/1"

/-- A check that takes `latency`, and a call after it. -/
def checkedThenServed (latency now : ℚ) : List StatusCacheAction :=
  [.checkStatus 0 sampleStatus 0 0, .answer 0 (.ok false) latency,
    .checkStatus 1 sampleStatus now now]

/-- Two checks, of which the later is answered first, and revoked. -/
def overlappingChecks : List StatusCacheAction :=
  [.checkStatus 0 sampleStatus 0 0, .checkStatus 1 sampleStatus 0 0, .answer 1 (.ok true) 1,
    .answer 0 (.ok false) 2]

/-- Two checks that overlap, answered in the order in which they were begun, and a call that is
served the later answer within the bound. -/
def overlappingThenServed : List StatusCacheAction :=
  [.checkStatus 0 sampleStatus 0 0, .checkStatus 1 sampleStatus 1 1, .answer 0 (.ok false) 2,
    .answer 1 (.ok true) 3, .checkStatus 2 sampleStatus 8 8]

def bitsReturned (w : StatusCacheWorld) : List (Nat × Bool) :=
  w.returned.map fun r => (r.call, r.bit.revoked)

def servesStale (w : StatusCacheWorld) : Bool :=
  w.returned.any fun r => decide (r.bit.check.call ≠ r.call ∧ r.bit.check.begun < r.time - 10)

def clearsRevoked (w : StatusCacheWorld) : Bool :=
  match w.returned with
  | [r, r'] => r.bit.revoked && !r'.bit.revoked && decide (r.status = r'.status) &&
    decide ([r'.bit.check, r.bit.check].Sublist w.checks)
  | _ => false

end Sample

end StatusCacheWorld

end KyaOs
