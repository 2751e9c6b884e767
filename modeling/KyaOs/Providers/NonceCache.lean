import KyaOs.Expiry.Records
import KyaOs.Js.Throws
import KyaOs.Js.Number
import Mathlib.Data.Rat.Floor

/-!
# Replay admission

How long an admitted nonce is kept, and the in-memory cache that keeps it. Times are
milliseconds on the clock. Sums of finite numbers are taken exactly.
-/

namespace KyaOs.Providers

open Js Expiry

/-- `nonceRetentionSeconds`. -/
def nonceRetentionSeconds (configuredTtlSeconds validUntilSeconds : JsNumber) (nowMs : ℚ) :
    Except Error ℚ :=
  match configuredTtlSeconds, validUntilSeconds with
  | .finite ttl, .finite validUntil =>
    if ttl < 0 then
      .error (.rangeError
        (js "Nonce retention requires a non-negative TTL and a bounded acceptance window"))
    else .ok (max (max 1 ttl) (⌈validUntil + 1 - nowMs / 1000⌉ : ℚ))
  | _, _ =>
    .error (.rangeError
      (js "Nonce retention requires a non-negative TTL and a bounded acceptance window"))

theorem nonceRetentionSeconds_eq_ok {configuredTtl validUntil : JsNumber} {now seconds : ℚ}
    (h : nonceRetentionSeconds configuredTtl validUntil now = .ok seconds) :
    ∃ bound, validUntil = .finite bound ∧ 1 ≤ seconds ∧
      (bound + 1) * 1000 ≤ now + seconds * 1000 := by
  unfold nonceRetentionSeconds at h
  split at h
  · rename_i ttl bound
    split at h
    · cases h
    · obtain rfl := Except.ok.inj h
      refine ⟨bound, rfl, le_max_of_le_left (le_max_left 1 ttl), ?_⟩
      have hceil : bound + 1 - now / 1000 ≤ (⌈bound + 1 - now / 1000⌉ : ℚ) := Int.le_ceil _
      have hmax := le_max_right (max 1 ttl) (⌈bound + 1 - now / 1000⌉ : ℚ)
      linarith
  · cases h

/-- What `JSON.stringify([agentDid ?? null, nonce])` tells apart. -/
abbrev NonceKey := Option JsString × JsString

structure MemoryNonceCacheProvider where
  nonces : Records NonceKey
  writesSinceSweep : Nat
  lastSweepAt : ℚ

namespace MemoryNonceCacheProvider

/-- `SWEEP_EVERY`. -/
def sweepEvery : Nat := 1000

/-- `SWEEP_INTERVAL_MS`. -/
def sweepIntervalMs : ℚ := 60000

variable (cache : MemoryNonceCacheProvider)

def evictExpired (now : ℚ) : MemoryNonceCacheProvider :=
  { cache with nonces := cache.nonces.evict now }

def sweepIfDue (now : ℚ) : MemoryNonceCacheProvider :=
  if cache.writesSinceSweep + 1 < sweepEvery ∧ now - cache.lastSweepAt < sweepIntervalMs then
    { cache with writesSinceSweep := cache.writesSinceSweep + 1 }
  else
    { cache with writesSinceSweep := 0, lastSweepAt := now }.evictExpired now

/-- `consume`, its answer and the cache after it. -/
def consume (now : ℚ) (nonce : JsString) (ttlSeconds : ℚ) (agentDid : Option JsString) :
    Except Error Bool × MemoryNonceCacheProvider :=
  if ttlSeconds ≤ 0 then
    (.error (.rangeError (js "Nonce TTL must be a positive finite number")), cache)
  else if cache.nonces.isVacant now (agentDid, nonce) then
    (.ok true, sweepIfDue
      { cache with
        nonces := Function.update cache.nonces (agentDid, nonce)
          (some (now + ttlSeconds * 1000)) } now)
  else (.ok false, cache)

def cleanup (now : ℚ) : MemoryNonceCacheProvider := cache.evictExpired now

variable {cache} {now ttlSeconds bound : ℚ} {nonce : JsString} {agentDid : Option JsString}
  {key : NonceKey}

theorem consume_eq_true (h : (cache.consume now nonce ttlSeconds agentDid).1 = .ok true) :
    cache.nonces.Vacant now (agentDid, nonce) ∧
      (cache.consume now nonce ttlSeconds agentDid).2 = sweepIfDue
        { cache with
          nonces := Function.update cache.nonces (agentDid, nonce)
            (some (now + ttlSeconds * 1000)) } now := by
  unfold consume at h ⊢
  split at h
  · cases h
  · rename_i hpositive
    split at h
    · rename_i hvacant
      simp only [hpositive, hvacant, if_true, if_false, and_true]
      exact Records.isVacant_iff.mp hvacant
    · cases h

/-- Only an admission changes the cache. -/
theorem consume_unchanged (h : (cache.consume now nonce ttlSeconds agentDid).1 ≠ .ok true) :
    (cache.consume now nonce ttlSeconds agentDid).2 = cache := by
  unfold consume at h ⊢
  split
  · rfl
  · rename_i hpositive
    split
    · rename_i hvacant
      simp [hpositive, hvacant] at h
    · rfl

theorem remembers_sweepIfDue (h : cache.nonces.Remembers now key bound) :
    (cache.sweepIfDue now).nonces.Remembers now key bound := by
  unfold sweepIfDue
  split
  · exact h
  · exact h.evict

/-- No `consume` breaks a promise of the cache. -/
theorem remembers_consume (h : cache.nonces.Remembers now key bound) :
    (cache.consume now nonce ttlSeconds agentDid).2.nonces.Remembers now key bound := by
  by_cases hconsumed : (cache.consume now nonce ttlSeconds agentDid).1 = .ok true
  · obtain ⟨hvacant, hcache⟩ := consume_eq_true hconsumed
    rw [hcache]
    exact remembers_sweepIfDue (h.write hvacant)
  · rwa [consume_unchanged hconsumed]

/-- What an admission promises. -/
theorem remembers_admitted (h : (cache.consume now nonce ttlSeconds agentDid).1 = .ok true)
    (hbound : bound ≤ now + ttlSeconds * 1000) :
    (cache.consume now nonce ttlSeconds agentDid).2.nonces.Remembers now (agentDid, nonce)
      bound := by
  obtain ⟨-, hcache⟩ := consume_eq_true h
  rw [hcache]
  exact remembers_sweepIfDue (.written hbound)

end MemoryNonceCacheProvider

end KyaOs.Providers
