import KyaOs.Delegation.LegibleChecks

/-!
# Where the scope check throws

`scopeSatisfies` spreads two lists of a credential and matches the opt-in entries up to the
first that satisfies the scope: it throws at a list it cannot go through, at an entry that
is `null`, and at a pattern that the entry's kind of matching cannot use.
-/

namespace KyaOs.Untrusted

open Js Untyped JsonValue

variable {runtime : Runtime} {requiredScopeId : JsString}

/-- The pattern's length is within the bound. -/
def isShort (runtime : Runtime) (pattern : Untyped) : Bool :=
  match pattern.length >>= (·.toNumber runtime) with
  | .ok length => !length.gtInt maxRegexLen
  | .error _ => false

/-- What an expression is read from: a value whose length is a number, and that has a text
if it is short enough to be tried. -/
structure LegibleRegex (runtime : Runtime) (requiredScopeId : JsString) (pattern : Untyped) :
    Prop where
  length : ∃ length, pattern.length = .ok length ∧ length.printable = true
  text : requiredScopeId.length ≤ maxValueLen → isShort runtime pattern = true →
    pattern.printable = true

theorem legibleRegex_iff {pattern : Untyped} :
    LegibleRegex runtime requiredScopeId pattern ↔
      (∃ length, pattern.length = .ok length ∧ length.printable = true) ∧
      (requiredScopeId.length ≤ maxValueLen → isShort runtime pattern = true →
        pattern.printable = true) :=
  ⟨fun h => ⟨h.length, h.text⟩, fun h => ⟨h.1, h.2⟩⟩

/-- A pattern whose length was read is tried if it is short, and the scope is. -/
theorem tryRegex_returns {pattern : Untyped} {length : JsNumber} :
    (∃ hit, (if (length.gtInt maxRegexLen ||
          decide (requiredScopeId.length > maxValueLen)) = true then pure false
        else do
          let text ← pattern.text runtime
          if nestedQuantifier text = true then pure false
          else match runtime.regExp (js "^(?:" ++ text ++ js ")$") with
            | some test => pure (test requiredScopeId)
            | none => pure false : Except Error Bool) = .ok hit) ↔
      (requiredScopeId.length ≤ maxValueLen → (!length.gtInt maxRegexLen) = true →
        pattern.printable = true) := by
  split_ifs with hlong
  · refine iff_of_true pure_returns fun hvalue hlength => ?_
    rw [Bool.not_eq_true'] at hlength
    simp [hlength, Nat.not_lt.mpr hvalue] at hlong
  · simp only [Bool.or_eq_true, decide_eq_true_eq, not_or, Bool.not_eq_true, not_lt] at hlong
    rw [quote_returns]
    simp only [hlong.1, hlong.2, Bool.not_false, forall_const]
    refine and_iff_left fun text _ => ?_
    split_ifs
    · exact pure_returns
    · split
      · exact pure_returns
      · exact pure_returns

theorem matchRegex_returns {pattern : Untyped} :
    (∃ hit, matchRegex runtime pattern requiredScopeId = .ok hit) ↔
      LegibleRegex runtime requiredScopeId pattern := by
  rw [legibleRegex_iff, matchRegex, bind_returns]
  cases hlength : pattern.length with
  | error error => simp
  | ok length =>
      simp only [Except.ok.injEq, exists_eq', exists_eq_left', forall_eq', true_and]
      rw [bind_returns, toNumber_returns]
      refine and_congr_right fun hprintable => ?_
      obtain ⟨x, hx⟩ := (@toNumber_returns runtime _).mpr hprintable
      have hshort : isShort runtime pattern = !x.gtInt maxRegexLen := by
        simp [isShort, hlength, bind, Except.bind, hx]
      simp only [hx, Except.ok.injEq, forall_eq', hshort]
      exact tryRegex_returns

/-- What matching a pattern needs of it. -/
def LegiblePattern (runtime : Runtime) (requiredScopeId : JsString) (pattern matcher : Untyped) :
    Prop :=
  match matcher with
  | some (.string kind) =>
    match scopeMatcher? kind with
    | none | some .exact => True
    | some .regex => LegibleRegex runtime requiredScopeId pattern
    | some _ => ∃ text, pattern = some (.string text)
  | _ => True

theorem matchScope_returns {pattern matcher : Untyped} :
    (∃ hit, matchScope runtime pattern matcher requiredScopeId = .ok hit) ↔
      LegiblePattern runtime requiredScopeId pattern matcher := by
  rw [matchScope.eq_def, LegiblePattern.eq_def]
  cases matcher with
  | none => simp
  | some v =>
      cases v with
      | string kind =>
          dsimp only
          cases hkind : scopeMatcher? kind with
          | none => simp
          | some known =>
              cases known with
              | exact => simp
              | regex => exact matchRegex_returns
              | plainPrefix | pathPrefix =>
                  cases pattern with
                  | none => simp [member, bind, Except.bind]
                  | some v => cases v <;> simp [member, bind, Except.bind]
      | _ => simp

/-- What the loop over the opt-in entries reads, as far as it gets. -/
def LegibleMatches (runtime : Runtime) (requiredScopeId : JsString) :
    List (JsonValue JsNumber) → Prop
  | [] => True
  | entry :: rest =>
    let resource := Untyped.member? (some entry) (js "resource")
    let matcher := Untyped.member? (some entry) (js "matcher")
    Untyped.isNullish (some entry) = false ∧
    LegiblePattern runtime requiredScopeId resource matcher ∧
    (matchScope runtime resource matcher requiredScopeId = .ok false →
      LegibleMatches runtime requiredScopeId rest)

theorem firstMatch_returns {entries : List (JsonValue JsNumber)} :
    (∃ result, firstMatch runtime requiredScopeId entries = .ok result) ↔
      LegibleMatches runtime requiredScopeId entries := by
  induction entries with
  | nil => simp [firstMatch, LegibleMatches]
  | cons entry rest ih =>
      rw [firstMatch, LegibleMatches, bind_returns_of fun _ => member_eq_ok]
      refine and_congr_right fun hentry => ?_
      rw [bind_returns_of fun _ => member_eq_ok, and_iff_right hentry, bind_returns,
        matchScope_returns]
      refine and_congr_right fun hpattern => ?_
      obtain ⟨hit, hhit⟩ := (@matchScope_returns runtime requiredScopeId _ _).mpr hpattern
      simp only [hhit, Except.ok.injEq, forall_eq']
      cases hit with
      | true => simp [pure_returns]
      | false => simpa using ih

/-- What the scope check reads. -/
def LegibleScopes (runtime : Runtime) (requiredScopeId : JsString) (vc : Untyped) : Prop :=
  HasFlatScopes vc ∧
  ((flat vc).any (sameValueZero (.string requiredScopeId)) = false →
    isIterable (crispScopes vc) = true ∧
      LegibleMatches runtime requiredScopeId (elements (crispScopes vc)))

theorem scopeSatisfies_returns {vc : Untyped} :
    (∃ result, scopeSatisfies runtime requiredScopeId vc = .ok result) ↔
      LegibleScopes runtime requiredScopeId vc := by
  rw [scopeSatisfies, LegibleScopes, bind_returns_of fun _ => flatScopes_eq_ok]
  refine and_congr_right fun _ => ?_
  cases (flat vc).any (sameValueZero (.string requiredScopeId)) with
  | true => simp [pure_returns]
  | false =>
      simp only [Bool.false_eq_true, if_false, forall_const]
      rw [bind_returns_of fun _ => iterate_eq_ok, firstMatch_returns]

end KyaOs.Untrusted
