import KyaOs.Delegation.UntrustedChain

/-!
# What the checks of a chain walk read and quote

A check throws at a member it reads of `undefined` or `null`, at a list it cannot go
through, and at a text it quotes that has none. `Quiet` says that it does not; each check
is quiet exactly when the values it reaches are legible, a condition on the credential and
the one before it.
-/

namespace KyaOs.Untrusted

open Js Untyped JsonValue Concurrency Middleware

variable {runtime : Runtime} {deps : ChainDeps}

/-- The check goes on or rejects. -/
def Quiet {α : Type} (check : Check α) : Prop := ∀ error, check ≠ .error (.thrown error)

section Quiet

variable {α β : Type} {reason : Except Error JsString}

@[simp] theorem quiet_pure {a : α} : Quiet (pure a : Check α) := by
  intro error h
  cases h

@[simp] theorem quiet_attempt {result : Except Error α} :
    Quiet (attempt result) ↔ ∃ a, result = .ok a := by
  cases result with
  | ok a => simp [attempt, Quiet]
  | error e => simp [attempt, Quiet]

@[simp] theorem attempt_eq_ok {result : Except Error α} {a : α} :
    attempt result = .ok a ↔ result = .ok a := by
  cases result <;> simp [attempt]

theorem quiet_bind {check : Check α} {next : α → Check β} :
    Quiet (check >>= next) ↔ Quiet check ∧ ∀ a, check = .ok a → Quiet (next a) := by
  cases check with
  | ok a => simp [bind, Except.bind, Quiet]
  | error stop => simp [bind, Except.bind, Quiet]

@[simp] theorem quiet_rejectWith :
    Quiet (rejectWith reason : Check α) ↔ ∃ text, reason = .ok text := by
  rw [rejectWith, quiet_bind, quiet_attempt]
  refine and_iff_left fun text _ error h => ?_
  cases h

@[simp] theorem quiet_rejectIf {p : Bool} :
    Quiet (rejectIf p reason) ↔ (p = true → ∃ text, reason = .ok text) := by
  cases p with
  | true => simp [rejectIf]
  | false => exact iff_of_true quiet_pure (fun h => absurd h Bool.false_ne_true)

@[simp] theorem rejectIf_eq_ok {p : Bool} {done : Unit} :
    rejectIf p reason = .ok done ↔ p = false := by
  cases p with
  | true => cases reason <;> simp [rejectIf, rejectWith, attempt, bind, Except.bind]
  | false => simp [rejectIf]

/-- `if (p) return { valid: false, reason }`, and what comes after it. -/
theorem quiet_rejectIf_bind {p : Bool} {next : Unit → Check α} :
    Quiet (rejectIf p reason >>= next) ↔
      (p = true → ∃ text, reason = .ok text) ∧ (p = false → Quiet (next ())) := by
  simp only [quiet_bind, quiet_rejectIf, rejectIf_eq_ok]
  exact and_congr_right fun _ => ⟨fun h => h (), fun h _ => h⟩

theorem bind_returns {x : Except Error α} {f : α → Except Error β} :
    (∃ b, (x >>= f) = .ok b) ↔ (∃ a, x = .ok a) ∧ ∀ a, x = .ok a → ∃ b, f a = .ok b := by
  cases x with
  | ok a => simp [bind, Except.bind]
  | error e => simp [bind, Except.bind]

/-- The same, after a call that returns just one value, and under a known condition. -/
theorem bind_returns_of {x : Except Error α} {f : α → Except Error β} {P : Prop} {v : α}
    (h : ∀ a, x = .ok a ↔ P ∧ v = a) :
    (∃ b, (x >>= f) = .ok b) ↔ P ∧ ∃ b, f v = .ok b := by
  rw [bind_returns]
  simp only [h, exists_and_left, exists_eq', and_true]
  exact and_congr_right fun hP => ⟨fun hf => hf v ⟨hP, rfl⟩, fun hf a ha => ha.2 ▸ hf⟩

/-- A call that returns just one value, and under a known condition. -/
theorem quiet_attempt_bind {x : Except Error α} {next : α → Check β} {P : Prop} {v : α}
    (h : ∀ a, x = .ok a ↔ P ∧ v = a) :
    Quiet (attempt x >>= next) ↔ P ∧ Quiet (next v) := by
  simp only [quiet_bind, quiet_attempt, attempt_eq_ok, h, exists_and_left, exists_eq', and_true]
  exact and_congr_right fun hP => ⟨fun hf => hf v ⟨hP, rfl⟩, fun hf a ha => ha.2 ▸ hf⟩

/-- What follows a call does not depend on its value. -/
theorem forall_ok {x : Except Error α} {Q : α → Prop} {P : Prop} (hx : ∃ a, x = .ok a)
    (h : ∀ a, Q a ↔ P) : (∀ a, x = .ok a → Q a) ↔ P := by
  obtain ⟨a, ha⟩ := hx
  exact ⟨fun hQ => (h a).mp (hQ a ha), fun hP a _ => (h a).mpr hP⟩

theorem pure_returns {a : α} : ∃ b, (pure a : Except Error α) = .ok b := ⟨a, rfl⟩

/-- What follows a text does not depend on it where the text is only quoted. -/
theorem forall_text {value : Untyped} {P : Prop} :
    (∀ text, value.text runtime = .ok text → P) ↔ (value.printable = true → P) := by
  rw [← @text_returns runtime, forall_exists_index]

/-- A text that begins by quoting a value. -/
theorem quote_returns {value : Untyped} {next : JsString → Except Error α} :
    (∃ a, (value.text runtime >>= next) = .ok a) ↔
      value.printable = true ∧ ∀ text, value.text runtime = .ok text → ∃ a, next text = .ok a := by
  rw [bind_returns, text_returns]

theorem quote_and {value : Untyped} {P : Prop} :
    (value.printable = true ∧ (value.printable = true → P)) ↔ value.printable = true ∧ P :=
  and_congr_right fun hprintable => ⟨fun h => h hprintable, fun h _ => h⟩

end Quiet

/-- All these values can be quoted. -/
def Quotable (values : List Untyped) : Prop := ∀ value ∈ values, value.printable = true

@[simp] theorem quotable_nil : Quotable [] := fun _ h => absurd h List.not_mem_nil

@[simp] theorem quotable_cons {value : Untyped} {values : List Untyped} :
    Quotable (value :: values) ↔ value.printable = true ∧ Quotable values :=
  List.forall_mem_cons

/-- The members the walk reads of a credential. -/
def record (vc : Untyped) : Record where
  id := (delegation? vc).member? (js "id")
  issuerDid := (delegation? vc).member? (js "issuerDid")
  subjectDid := (delegation? vc).member? (js "subjectDid")
  parentId := (delegation? vc).member? (js "parentId")
  constraints := (delegation? vc).member? (js "constraints")

/-- A credential whose record can be read. -/
structure Extractable (vc : Untyped) : Prop where
  delegation : (delegation? vc).isObject = true
  id : (vc.member? (js "id")).truthy = false → (record vc).id.printable = true

theorem extractDelegationFromVC_eq_ok {vc : Untyped} {delegation : Record} :
    extractDelegationFromVC runtime vc = .ok delegation ↔
      Extractable vc ∧ record vc = delegation := by
  have hreads : Extractable vc ↔ (delegation? vc).isObject = true ∧
      ((vc.member? (js "id")).truthy = false → (record vc).id.printable = true) :=
    ⟨fun h => ⟨h.delegation, h.id⟩, fun h => ⟨h.1, h.2⟩⟩
  rw [hreads, extractDelegationFromVC]
  cases hobject : (delegation? vc).isObject with
  | false => simp [bind, Except.bind, throw, throwThe, MonadExceptOf.throw]
  | true =>
      cases htruthy : (vc.member? (js "id")).truthy with
      | true => simp [record, pure, Except.pure]
      | false =>
          simp only [Bool.not_true, Bool.false_eq_true, if_false, Bool.not_false, if_true,
            bind_eq_ok, true_and, forall_const]
          simp [pure, Except.pure, record, text_returns]

theorem member_eq_ok {value v : Untyped} {name : JsString} :
    value.member name = .ok v ↔ value.isNullish = false ∧ value.member? name = v := by
  cases value with
  | none => simp [member, isNullish]
  | some w => cases w <;> simp [member, isNullish]

/-- The grant's own bound, after the credential's expiration. -/
theorem bound_returns {delegation : Record} (expiration : Option JsNumber) :
    (∃ found, (delegation.constraints.member (js "notAfter") >>= fun notAfter =>
      match notAfter with
      | none => do
        let bound ← pure none
        pure [expiration, bound]
      | some _ => do
        let seconds ← notAfter.toNumber runtime
        let bound ← pure (some (seconds.scale 1000))
        pure [expiration, bound] : Except Error (List (Option JsNumber))) = .ok found) ↔
      delegation.constraints.isNullish = false ∧
        (delegation.constraints.member? (js "notAfter")).printable = true := by
  rw [bind_returns, member_returns]
  refine and_congr_right fun hconstraints => ?_
  simp only [member_eq_ok, hconstraints, true_and, forall_eq']
  cases hnotAfter : delegation.constraints.member? (js "notAfter") with
  | none => exact iff_of_true ⟨_, rfl⟩ rfl
  | some v =>
      rw [bind_returns, toNumber_returns]
      exact and_iff_left fun _ _ => ⟨_, rfl⟩

theorem deadlines_returns {credential : Presented} {delegation : Record} :
    (∃ found, deadlines runtime credential delegation = .ok found) ↔
      ((Untyped.member? (some credential.value) (js "expirationDate")).truthy = true →
        (Untyped.member? (some credential.value) (js "expirationDate")).printable = true) ∧
      delegation.constraints.isNullish = false ∧
      (delegation.constraints.member? (js "notAfter")).printable = true := by
  simp only [deadlines]
  by_cases htruthy : (Untyped.member? (some credential.value) (js "expirationDate")).truthy = true
  · rw [if_pos htruthy, bind_returns, text_returns]
    simp only [htruthy, forall_const]
    refine and_congr_right fun hprintable => ?_
    obtain ⟨text, htext⟩ := (@text_returns runtime _).mpr hprintable
    constructor
    · exact fun h => (bound_returns _).mp (h text htext)
    · exact fun h _ _ => (bound_returns _).mpr h
  · rw [if_neg htruthy, and_iff_right fun h => absurd h htruthy]
    exact bound_returns none

theorem checkBefore_quiet {state : WalkState} {credential : Presented} :
    Quiet (checkBefore runtime deps state credential) ↔
      Extractable (some credential.value) ∧
      ((isRepeated state credential (record (some credential.value)) ||
          isUnresolvable deps credential) = true →
        Quotable [(record (some credential.value)).id]) := by
  simp only [checkBefore, quiet_bind, quiet_attempt, attempt_eq_ok, extractDelegationFromVC_eq_ok,
    exists_and_left, exists_eq', and_true, and_imp]
  refine and_congr_right fun hreads => ?_
  simp only [hreads, forall_const]
  rw [forall_eq']
  simp only [quiet_rejectIf, rejectIf_eq_ok, quiet_pure, quote_returns,
    pure_returns, quotable_cons, quotable_nil, and_true, implies_true, Bool.or_eq_true]
  cases isRepeated state credential (record (some credential.value)) <;> simp

theorem checkBefore_eq_ok {state : WalkState} {credential : Presented} {delegation : Record} :
    checkBefore runtime deps state credential = .ok delegation ↔
      Extractable (some credential.value) ∧ record (some credential.value) = delegation ∧
      (isRepeated state credential (record (some credential.value)) ||
        isUnresolvable deps credential) = false := by
  simp only [checkBefore, bind_eq_ok, attempt_eq_ok, extractDelegationFromVC_eq_ok, and_assoc,
    exists_and_left, exists_eq_left', rejectIf_eq_ok]
  simp only [exists_const, Bool.or_eq_false_iff, pure, Except.pure, Except.ok.injEq]
  tauto

/-- The first credential: what its verdict or warning quotes. -/
def LegibleRoot (deps : ChainDeps) (credential : Presented) : Prop :=
  let delegation := record (some credential.value)
  if delegation.parentId.truthy then Quotable [delegation.id, delegation.parentId]
  else if isUntrustedRoot deps credential then Quotable [delegation.id]
  else isSignedBy credential delegation.issuerDid = false →
    Quotable [delegation.id, delegation.issuerDid]

theorem checkRoot_quiet {credential : Presented} :
    Quiet (checkRoot runtime deps (record (some credential.value)) credential) ↔
      LegibleRoot deps credential := by
  simp only [checkRoot, LegibleRoot, quiet_rejectIf_bind, quiet_attempt]
  split_ifs <;>
    simp [*, quote_returns, forall_text, quote_and, pure_returns, -bind_pure_comp]

/-- What a spread goes through. -/
def isIterable : JsonValue JsNumber → Bool
  | .array _ | .string _ => true
  | _ => false

/-- The elements of an iterable value. -/
def elements (value : JsonValue JsNumber) : List (JsonValue JsNumber) :=
  match iterate value with
  | .ok items => items
  | .error _ => []

theorem iterate_eq_ok {value : JsonValue JsNumber} {items : List (JsonValue JsNumber)} :
    iterate value = .ok items ↔ isIterable value = true ∧ elements value = items := by
  cases value <;> simp [iterate, isIterable, elements]

/-- The two lists of flat scopes of a credential. -/
def scopeLists (vc : Untyped) : JsonValue JsNumber × JsonValue JsNumber :=
  (((delegation? vc).member? (js "scopes")).orElse (.array []),
    (((delegation? vc).member? (js "constraints")).member? (js "scopes")).orElse (.array []))

def flat (vc : Untyped) : List (JsonValue JsNumber) :=
  elements (scopeLists vc).1 ++ elements (scopeLists vc).2

def HasFlatScopes (vc : Untyped) : Prop :=
  isIterable (scopeLists vc).1 = true ∧ isIterable (scopeLists vc).2 = true

theorem flatScopes_eq_ok {vc : Untyped} {scopes : List (JsonValue JsNumber)} :
    flatScopes vc = .ok scopes ↔ HasFlatScopes vc ∧ flat vc = scopes := by
  simp only [flatScopes, bind_eq_ok, iterate_eq_ok, HasFlatScopes, scopeLists, flat]
  simp [pure, Except.pure, and_assoc]

/-- The scope authority of a credential whose scopes can be read. -/
def authority (vc : Untyped) : List (JsonValue JsNumber) :=
  (flat vc).map (fun resource =>
    .object [(js "resource", resource), (js "matcher", .string (js "exact"))]) ++
      elements (crispScopes vc)

theorem scopeAuthority_eq_ok {vc : Untyped} {scopes : List (JsonValue JsNumber)} :
    scopeAuthority vc = .ok scopes ↔
      (HasFlatScopes vc ∧ isIterable (crispScopes vc) = true) ∧ authority vc = scopes := by
  simp only [scopeAuthority, bind_eq_ok, flatScopes_eq_ok, iterate_eq_ok, authority]
  simp [pure, Except.pure, and_assoc]

theorem isNullish_of_isObject {value : Untyped} (h : value.isObject = true) :
    value.isNullish = false := by
  cases value with
  | none => cases h
  | some v => cases v <;> first | rfl | cases h

theorem isNullish_of_member {value : Untyped} {name : JsString}
    (h : (value.member? name).isNullish = false) : value.isNullish = false := by
  cases value with
  | none => cases h
  | some v => cases v <;> first | rfl | cases h

theorem delegation!_eq_ok {vc delegation : Untyped} :
    delegation! vc = .ok delegation ↔
      (vc.member? (js "credentialSubject")).isNullish = false ∧ delegation? vc = delegation := by
  simp only [delegation!, bind_eq_ok, member_eq_ok, delegation?]
  constructor
  · rintro ⟨subject, ⟨-, rfl⟩, hsubject, hdelegation⟩
    exact ⟨hsubject, hdelegation⟩
  · rintro ⟨hsubject, hdelegation⟩
    exact ⟨_, ⟨isNullish_of_member hsubject, rfl⟩, hsubject, hdelegation⟩

/-- The delegation of a credential is read without an error. -/
theorem delegation!_of_isObject {vc delegation : Untyped} (h : (delegation? vc).isObject = true) :
    delegation! vc = .ok delegation ↔ delegation? vc = delegation := by
  rw [delegation!_eq_ok]
  exact and_iff_right (isNullish_of_member (isNullish_of_isObject h))

theorem getDelegationScopes_eq_ok {vc : Untyped} {scopes : List (JsonValue JsNumber)}
    (h : (delegation? vc).isObject = true) :
    getDelegationScopes vc = .ok scopes ↔ HasFlatScopes vc ∧ distinct (flat vc) = scopes := by
  simp only [getDelegationScopes, bind_eq_ok, delegation!_of_isObject h, iterate_eq_ok,
    member_eq_ok, HasFlatScopes, scopeLists, flat]
  simp [isNullish_of_isObject h, pure, Except.pure, and_assoc]

/-- Some flat or crisp entries a child may not have, as its verdict quotes them. -/
def LegibleEntries (entries : List (JsonValue JsNumber)) : Prop :=
  ∀ entry ∈ entries, Quotable [Untyped.member? (some entry) (js "matcher"),
    Untyped.member? (some entry) (js "resource")]

theorem matcherTexts_returns {entries : List (JsonValue JsNumber)} :
    (∃ texts, entries.mapM (matcherText runtime) = .ok texts) ↔ LegibleEntries entries := by
  induction entries with
  | nil => exact iff_of_true ⟨[], rfl⟩ fun _ h => absurd h List.not_mem_nil
  | cons entry rest ih =>
      rw [LegibleEntries, List.forall_mem_cons, List.mapM_cons, bind_returns, ← LegibleEntries,
        ← ih]
      have htext : (∃ text, matcherText runtime entry = .ok text) ↔
          Quotable [Untyped.member? (some entry) (js "matcher"),
            Untyped.member? (some entry) (js "resource")] := by
        simp only [matcherText, quote_returns, forall_text, quote_and, pure_returns,
          quotable_cons, quotable_nil, and_true, implies_true]
      rw [htext]
      refine and_congr_right fun hquotable => ?_
      obtain ⟨text, htext⟩ := htext.mpr hquotable
      simp only [bind_returns, pure_returns, implies_true, and_true]
      exact ⟨fun h => h text htext, fun h _ _ => h⟩

/-- What `validateScopeAttenuation` reads and quotes. -/
def LegibleAttenuation (runtime : Runtime) (parent child : Untyped) : Prop :=
  let within := authorityContains runtime (authority parent)
  let widened := (distinct (flat child)).filter fun scope =>
    !within (.object [(js "resource", scope), (js "matcher", .string (js "exact"))])
  (HasFlatScopes parent ∧ isIterable (crispScopes parent) = true) ∧
  (authority parent ≠ [] → HasFlatScopes child ∧
    if distinct (flat child) = [] ∧ hasNoElements (crispScopes child) then
      Quotable [(record child).id, (record parent).id]
    else ∃ entries, crispScopes child = .array entries ∧
      if entries.filter (!within ·) ≠ [] then
        Quotable [(record child).id, (record parent).id] ∧
          LegibleEntries (entries.filter (!within ·))
      else widened ≠ [] → Quotable [(record child).id, (record parent).id] ∧
        printableItems widened = true)

theorem validateScopeAttenuation_returns {parent child : Untyped}
    (hparent : (delegation? parent).isObject = true)
    (hchild : (delegation? child).isObject = true) :
    (∃ validation, validateScopeAttenuation runtime parent child = .ok validation) ↔
      LegibleAttenuation runtime parent child := by
  have hid : ∀ {vc : Untyped}, (delegation? vc).isObject = true →
      ∀ id, (delegation? vc).member (js "id") = .ok id ↔ True ∧ (record vc).id = id := by
    intro vc hvc id
    rw [member_eq_ok, isNullish_of_isObject hvc]
    exact and_congr_left fun _ => iff_of_true rfl trivial
  have hdelegation : ∀ {vc : Untyped}, (delegation? vc).isObject = true →
      ∀ delegation, delegation! vc = .ok delegation ↔ True ∧ delegation? vc = delegation := by
    intro vc hvc delegation
    rw [delegation!_of_isObject hvc, true_and]
  simp only [validateScopeAttenuation, LegibleAttenuation]
  rw [bind_returns_of (hdelegation hparent), true_and, bind_returns_of (hid hparent), true_and,
    bind_returns_of (hdelegation hchild), true_and, bind_returns_of (hid hchild), true_and,
    bind_returns_of fun _ => scopeAuthority_eq_ok]
  refine and_congr_right fun _ => ?_
  by_cases hunrestricted : authority parent = []
  · simp [hunrestricted, pure_returns]
  rw [if_neg (by simpa using hunrestricted), bind_returns_of fun _ =>
    getDelegationScopes_eq_ok hchild]
  simp only [ne_eq, hunrestricted, not_false_eq_true, forall_const, List.length_eq_zero_iff]
  refine and_congr_right fun _ => ?_
  by_cases homits : distinct (flat child) = [] ∧ hasNoElements (crispScopes child) = true
  · rw [if_pos homits, if_pos homits]
    simp only [quote_returns, forall_text, quote_and, pure_returns, quotable_cons, quotable_nil,
      and_true]
  rw [if_neg homits, if_neg homits]
  cases hcrisp : crispScopes child with
  | array entries =>
      simp only [array.injEq, exists_eq_left']
      have hwiden : ∀ kept, filterArray (.array entries)
          (!authorityContains runtime (authority parent) ·) = .ok kept ↔
            True ∧ entries.filter (!authorityContains runtime (authority parent) ·) = kept := by
        simp [filterArray]
      rw [bind_returns_of hwiden, true_and]
      simp only [gt_iff_lt, List.length_pos_iff, ne_eq]
      by_cases hentries : entries.filter (!authorityContains runtime (authority parent) ·) = []
      · simp only [hentries, not_true, if_false]
        split_ifs with hscopes
        · exact iff_of_true pure_returns fun h => absurd hscopes h
        · simp only [bind_returns, text_returns, forall_text, quote_and, pure_returns,
            joinTexts_returns, quotable_cons, quotable_nil, and_true, implies_true, and_assoc,
            hscopes, not_false_eq_true, forall_const]
      · simp only [hentries, not_false_eq_true, if_true]
        simp only [bind_returns, text_returns, forall_text, quote_and, pure_returns,
          matcherTexts_returns, quotable_cons, quotable_nil, and_true, implies_true, and_assoc]
  | _ => simp [filterArray, bind, Except.bind]

/-- What a link to the credential before quotes and reads. -/
def LegibleLink (runtime : Runtime) (credential previous : Presented) : Prop :=
  let delegation := record (some credential.value)
  let previousDelegation := record (some previous.value)
  if !strictEquals? delegation.parentId previousDelegation.id then
    Quotable [delegation.id, delegation.parentId, previousDelegation.id]
  else if !strictEquals? delegation.issuerDid previousDelegation.subjectDid then
    Quotable [delegation.id, delegation.issuerDid, previousDelegation.subjectDid]
  else if !isSignedBy credential previousDelegation.subjectDid then
    Quotable [delegation.id, previousDelegation.subjectDid]
  else LegibleAttenuation runtime (some previous.value) (some credential.value)

theorem checkLink_quiet {credential previous : Presented}
    (hprevious : (delegation? (some previous.value)).isObject = true)
    (hcredential : (delegation? (some credential.value)).isObject = true) :
    Quiet (checkLink runtime (record (some credential.value)) credential
      (record (some previous.value)) previous) ↔ LegibleLink runtime credential previous := by
  have hlast : ∀ validation : ScopeValidation, Quiet (if validation.valid = true then pure ()
      else throw (.rejected validation.reason) : Check Unit) := by
    intro validation error h
    split at h <;> cases h
  simp only [checkLink, LegibleLink, quiet_rejectIf_bind]
  simp only [quiet_bind, quiet_attempt, validateScopeAttenuation_returns hprevious hcredential,
    hlast, implies_true, and_true, bind_returns, text_returns, forall_text, quote_and, pure_returns]
  split_ifs <;> simp [*]

/-- The deadlines of a credential can be read. -/
def LegibleDeadlines (credential : Presented) : Prop :=
  let expirationDate := Untyped.member? (some credential.value) (js "expirationDate")
  let constraints := (record (some credential.value)).constraints
  (expirationDate.truthy = true → expirationDate.printable = true) ∧
  constraints.isNullish = false ∧ (constraints.member? (js "notAfter")).printable = true

/-- The audience includes the server. -/
def includesServer (deps : ChainDeps) (audience : Untyped) : Bool :=
  match audience with
  | some (.string did) => !audience.truthy || did == deps.serverDid
  | some (.array dids) => dids.any (sameValueZero (.string deps.serverDid))
  | _ => true

/-- The audience can be looked into. -/
def HasAudience (delegation : Record) : Prop :=
  let audience := delegation.constraints.member? (js "audience")
  audience.truthy = true →
    (∃ did, audience = some (.string did)) ∨ ∃ dids, audience = some (.array dids)

/-- A re-delegation that has no audience. -/
def isUnbound (delegation : Record) : Bool :=
  delegation.parentId.truthy && !(delegation.constraints.member? (js "audience")).truthy

/-- What the audience constraint of a credential makes the walk read and quote. -/
def LegibleAudience (deps : ChainDeps) (delegation : Record) : Prop :=
  HasAudience delegation ∧
  if !includesServer deps (delegation.constraints.member? (js "audience")) then
    Quotable [delegation.id]
  else isUnbound delegation = true → Quotable [delegation.id, delegation.parentId]

theorem verifyDelegationAudience_eq_ok {delegation : Record} {included : Bool}
    (h : delegation.constraints.isNullish = false) :
    verifyDelegationAudience delegation deps.serverDid = .ok included ↔
      HasAudience delegation ∧
        includesServer deps (delegation.constraints.member? (js "audience")) = included := by
  simp only [HasAudience, verifyDelegationAudience, bind_eq_ok, member_eq_ok, h, true_and,
    exists_eq_left',
    includesServer]
  generalize delegation.constraints.member? (js "audience") = audience
  cases htruthy : audience.truthy with
  | false =>
      cases audience with
      | none => simp [pure, Except.pure]
      | some v =>
          cases v with
          | array _ | object _ | refused _ => cases htruthy
          | _ => simp [pure, Except.pure]
  | true =>
      cases audience with
      | none => cases htruthy
      | some v =>
          cases v <;> simp [pure, Except.pure, throw, throwThe, MonadExceptOf.throw]

theorem checkAudience_quiet {delegation : Record}
    (h : delegation.constraints.isNullish = false) :
    Quiet (checkAudience runtime deps delegation) ↔ LegibleAudience deps delegation := by
  have hmember : ∀ audience, delegation.constraints.member (js "audience") = .ok audience ↔
      True ∧ delegation.constraints.member? (js "audience") = audience := by
    simp [member_eq_ok, h]
  simp only [checkAudience, LegibleAudience]
  rw [quiet_attempt_bind fun _ => verifyDelegationAudience_eq_ok h, quiet_rejectIf_bind,
    quiet_attempt_bind hmember, quiet_rejectIf, ← isUnbound]
  simp only [bind_returns, text_returns, forall_text, quote_and, pure_returns]
  refine and_congr_right fun _ => ?_
  split_ifs <;> simp [*]

theorem checkAudience_eq_ok {delegation : Record} {done : Unit}
    (h : delegation.constraints.isNullish = false) :
    checkAudience runtime deps delegation = .ok done ↔
      HasAudience delegation ∧
      includesServer deps (delegation.constraints.member? (js "audience")) = true ∧
      isUnbound delegation = false := by
  simp only [checkAudience, bind_eq_ok, attempt_eq_ok, verifyDelegationAudience_eq_ok h,
    member_eq_ok, h, rejectIf_eq_ok, isUnbound]
  simp

/-- What the place of a credential in the chain makes the walk read and quote. -/
def LegiblePlace (runtime : Runtime) (deps : ChainDeps) (credential : Presented) :
    Option (Record × Presented) → Prop
  | none => LegibleRoot deps credential
  | some (_, previous) => LegibleLink runtime credential previous

/-- What a round reads and quotes after the verifier's answer. -/
def LegibleAfter (runtime : Runtime) (deps : ChainDeps) (state : WalkState)
    (credential : Presented) (verification : Verification) : Prop :=
  let delegation := record (some credential.value)
  if !verification.valid then Quotable [delegation.id]
  else LegibleDeadlines credential ∧ LegibleAudience deps delegation ∧
    (includesServer deps (delegation.constraints.member? (js "audience")) = true →
      isUnbound delegation = false → LegiblePlace runtime deps credential state.previous)

/-- The credential before is one that was read. -/
def WalkState.Read (state : WalkState) : Prop :=
  ∀ delegation credential, state.previous = some (delegation, credential) →
    Extractable (some credential.value) ∧ record (some credential.value) = delegation

theorem checkPlace_quiet {state : WalkState} {credential : Presented} (hstate : state.Read)
    (hcredential : Extractable (some credential.value)) :
    Quiet (checkPlace runtime deps state.previous (record (some credential.value)) credential) ↔
      LegiblePlace runtime deps credential state.previous := by
  cases hprevious : state.previous with
  | none => exact checkRoot_quiet
  | some place =>
      obtain ⟨delegation, previous⟩ := place
      obtain ⟨hread, rfl⟩ := hstate delegation previous hprevious
      simp only [checkPlace, LegiblePlace, quiet_bind, quiet_pure, implies_true, and_true]
      exact checkLink_quiet hread.delegation hcredential.delegation

theorem checkAfter_quiet {state : WalkState} {credential : Presented}
    {verification : Verification} (hstate : state.Read)
    (hcredential : Extractable (some credential.value)) :
    Quiet (checkAfter runtime deps state credential (record (some credential.value))
      verification) ↔ LegibleAfter runtime deps state credential verification := by
  simp only [checkAfter, LegibleAfter]
  rw [quiet_rejectIf_bind]
  cases hvalid : verification.valid with
  | false => simp [bind_returns, text_returns, pure_returns, -bind_pure_comp]
  | true =>
      simp only [Bool.not_true, Bool.false_eq_true, false_implies, true_and, if_false, forall_const]
      rw [quiet_bind, quiet_attempt, deadlines_returns, ← LegibleDeadlines]
      refine and_congr_right fun hdeadlines => ?_
      simp only [attempt_eq_ok]
      refine forall_ok (deadlines_returns.mpr hdeadlines) fun found => ?_
      rw [quiet_bind, checkAudience_quiet hdeadlines.2.1]
      refine and_congr_right fun haudience => ?_
      simp only [checkAudience_eq_ok hdeadlines.2.1, haudience.1, true_and, and_imp]
      have hplace : ∀ expiresAt, Quiet (do
          let warnings ← checkPlace runtime deps state.previous (record (some credential.value))
            credential
          return ({ expiresAt, warnings := state.warnings ++ warnings,
                    seenIds := state.seenIds ++ [(credential, (record (some credential.value)).id)]
                    previous := some (record (some credential.value), credential) } : WalkState)) ↔
            LegiblePlace runtime deps credential state.previous := by
        intro expiresAt
        simp only [quiet_bind, quiet_pure, implies_true, and_true]
        exact checkPlace_quiet hstate hcredential
      simp only [hplace]
      exact ⟨fun h => h (), fun h _ => h⟩

theorem checkAfter_read {state state' : WalkState} {credential : Presented}
    {verification : Verification} (hcredential : Extractable (some credential.value))
    (h : checkAfter runtime deps state credential (record (some credential.value)) verification =
      .ok state') : state'.Read := by
  simp only [checkAfter, bind_eq_ok] at h
  obtain ⟨-, -, found, -, -, -, warnings, -, hstate⟩ := h
  cases hstate
  intro delegation previous hprevious
  cases hprevious
  exact ⟨hcredential, rfl⟩

end KyaOs.Untrusted
