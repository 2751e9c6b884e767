import KyaOs.Delegation.LegibleChecks

/-!
# Where chain validation throws

`Legible` says of the credentials alone that chain validation meets nothing it cannot read
or quote as far as it gets. With a verifier and a revocation checker that do not throw,
validation never throws exactly when they are legible.
-/

namespace KyaOs.Untrusted

open Js Untyped JsonValue Concurrency Concurrency.Async Middleware

variable {runtime : Runtime} {deps : ChainDeps}

section Ports

variable {answered : Exchange Gates → Prop} {α β : Type}

/-- A settled check is a known result. -/
theorem settle_eq (check : Check α) :
    settle check = Async.ofExcept (match check with
      | .ok a => .ok (.ok a)
      | .error (.rejected reason) => .ok (.error reason)
      | .error (.thrown error) => .error error) := by
  cases check with
  | ok a => rfl
  | error stop => cases stop <;> rfl

@[simp] theorem neverThrows_settle {check : Check α} :
    NeverThrows answered (settle check) ↔ Quiet check := by
  rw [settle_eq, neverThrows_ofExcept]
  cases check with
  | ok a => simp [Quiet]
  | error stop => cases stop <;> simp [Quiet]

@[simp] theorem returns_settle_ok {check : Check α} {a : α} :
    Returns answered (settle check) (.ok a) ↔ check = .ok a := by
  rw [settle_eq, returns_ofExcept]
  cases check with
  | ok a => simp
  | error stop => cases stop <;> simp

/-- A step that may give a verdict, and what comes after it. -/
theorem neverThrows_verdict {step : GateM (Except (Option JsString) α)}
    {next : Except (Option JsString) α → GateM β}
    (hverdict : ∀ reason, NeverThrows answered (next (.error reason))) :
    NeverThrows answered (step >>= next) ↔
      NeverThrows answered step ∧
        ∀ a, Returns answered step (.ok a) → NeverThrows answered (next (.ok a)) := by
  rw [neverThrows_bind]
  refine and_congr_right fun _ => ⟨fun h a => h (.ok a), fun h result => ?_⟩
  cases result with
  | ok a => exact h a
  | error reason => exact fun _ => hverdict reason

theorem returns_verdict_ok {step : GateM (Except (Option JsString) α)}
    {next : Except (Option JsString) α → GateM (Except (Option JsString) β)} {b : β}
    (hverdict : ∀ reason, next (.error reason) = pure (.error reason)) :
    Returns answered (step >>= next) (.ok b) ↔
      ∃ a, Returns answered step (.ok a) ∧ Returns answered (next (.ok a)) (.ok b) := by
  rw [returns_bind]
  constructor
  · rintro ⟨result, hstep, hnext⟩
    cases result with
    | ok a => exact ⟨a, hstep, hnext⟩
    | error reason => simp [hverdict] at hnext
  · rintro ⟨a, hstep, hnext⟩
    exact ⟨.ok a, hstep, hnext⟩

/-- A credential that the verifier is asked about. -/
def isAsked (deps : ChainDeps) (state : WalkState) (credential : Presented) : Bool :=
  !isRepeated state credential (record (some credential.value)) &&
    !isUnresolvable deps credential

/-- What a round reads and quotes before the verifier is asked. -/
def LegibleBefore (deps : ChainDeps) (state : WalkState) (credential : Presented) : Prop :=
  Extractable (some credential.value) ∧
    (isAsked deps state credential = false → Quotable [(record (some credential.value)).id])

/-- What the verifier may answer in the walk. -/
def Answers (answered : Exchange Gates → Prop) (deps : ChainDeps) (leaf : Presented)
    (skipSignature : Bool) (credential : Presented) (verification : Verification) : Prop :=
  Returns answered (deps.verify credential (skipSignature && credential.object = leaf.object))
    verification

/-- What the walk reads and quotes as far as it gets, and then what comes after it. -/
def LegibleWalk (answered : Exchange Gates → Prop) (runtime : Runtime) (deps : ChainDeps)
    (leaf : Presented) (skipSignature : Bool) (after : Prop) : WalkState → List Presented → Prop
  | _, [] => after
  | state, credential :: rest =>
    LegibleBefore deps state credential ∧
    (isAsked deps state credential = true → ∀ verification,
      Answers answered deps leaf skipSignature credential verification →
        LegibleAfter runtime deps state credential verification ∧
        ∀ state', checkAfter runtime deps state credential (record (some credential.value))
            verification = .ok state' →
          LegibleWalk answered runtime deps leaf skipSignature after state' rest)

variable {leaf credential : Presented} {skipSignature : Bool} {state : WalkState}

theorem checkCredential_returns {state' : WalkState} :
    Returns answered (checkCredential runtime deps leaf skipSignature state credential)
        (.ok state') ↔
      Extractable (some credential.value) ∧ isAsked deps state credential = true ∧
      ∃ verification, Answers answered deps leaf skipSignature credential verification ∧
        checkAfter runtime deps state credential (record (some credential.value)) verification =
          .ok state' := by
  rw [checkCredential, returns_verdict_ok]
  swap
  · exact fun _ => rfl
  simp only [returns_settle_ok, checkBefore_eq_ok, returns_bind]
  constructor
  · rintro ⟨_, ⟨hreads, rfl, hasked⟩, verification, hanswer, hafter⟩
    exact ⟨hreads, by simpa [isAsked] using hasked, verification, hanswer, hafter⟩
  · rintro ⟨hreads, hasked, verification, hanswer, hafter⟩
    exact ⟨_, ⟨hreads, rfl, by simpa [isAsked] using hasked⟩, verification, hanswer, hafter⟩

variable (hverify : ∀ credential skip, NeverThrows answered (deps.verify credential skip))

include hverify in
theorem checkCredential_neverThrows (hstate : state.Read) :
    NeverThrows answered (checkCredential runtime deps leaf skipSignature state credential) ↔
      LegibleBefore deps state credential ∧
      (isAsked deps state credential = true → ∀ verification,
        Answers answered deps leaf skipSignature credential verification →
          LegibleAfter runtime deps state credential verification) := by
  rw [checkCredential, neverThrows_verdict]
  swap
  · exact fun _ => neverThrows_pure
  simp only [neverThrows_settle, returns_settle_ok, checkBefore_quiet, checkBefore_eq_ok,
    neverThrows_bind, hverify, true_and]
  simp only [LegibleBefore, isAsked, ← Bool.not_or, Bool.not_eq_false', Bool.not_eq_true']
  refine and_congr_right fun hbefore => ?_
  constructor
  · intro h hask verification hanswer
    exact (checkAfter_quiet hstate hbefore.1).mp (h _ ⟨hbefore.1, rfl, hask⟩ verification hanswer)
  · rintro h _ ⟨hreads, rfl, hask⟩ verification hanswer
    exact (checkAfter_quiet hstate hreads).mpr (h hask verification hanswer)

theorem walkChain_cons_neverThrows {rest : List Presented} :
    NeverThrows answered (walkChain runtime deps leaf skipSignature state (credential :: rest)) ↔
      NeverThrows answered (checkCredential runtime deps leaf skipSignature state credential) ∧
      ∀ state', Returns answered
          (checkCredential runtime deps leaf skipSignature state credential) (.ok state') →
        NeverThrows answered (walkChain runtime deps leaf skipSignature state' rest) := by
  rw [walkChain, neverThrows_verdict]
  exact fun _ => neverThrows_pure

theorem walkChain_cons_returns {rest : List Presented} {final : WalkState} :
    Returns answered (walkChain runtime deps leaf skipSignature state (credential :: rest))
        (.ok final) ↔
      ∃ state', Returns answered
          (checkCredential runtime deps leaf skipSignature state credential) (.ok state') ∧
        Returns answered (walkChain runtime deps leaf skipSignature state' rest) (.ok final) := by
  rw [walkChain, returns_verdict_ok]
  exact fun _ => rfl

include hverify in
theorem walkChain_neverThrows {after : Prop} {chain : List Presented} (hstate : state.Read) :
    (NeverThrows answered (walkChain runtime deps leaf skipSignature state chain) ∧
      ∀ final, Returns answered (walkChain runtime deps leaf skipSignature state chain)
        (.ok final) → after) ↔
    LegibleWalk answered runtime deps leaf skipSignature after state chain := by
  induction chain generalizing state with
  | nil => simp [walkChain, LegibleWalk]
  | cons credential rest ih =>
      simp only [walkChain_cons_neverThrows, walkChain_cons_returns, checkCredential_returns,
        checkCredential_neverThrows hverify hstate, LegibleWalk]
      constructor
      · rintro ⟨⟨⟨hbefore, hafter⟩, hrest⟩, hlast⟩
        refine ⟨hbefore, fun hask verification hanswer => ⟨hafter hask verification hanswer, ?_⟩⟩
        intro state' hstate'
        refine (ih (checkAfter_read hbefore.1 hstate')).mp ⟨?_, fun final hfinal => ?_⟩
        · exact hrest state' ⟨hbefore.1, hask, verification, hanswer, hstate'⟩
        · exact hlast final ⟨state', ⟨hbefore.1, hask, verification, hanswer, hstate'⟩, hfinal⟩
      · rintro ⟨hbefore, hafter⟩
        refine ⟨⟨⟨hbefore, fun hask verification hanswer => (hafter hask verification hanswer).1⟩,
          ?_⟩, ?_⟩
        · rintro state' ⟨-, hask, verification, hanswer, hstate'⟩
          exact ((ih (checkAfter_read hbefore.1 hstate')).mpr
            ((hafter hask verification hanswer).2 state' hstate')).1
        · rintro final ⟨state', ⟨-, hask, verification, hanswer, hstate'⟩, hfinal⟩
          exact ((ih (checkAfter_read hbefore.1 hstate')).mpr
            ((hafter hask verification hanswer).2 state' hstate')).2 final hfinal

/-- A credential whose delegation can be looked at. -/
def isReadable (credential : Presented) : Bool :=
  let subject := Untyped.member? (some credential.value) (js "credentialSubject")
  !subject.isNullish && !(delegation? (some credential.value)).isNullish

/-- The resolved credential is the leaf, or a copy of it. -/
def isLeaf (leaf credential : Presented) (leafId : Untyped) : Bool :=
  sameId credential leaf (record (some credential.value)).id leafId

/-- Every credential up to the first that is the leaf is readable. -/
def LegibleIndex (leaf : Presented) (leafId : Untyped) : List Presented → Prop
  | [] => True
  | credential :: rest => isReadable credential = true ∧
    (isLeaf leaf credential leafId = false → LegibleIndex leaf leafId rest)

theorem findDelegationIndex_eq_ok {leafId : Untyped} {resolved : List Presented}
    {index : Option Nat} :
    findDelegationIndex leaf leafId resolved = .ok index ↔
      LegibleIndex leaf leafId resolved ∧
        resolved.findIdx? (isLeaf leaf · leafId) = index := by
  induction resolved generalizing index with
  | nil => simp [findDelegationIndex, LegibleIndex]
  | cons credential rest ih =>
      rw [findDelegationIndex, LegibleIndex, List.findIdx?_cons]
      have hrest : ∀ id, (if sameId credential leaf id leafId = true then pure (some 0)
          else do
            let found ← findDelegationIndex leaf leafId rest
            pure (found.map (· + 1)) : Except Error (Option Nat)) = .ok index ↔
          (sameId credential leaf id leafId = false → LegibleIndex leaf leafId rest) ∧
          (if sameId credential leaf id leafId = true then some 0
            else (rest.findIdx? (isLeaf leaf · leafId)).map (· + 1)) = index := by
        intro id
        cases sameId credential leaf id leafId with
        | true => simp [pure, Except.pure]
        | false => simp [bind_eq_ok, ih, pure, Except.pure, and_assoc]
      simp only [bind_eq_ok, delegation!_eq_ok, member_eq_ok, hrest, isReadable, isLeaf, record,
        Bool.and_eq_true, Bool.not_eq_true']
      constructor
      · rintro ⟨_, ⟨hsubject, rfl⟩, _, ⟨hdelegation, rfl⟩, hlegible, hindex⟩
        exact ⟨⟨⟨hsubject, hdelegation⟩, hlegible⟩, hindex⟩
      · rintro ⟨⟨⟨hsubject, hdelegation⟩, hlegible⟩, hindex⟩
        exact ⟨_, ⟨hsubject, rfl⟩, _, ⟨hdelegation, rfl⟩, hlegible, hindex⟩

/-- What is read and quoted of the chain that the resolver returns. -/
def LegibleResolved (leaf : Presented) (resolved : List Presented) : Prop :=
  let leafDelegation := record (some leaf.value)
  let leafIndex := resolved.findIdx? (isLeaf leaf · leafDelegation.id)
  if resolved.isEmpty then Quotable [leafDelegation.id, leafDelegation.parentId]
  else LegibleIndex leaf leafDelegation.id resolved ∧
    (leafIndex.any (· ≠ resolved.length - 1) = true → Quotable [leafDelegation.id])

/-- The chain that is walked, when the resolver's answer is accepted. -/
def acceptedChain (leaf : Presented) (resolved : List Presented) : Option (List Presented) :=
  let leafIndex := resolved.findIdx? (isLeaf leaf · (record (some leaf.value)).id)
  if resolved.isEmpty || leafIndex.any (· ≠ resolved.length - 1) then none
  else some ((if leafIndex = none then resolved else resolved.dropLast) ++ [leaf])

theorem LegibleResolved.index {resolved chain : List Presented} (h : LegibleResolved leaf resolved)
    (haccepted : acceptedChain leaf resolved = some chain) :
    LegibleIndex leaf (record (some leaf.value)).id resolved := by
  rw [LegibleResolved] at h
  cases hempty : resolved.isEmpty with
  | true => simp [acceptedChain, hempty] at haccepted
  | false =>
      rw [hempty] at h
      exact h.1

theorem resolvedChain_quiet {resolved : List Presented} :
    Quiet (resolvedChain runtime leaf (record (some leaf.value)) resolved) ↔
      LegibleResolved leaf resolved := by
  simp only [resolvedChain, LegibleResolved]
  rw [quiet_rejectIf_bind, quiet_attempt_bind fun _ => findDelegationIndex_eq_ok,
    quiet_rejectIf_bind]
  simp only [bind_returns, text_returns, forall_text, quote_and, pure_returns, quiet_pure]
  split_ifs <;> simp [*]

theorem resolvedChain_eq_ok {resolved chain : List Presented} :
    resolvedChain runtime leaf (record (some leaf.value)) resolved = .ok chain ↔
      LegibleIndex leaf (record (some leaf.value)).id resolved ∧
      acceptedChain leaf resolved = some chain := by
  simp only [resolvedChain, acceptedChain, bind_eq_ok, attempt_eq_ok, rejectIf_eq_ok,
    findDelegationIndex_eq_ok]
  constructor
  · rintro ⟨-, hempty, -, ⟨hlegible, rfl⟩, -, hplace, hchain⟩
    refine ⟨hlegible, ?_⟩
    rw [hempty, hplace]
    simpa [pure, Except.pure] using hchain
  · rintro ⟨hlegible, hchain⟩
    split at hchain
    · cases hchain
    · rename_i haccepted
      simp only [Bool.or_eq_true, not_or, Bool.not_eq_true] at haccepted
      exact ⟨(), haccepted.1, _, ⟨hlegible, rfl⟩, (),
        haccepted.2, by simpa [pure, Except.pure] using hchain⟩

theorem last_of_acceptedChain {resolved chain : List Presented}
    (h : acceptedChain leaf resolved = some chain) : chain.getLast? = some leaf := by
  simp only [acceptedChain] at h
  split at h
  · cases h
  · cases h
    simp

/-- What the revocation check quotes of the credentials it gets to. -/
def LegibleRevocations (answered : Exchange Gates → Prop) (leaf : Presented)
    (isRevoked : Untyped → GateM Revocation) : List Presented → Prop
  | [] => True
  | credential :: rest =>
    let delegationId := (record (some credential.value)).id
    let leafId := (record (some leaf.value)).id
    (∀ revocation, Returns answered (isRevoked delegationId) revocation →
      if revocation.revoked then
        Quotable [leafId] ∧ (revocation.revokedAncestor = none →
          sameId credential leaf delegationId leafId = false → Quotable [delegationId])
      else LegibleRevocations answered leaf isRevoked rest)

theorem readId {credential : Presented} (h : Extractable (some credential.value)) :
    (do (← delegation! (some credential.value)).member (js "id")) =
      .ok (record (some credential.value)).id := by
  simp only [bind_eq_ok, delegation!_of_isObject h.delegation, member_eq_ok]
  exact ⟨_, rfl, isNullish_of_isObject h.delegation, rfl⟩

theorem printable_of_falsy {value : Untyped} (h : value.truthy = false) :
    value.printable = true := by
  cases value with
  | none => rfl
  | some v => cases v <;> first | rfl | cases h

theorem revokedReason_quiet {delegationId : Untyped} {revocation : Revocation} :
    Quiet (revokedReason runtime leaf (record (some leaf.value)) credential delegationId
      revocation) ↔
      Quotable [(record (some leaf.value)).id] ∧ (revocation.revokedAncestor = none →
        sameId credential leaf delegationId (record (some leaf.value)).id = false →
          Quotable [delegationId]) := by
  simp only [revokedReason, quiet_rejectWith]
  generalize hancestor : ((revocation.revokedAncestor.map JsonValue.string).orElse fun _ =>
    if sameId credential leaf delegationId (record (some leaf.value)).id then none
    else delegationId : Untyped) = revokedAncestor
  have hquotes : Untyped.printable revokedAncestor = true ↔ (revocation.revokedAncestor = none →
      sameId credential leaf delegationId (record (some leaf.value)).id = false →
        Quotable [delegationId]) := by
    rw [← hancestor]
    cases revocation.revokedAncestor with
    | some ancestor => simp [Untyped.printable, JsonValue.printable]
    | none =>
        cases sameId credential leaf delegationId (record (some leaf.value)).id with
        | true => simp [Untyped.printable]
        | false => simp
  rw [← hquotes, quotable_cons, and_iff_left quotable_nil]
  by_cases htruthy : Untyped.truthy revokedAncestor = true
  · simp only [htruthy, if_true, bind_returns, text_returns, forall_text, quote_and,
      pure_returns, and_true, implies_true]
  · simp only [htruthy, Bool.false_eq_true, if_false, bind_returns, text_returns, pure_returns,
      and_true, implies_true]
    exact (and_iff_left (printable_of_falsy (by simpa using htruthy))).symm

theorem checkRevocations_neverThrows {isRevoked : Untyped → GateM Revocation}
    (hrevoked : ∀ id, NeverThrows answered (isRevoked id)) {chain : List Presented}
    (hreads : ∀ credential ∈ chain, Extractable (some credential.value)) :
    NeverThrows answered
        (checkRevocations runtime leaf (record (some leaf.value)) isRevoked chain) ↔
      LegibleRevocations answered leaf isRevoked chain := by
  induction chain with
  | nil => simp [checkRevocations, LegibleRevocations]
  | cons credential rest ih =>
      rw [List.forall_mem_cons] at hreads
      rw [checkRevocations, readId hreads.1, LegibleRevocations]
      rw [neverThrows_bind, and_iff_right (neverThrows_ofExcept.mpr ⟨_, rfl⟩)]
      simp only [returns_ofExcept, Except.ok.injEq, forall_eq']
      refine neverThrows_outcome_bind.trans ?_
      have hround : ∀ revocation : Revocation, NeverThrows answered
          (if revocation.revoked then settle (revokedReason runtime leaf
              (record (some leaf.value)) credential (record (some credential.value)).id revocation)
            else checkRevocations runtime leaf (record (some leaf.value)) isRevoked rest) ↔
          if revocation.revoked then
            Quotable [(record (some leaf.value)).id] ∧ (revocation.revokedAncestor = none →
              sameId credential leaf (record (some credential.value)).id
                (record (some leaf.value)).id = false →
              Quotable [(record (some credential.value)).id])
          else LegibleRevocations answered leaf isRevoked rest := by
        intro revocation
        cases revocation.revoked with
        | true => simp only [if_true, neverThrows_settle, revokedReason_quiet]
        | false => simpa using ih hreads.2
      constructor
      · exact fun h revocation hrevocation => (hround revocation).mp (h.1 revocation hrevocation)
      · intro h
        refine ⟨fun revocation hrevocation => (hround revocation).mpr (h revocation hrevocation),
          ?_⟩
        exact fun error herror => absurd herror (hrevoked _ error)

theorem walkChain_reads {chain : List Presented} {final : WalkState}
    (h : Returns answered (walkChain runtime deps leaf skipSignature state chain) (.ok final)) :
    ∀ credential ∈ chain, Extractable (some credential.value) := by
  induction chain generalizing state with
  | nil => exact fun _ hmem => absurd hmem List.not_mem_nil
  | cons credential rest ih =>
      obtain ⟨state', hround, hrest⟩ := walkChain_cons_returns.mp h
      exact List.forall_mem_cons.mpr ⟨(checkCredential_returns.mp hround).1, ih hrest⟩

/-- The leaf's id is the same as itself, as that of any JSON value is. -/
theorem printable_of_not_same {id : Untyped} (h : sameId leaf leaf id id = false) :
    id.printable = true := by
  cases id with
  | none => rfl
  | some v => cases v <;> simp_all [sameId, Untyped.printable, JsonValue.printable, isObject]

theorem checkEnd_quiet (hleaf : Extractable (some leaf.value)) :
    Quiet (checkEnd runtime leaf (record (some leaf.value)) leaf) := by
  have hextract : ∀ delegation, extractDelegationFromVC runtime (some leaf.value) = .ok delegation ↔
      True ∧ record (some leaf.value) = delegation := by
    simp [extractDelegationFromVC_eq_ok, hleaf]
  rw [checkEnd, quiet_attempt_bind hextract, quiet_rejectIf]
  refine ⟨trivial, fun hother => ?_⟩
  simp only [bind_returns, text_returns, forall_text, quote_and, pure_returns]
  simp [printable_of_not_same (by simpa using hother)]

theorem checkEnd_eq_ok (hleaf : Extractable (some leaf.value)) {done : Unit} :
    checkEnd runtime leaf (record (some leaf.value)) leaf = .ok done ↔
      sameId leaf leaf (record (some leaf.value)).id (record (some leaf.value)).id = true := by
  simp [checkEnd, bind_eq_ok, extractDelegationFromVC_eq_ok, hleaf]

/-- What is read and quoted after the walk. -/
def LegibleEnd (answered : Exchange Gates → Prop) (deps : ChainDeps) (leaf : Presented)
    (chain : List Presented) : Prop :=
  sameId leaf leaf (record (some leaf.value)).id (record (some leaf.value)).id = true →
    match deps.isRevoked with
    | none => True
    | some isRevoked => LegibleRevocations answered leaf isRevoked chain

/-- What is read and quoted of a chain that ends with the leaf. -/
def LegibleChain (answered : Exchange Gates → Prop) (runtime : Runtime) (deps : ChainDeps)
    (leaf : Presented) (skipSignature : Bool) (chain : List Presented) : Prop :=
  checkChainLength runtime deps chain.length = .ok () →
    LegibleWalk answered runtime deps leaf skipSignature (LegibleEnd answered deps leaf chain) {}
      chain

theorem checkChainLength_quiet {chainLength : Nat} :
    Quiet (checkChainLength runtime deps chainLength) := by
  simp only [checkChainLength]
  split
  · exact quiet_pure
  · split
    · simp
    · split
      · simp
      · simp [pure_returns]

section Revocation

variable (hrevoked : ∀ isRevoked, deps.isRevoked = some isRevoked →
  ∀ id, NeverThrows answered (isRevoked id))

include hrevoked in
theorem askRevocations_neverThrows {chain : List Presented}
    (hreads : ∀ credential ∈ chain, Extractable (some credential.value)) :
    NeverThrows answered (askRevocations runtime deps leaf (record (some leaf.value)) chain) ↔
      match deps.isRevoked with
      | none => True
      | some isRevoked => LegibleRevocations answered leaf isRevoked chain := by
  rw [askRevocations]
  cases hchecker : deps.isRevoked with
  | none => simp
  | some isRevoked => exact checkRevocations_neverThrows (hrevoked isRevoked hchecker) hreads

/-- The verdict on a chain throws where a question about a revocation does. -/
theorem revocationVerdict_neverThrows {chain : List Presented} :
    NeverThrows answered
      (askRevocations runtime deps leaf (record (some leaf.value)) chain >>= fun asked =>
        match asked with
        | .error reason => pure (chainRejected reason)
        | .ok () => pure ({
            valid := true
            expiresAt := state.expiresAt
            warnings := if state.warnings.length > 0 then some state.warnings else none } :
              ChainValidationResult)) ↔
      NeverThrows answered
        (askRevocations runtime deps leaf (record (some leaf.value)) chain) := by
  rw [neverThrows_verdict]
  · exact and_iff_left fun _ _ => neverThrows_pure
  · exact fun _ => neverThrows_pure

include hrevoked in
theorem concludeChain_neverThrows {chain : List Presented}
    (hreads : ∀ credential ∈ chain, Extractable (some credential.value))
    (hleaf : Extractable (some leaf.value)) (hlast : chain.getLast? = some leaf) :
    NeverThrows answered (concludeChain runtime deps leaf (record (some leaf.value)) chain state) ↔
      LegibleEnd answered deps leaf chain := by
  rw [concludeChain, hlast, neverThrows_verdict]
  swap
  · exact fun _ => neverThrows_pure
  simp only [Option.getD_some, neverThrows_settle, checkEnd_quiet hleaf, true_and,
    returns_settle_ok,
    checkEnd_eq_ok hleaf]
  have hrest := (@revocationVerdict_neverThrows runtime deps answered leaf state chain).trans
    (askRevocations_neverThrows hrevoked hreads)
  exact ⟨fun h hsame => hrest.mp (h () hsame), fun h _ hsame => hrest.mpr (h hsame)⟩

include hverify hrevoked in
/-- The walk over a chain, and what follows it. -/
theorem walkedChain_neverThrows {chain : List Presented} (hleaf : Extractable (some leaf.value))
    (hlast : chain.getLast? = some leaf) :
    NeverThrows answered
      (walkChain runtime deps leaf skipSignature {} chain >>= fun walked =>
        match walked with
        | .error reason => pure (chainRejected reason)
        | .ok state =>
          concludeChain runtime deps leaf (record (some leaf.value)) chain state) ↔
      LegibleWalk answered runtime deps leaf skipSignature (LegibleEnd answered deps leaf chain) {}
        chain := by
  rw [neverThrows_verdict, ← walkChain_neverThrows hverify]
  · refine and_congr_right fun _ => forall₂_congr fun final hfinal => ?_
    exact concludeChain_neverThrows hrevoked (walkChain_reads hfinal) hleaf hlast
  · rintro _ _ ⟨⟩
  · exact fun _ => neverThrows_pure

include hverify hrevoked in
theorem validateChain_neverThrows {chain : List Presented} (hleaf : Extractable (some leaf.value))
    (hlast : chain.getLast? = some leaf) :
    NeverThrows answered
        (validateChain runtime deps leaf (record (some leaf.value)) skipSignature chain) ↔
      LegibleChain answered runtime deps leaf skipSignature chain := by
  rw [validateChain, neverThrows_verdict]
  swap
  · exact fun _ => neverThrows_pure
  simp only [neverThrows_settle, checkChainLength_quiet, true_and, returns_settle_ok]
  have hwalk := @walkedChain_neverThrows runtime deps answered leaf skipSignature hverify hrevoked
    chain hleaf hlast
  exact ⟨fun h hlength => hwalk.mp (h () hlength), fun h _ hlength => hwalk.mpr (h hlength)⟩

/-- What is read and quoted once the leaf's record is read. -/
def LegibleLeaf (answered : Exchange Gates → Prop) (runtime : Runtime) (deps : ChainDeps)
    (leaf : Presented) (skipSignature : Bool) : Prop :=
  let leafDelegation := record (some leaf.value)
  if !leafDelegation.parentId.truthy then
    LegibleChain answered runtime deps leaf skipSignature [leaf]
  else match deps.resolveDelegationChain with
    | none => Quotable [leafDelegation.id, leafDelegation.parentId]
    | some resolveDelegationChain => ∀ resolved,
        Returns answered (resolveDelegationChain leaf) resolved →
      LegibleResolved leaf resolved ∧ ∀ chain, acceptedChain leaf resolved = some chain →
        LegibleChain answered runtime deps leaf skipSignature chain

/-- What chain validation reads and quotes of a leaf and of what its ports answer. -/
def Legible (answered : Exchange Gates → Prop) (runtime : Runtime) (deps : ChainDeps)
    (leaf : Presented) (skipSignature : Bool) : Prop :=
  hasLeafShape leaf = true →
    Extractable (some leaf.value) ∧ LegibleLeaf answered runtime deps leaf skipSignature

theorem presentedChain_neverThrows :
    NeverThrows answered (presentedChain runtime deps leaf (record (some leaf.value))) ↔
      ((record (some leaf.value)).parentId.truthy = true →
        match deps.resolveDelegationChain with
        | none => Quotable [(record (some leaf.value)).id, (record (some leaf.value)).parentId]
        | some resolveDelegationChain => ∀ resolved,
            Returns answered (resolveDelegationChain leaf) resolved →
              LegibleResolved leaf resolved) := by
  rw [presentedChain]
  cases htruthy : (record (some leaf.value)).parentId.truthy with
  | false => simp
  | true =>
      simp only [Bool.not_true, Bool.false_eq_true, if_false, forall_const]
      cases hresolver : deps.resolveDelegationChain with
      | none =>
          simp only [neverThrows_settle, quiet_rejectWith, bind_returns, text_returns, forall_text,
            quote_and, pure_returns, quotable_cons, quotable_nil, and_true]
      | some resolveDelegationChain =>
          refine neverThrows_outcome_bind.trans ?_
          simp only [neverThrows_settle, resolvedChain_quiet]
          exact and_iff_left fun _ _ => neverThrows_pure

theorem presentedChain_returns {chain : List Presented} :
    Returns answered (presentedChain runtime deps leaf (record (some leaf.value))) (.ok chain) ↔
      if !(record (some leaf.value)).parentId.truthy then chain = [leaf]
      else ∃ resolveDelegationChain resolved,
        deps.resolveDelegationChain = some resolveDelegationChain ∧
        Returns answered (resolveDelegationChain leaf) resolved ∧
        LegibleIndex leaf (record (some leaf.value)).id resolved ∧
        acceptedChain leaf resolved = some chain := by
  rw [presentedChain]
  split_ifs with htruthy
  · simp [eq_comm]
  · cases hresolver : deps.resolveDelegationChain with
    | none => simp [rejectWith, bind_eq_ok]
    | some resolveDelegationChain =>
        simp only [returns_bind, Option.some.injEq, exists_and_left, exists_eq_left']
        constructor
        · rintro ⟨result, hresult, hchain⟩
          cases result with
          | error error => simp at hchain
          | ok resolved =>
              exact ⟨resolved, returns_outcome_ok.mp hresult,
                resolvedChain_eq_ok.mp (returns_settle_ok.mp hchain)⟩
        · rintro ⟨resolved, hresolved, hchain⟩
          exact ⟨.ok resolved, returns_outcome_ok.mpr hresolved,
            returns_settle_ok.mpr (resolvedChain_eq_ok.mpr hchain)⟩

include hverify hrevoked in
theorem validateLeaf_neverThrows (hleaf : Extractable (some leaf.value)) :
    NeverThrows answered
        (validateLeaf runtime deps leaf (record (some leaf.value)) skipSignature) ↔
      LegibleLeaf answered runtime deps leaf skipSignature := by
  rw [validateLeaf, neverThrows_verdict]
  swap
  · exact fun _ => neverThrows_pure
  have hvalidate : ∀ chain, chain.getLast? = some leaf →
      (NeverThrows answered
        (validateChain runtime deps leaf (record (some leaf.value)) skipSignature chain) ↔
      LegibleChain answered runtime deps leaf skipSignature chain) := fun chain hlast =>
    validateChain_neverThrows hverify hrevoked hleaf hlast
  simp only [presentedChain_neverThrows, presentedChain_returns, LegibleLeaf]
  cases htruthy : (record (some leaf.value)).parentId.truthy with
  | false => simp [hvalidate [leaf] rfl]
  | true =>
      simp only [Bool.not_true, Bool.false_eq_true, if_false, forall_const]
      cases hresolver : deps.resolveDelegationChain with
      | none => simp
      | some resolveDelegationChain =>
          simp only [Option.some.injEq, exists_and_left, exists_eq_left']
          constructor
          · rintro ⟨hresolved, hchain⟩ resolved hreturned
            refine ⟨hresolved resolved hreturned, fun chain haccepted => ?_⟩
            exact (hvalidate chain (last_of_acceptedChain haccepted)).mp (hchain chain
              ⟨resolved, hreturned, (hresolved resolved hreturned).index haccepted, haccepted⟩)
          · intro h
            refine ⟨fun resolved hreturned => (h resolved hreturned).1, ?_⟩
            rintro chain ⟨resolved, hreturned, -, haccepted⟩
            exact (hvalidate chain (last_of_acceptedChain haccepted)).mpr
              ((h resolved hreturned).2 chain haccepted)

include hverify hrevoked in
/-- Chain validation never throws exactly when it can read and quote what it gets to. -/
theorem validateDelegationChain_neverThrows_iff :
    NeverThrows answered (validateDelegationChain runtime deps leaf skipSignature) ↔
      Legible answered runtime deps leaf skipSignature := by
  rw [validateDelegationChain, Legible]
  split_ifs with hshape
  · simp only [hshape, forall_const, neverThrows_bind, neverThrows_ofExcept, returns_ofExcept,
      extractDelegationFromVC_eq_ok, exists_and_left, exists_eq', and_true, and_imp]
    refine and_congr_right fun hleaf => ?_
    simp only [hleaf, forall_const, forall_eq']
    exact validateLeaf_neverThrows hverify hrevoked hleaf
  · simp [hshape]

end Revocation

/-- Each credential of a chain that was walked passed its round. -/
theorem walkChain_checks {chain : List Presented} {final : WalkState}
    (h : Returns answered (walkChain runtime deps leaf skipSignature state chain) (.ok final)) :
    ∀ credential ∈ chain, ∃ before after, Returns answered
      (checkCredential runtime deps leaf skipSignature before credential) (.ok after) := by
  induction chain generalizing state with
  | nil => exact fun _ hmem => absurd hmem List.not_mem_nil
  | cons credential rest ih =>
      obtain ⟨state', hround, hrest⟩ := walkChain_cons_returns.mp h
      exact List.forall_mem_cons.mpr ⟨⟨state, state', hround⟩, ih hrest⟩

/-- The leaf of an accepted chain was verified. -/
theorem validateDelegationChain_verified {result : ChainValidationResult}
    (h : Returns answered (validateDelegationChain runtime deps leaf skipSignature) result)
    (hvalid : result.valid = true) :
    ∃ verification, Answers answered deps leaf skipSignature leaf verification ∧
      verification.valid = true := by
  have hrejected : ∀ reason, ¬ Returns answered (pure (chainRejected reason)) result := by
    intro reason hreturned
    rw [← returns_pure.mp hreturned] at hvalid
    cases hvalid
  rw [validateDelegationChain] at h
  split_ifs at h
  swap
  · exact absurd h (hrejected _)
  obtain ⟨leafDelegation, hextract, hleaf⟩ := returns_bind.mp h
  obtain ⟨-, rfl⟩ := extractDelegationFromVC_eq_ok.mp (returns_ofExcept.mp hextract)
  obtain ⟨presented, hpresented, hchain⟩ := returns_bind.mp hleaf
  cases presented with
  | error reason => exact absurd hchain (hrejected reason)
  | ok chain =>
      obtain ⟨length, -, hwalk⟩ := returns_bind.mp hchain
      cases length with
      | error reason => exact absurd hwalk (hrejected reason)
      | ok done =>
          obtain ⟨walked, hwalked, hend⟩ := returns_bind.mp hwalk
          cases walked with
          | error reason => exact absurd hend (hrejected reason)
          | ok final =>
              have hmem : leaf ∈ chain := by
                rw [presentedChain_returns] at hpresented
                split_ifs at hpresented
                · rw [hpresented]
                  exact List.mem_singleton_self leaf
                · obtain ⟨-, resolved, -, -, -, haccepted⟩ := hpresented
                  exact List.mem_of_getLast? (last_of_acceptedChain haccepted)
              obtain ⟨before, after, hround⟩ := walkChain_checks hwalked leaf hmem
              obtain ⟨-, -, verification, hanswer, hafter⟩ := checkCredential_returns.mp hround
              refine ⟨verification, hanswer, ?_⟩
              simp only [checkAfter, bind_eq_ok, rejectIf_eq_ok, Bool.not_eq_false'] at hafter
              obtain ⟨-, hverified, -⟩ := hafter
              exact hverified

end Ports

/-- A delegation credential with these members of its delegation. -/
def sampleCredential (object : Nat) (members : List (JsString × JsonValue JsNumber)) :
    Presented where
  object := object
  value := .object [(js "credentialSubject", .object [(js "delegation",
    .object (members ++ [(js "constraints", .object [])]))])]

/-- A re-delegation of `d0`. -/
def sampleChild : Presented :=
  sampleCredential 1 [(js "id", .string (js "d1")), (js "parentId", .string (js "d0"))]

/-- A verifier that accepts everything, and a resolver that found nothing. -/
def sampleDeps : ChainDeps where
  serverDid := js "did:web:s"
  verify := fun _ _ => pure { valid := true }
  resolveDelegationChain := some fun _ => pure [⟨2, .null⟩]
  statusListConfigured := false

theorem validateDelegationChain_null :
    (∀ credential skip, NeverThrows (fun _ => True) (sampleDeps.verify credential skip)) ∧
    sampleDeps.isRevoked = none ∧
    Throws (fun _ => True) (validateDelegationChain sampleRuntime sampleDeps sampleChild false)
      (.typeError (js "Cannot read properties of null")) := by
  refine ⟨fun _ _ => neverThrows_pure, rfl, [], by simp, ?_⟩
  exact .done _

/-- A root delegation of one scope. -/
def sampleRoot : Presented :=
  sampleCredential 2 [(js "id", .string (js "d0")), (js "scopes", .array [.string (js "a")])]

/-- A re-delegation of `d0` for this server. -/
def sampleHeir : Presented where
  object := 3
  value := .object [(js "credentialSubject", .object [(js "delegation", .object
    [(js "id", .string (js "d1")), (js "parentId", .string (js "d0")),
      (js "scopes", .array [.string (js "a")]),
      (js "constraints", .object [(js "audience", .string (js "did:web:s"))])])])]

/-- A resolver that finds both. -/
def sampleResolving : ChainDeps :=
  { sampleDeps with resolveDelegationChain := some fun _ => pure [sampleRoot, sampleHeir] }

def afterRoot : WalkState where
  seenIds := [(sampleRoot, some (.string (js "d0")))]
  previous := some (record (some sampleRoot.value), sampleRoot)

theorem checkAfter_sampleRoot : checkAfter sampleRuntime sampleResolving {} sampleRoot
    (record (some sampleRoot.value)) { valid := true } = .ok afterRoot := by
  rfl

theorem legibleAfter_sampleRoot :
    LegibleAfter sampleRuntime sampleResolving {} sampleRoot { valid := true } := by
  have haudience : HasAudience (record (some sampleRoot.value)) := fun h => by cases h
  refine ⟨⟨by decide, rfl, rfl⟩, ⟨haudience, fun h => by cases h⟩, fun _ _ _ => ?_⟩
  exact quotable_cons.mpr ⟨rfl, quotable_cons.mpr ⟨rfl, quotable_nil⟩⟩

theorem legibleAfter_sampleHeir :
    LegibleAfter sampleRuntime sampleResolving afterRoot sampleHeir { valid := true } := by
  have haudience : HasAudience (record (some sampleHeir.value)) := fun _ => .inl ⟨_, rfl⟩
  refine ⟨⟨by decide, rfl, rfl⟩, ⟨haudience, fun h => by cases h⟩, fun _ _ => ?_⟩
  refine ⟨⟨⟨rfl, rfl⟩, rfl⟩, fun _ => ⟨⟨rfl, rfl⟩, ?_⟩⟩
  rw [if_neg (fun h => by cases h.1)]
  refine ⟨[], rfl, ?_⟩
  rw [if_neg (fun h => h rfl)]
  exact fun _ => ⟨quotable_cons.mpr ⟨rfl, quotable_cons.mpr ⟨rfl, quotable_nil⟩⟩, rfl⟩

theorem validateDelegationChain_returns :
    NeverThrows (fun _ => True)
      (validateDelegationChain sampleRuntime sampleResolving sampleHeir false) := by
  have hreads : Extractable (some sampleRoot.value) := ⟨rfl, fun _ => rfl⟩
  have hreads' : Extractable (some sampleHeir.value) := ⟨rfl, fun _ => rfl⟩
  have hchain : LegibleChain (fun _ => True) sampleRuntime sampleResolving sampleHeir false
      [sampleRoot, sampleHeir] := by
    refine fun _ => ⟨⟨hreads, fun _ => ?_⟩, fun _ verification hanswer => ?_⟩
    · exact quotable_cons.mpr ⟨rfl, quotable_nil⟩
    cases returns_pure.mp hanswer
    refine ⟨legibleAfter_sampleRoot, fun state' hstate' => ?_⟩
    obtain rfl := Except.ok.inj (checkAfter_sampleRoot.symm.trans hstate')
    refine ⟨⟨hreads', fun _ => ?_⟩, fun _ verification hanswer => ?_⟩
    · exact quotable_cons.mpr ⟨rfl, quotable_nil⟩
    cases returns_pure.mp hanswer
    exact ⟨legibleAfter_sampleHeir, fun _ _ _ => trivial⟩
  refine (validateDelegationChain_neverThrows_iff (fun _ _ => neverThrows_pure)
    fun _ h => by cases h).mpr fun _ => ⟨hreads', ?_⟩
  intro resolved hresolved
  obtain rfl : [sampleRoot, sampleHeir] = resolved := returns_pure.mp hresolved
  refine ⟨⟨⟨rfl, fun _ => ⟨rfl, fun h => by cases h⟩⟩, fun h => by cases h⟩, ?_⟩
  intro chain haccepted
  obtain rfl : [sampleRoot, sampleHeir] = chain := Option.some.inj haccepted
  exact hchain

end KyaOs.Untrusted
