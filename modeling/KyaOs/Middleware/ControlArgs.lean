import KyaOs.Proof.ContentBinding
import KyaOs.Utils.PlainObject

/-!
# Control arguments

The gates withhold the `_kyaos*` arguments of a call from its handler, and a holder's
proof and an approver's grant bind the call without them. Two of the three copies are
made by assignment and lose a `__proto__` argument, which sets the copy's prototype when
it is `null`, an object or an array; the third keeps it.
-/

namespace KyaOs.Middleware

open Js JsonValue Audit Proof

variable {D : Type}

/-- `args` without the reserved `_kyaos*` control arguments. -/
def withoutControlArgs (args : PlainObject D) : PlainObject D :=
  PlainObject.assignAll {} (fun key => !isKyaOsControlArg key) args.members

/-- The canonical request a holder-binding proof binds. -/
def toHolderBindingRequest (toolName : JsString) (args : PlainObject D) : ToolRequest D :=
  { method := toolName
    params := some
      (PlainObject.assignAll {} (fun key => !isKyaOsControlArg key) args.members).toValue }

/-- The action that approvers sign; `Object.fromEntries` defines its members. -/
def approvedAction (toolName approvalsKey : JsString) (handlerArgs : PlainObject D) :
    ToolRequest D :=
  { method := toolName
    params := some (.object (withoutKeys handlerArgs.members fun key => key = approvalsKey)) }

/-- The arguments a handler gets through `gates + 1` gates. -/
def handedArgs (args : PlainObject D) : Nat → PlainObject D
  | 0 => withoutControlArgs args
  | gates + 1 => withoutControlArgs (handedArgs args gates)

section Hashes

variable (numbers : Doubles D) (hash : Bytes → Except Error Digest)

/-- `proofGenerator.hashRequest`. -/
def hashRequest (request : ToolRequest D) : Except Error Digest := do
  let hashes ← computeCanonicalHashes numbers hash request none responseProofProfileBody
  return hashes.requestHash

/-- No control argument of a call can be read from what its handlers get, and all three
copies of its arguments keep the same members. -/
structure KeepsCall (args : Members D) : Prop where
  noControl : ∀ gates name, isKyaOsControlArg name = true →
    (handedArgs ⟨args, .objectPrototype⟩ gates).get name = .undefined
  sameMembers : ∀ toolName,
    (toHolderBindingRequest toolName ⟨args, .objectPrototype⟩).params =
        some (.object (withoutKeys args isKyaOsControlArg)) ∧
      (withoutControlArgs ⟨args, .objectPrototype⟩).members = withoutKeys args isKyaOsControlArg

/-- What was signed of a call is what its handlers get: of two calls of a tool with one
signed hash, the handlers' arguments answer every member access alike, a custom approvals
key of a signed action aside. -/
structure RunsWhatIsSigned (toolName : JsString) (args args' : Members D) : Prop where
  keepsLeft : KeepsCall args
  keepsRight : KeepsCall args'
  holder : ∀ digest,
    hashRequest numbers hash (toHolderBindingRequest toolName ⟨args, .objectPrototype⟩) =
      .ok digest →
    hashRequest numbers hash (toHolderBindingRequest toolName ⟨args', .objectPrototype⟩) =
      .ok digest →
    ∀ gates, (handedArgs ⟨args, .objectPrototype⟩ gates).Alike numbers
      (handedArgs ⟨args', .objectPrototype⟩ gates)
  approver : ∀ approvalsKey gates digest,
    hashRequest numbers hash
      (approvedAction toolName approvalsKey (handedArgs ⟨args, .objectPrototype⟩ gates)) =
        .ok digest →
    hashRequest numbers hash
      (approvedAction toolName approvalsKey (handedArgs ⟨args', .objectPrototype⟩ gates)) =
        .ok digest →
    ∀ name, (isKyaOsControlArg approvalsKey = false → name ≠ approvalsKey) →
      ((handedArgs ⟨args, .objectPrototype⟩ gates).get name).Alike numbers
        ((handedArgs ⟨args', .objectPrototype⟩ gates).get name)

end Hashes

section NoProto

variable {numbers : Doubles D} {hash : Bytes → Except Error Digest}
  {args args' : Members D}

theorem withoutControlArgs_eq (hargs : (JsonValue.object args).WellFormed)
    (hproto : args.lookup protoName = none) (prototype : Prototype D) :
    withoutControlArgs ⟨args, prototype⟩ =
      ⟨withoutKeys args isKyaOsControlArg, .objectPrototype⟩ := by
  cases hargs with
  | object hkeys _ =>
  rw [withoutControlArgs, assignAll_of_no_proto (by simpa using hkeys) hproto]
  rfl

theorem handedArgs_eq (hargs : (JsonValue.object args).WellFormed)
    (hproto : args.lookup protoName = none) (gates : Nat) :
    handedArgs ⟨args, .objectPrototype⟩ gates =
      ⟨withoutKeys args isKyaOsControlArg, .objectPrototype⟩ := by
  induction gates with
  | zero => exact withoutControlArgs_eq hargs hproto _
  | succ gates ih =>
      have hkept : (withoutKeys args isKyaOsControlArg).lookup protoName = none := by
        rw [lookup_withoutKeys, hproto, ite_self]
      rw [handedArgs, ih, withoutControlArgs_eq (wellFormed_withoutKeys hargs _) hkept,
        withoutKeys_idem]

theorem toHolderBindingRequest_eq (hargs : (JsonValue.object args).WellFormed)
    (hproto : args.lookup protoName = none) (toolName : JsString) :
    toHolderBindingRequest toolName ⟨args, .objectPrototype⟩ =
      ⟨toolName, some (.object (withoutKeys args isKyaOsControlArg))⟩ := by
  have hcopy := withoutControlArgs_eq hargs hproto .objectPrototype
  rw [withoutControlArgs] at hcopy
  rw [toHolderBindingRequest, hcopy]
  rfl

/-- Without a `__proto__` of its own, a name that starts with `_kyaos` is on no prototype. -/
theorem keepsCall_of_no_proto (hargs : (JsonValue.object args).WellFormed)
    (hproto : args.lookup protoName = none) : KeepsCall args where
  noControl gates name hcontrol := by
    have hother : name ≠ protoName := by
      rintro rfl
      exact absurd hcontrol (by decide)
    have hbuiltin : ∀ builtin ∈ objectPrototypeNames, isKyaOsControlArg builtin = false := by
      decide
    have hown : objectPrototypeNames.contains name = false := by
      rw [List.contains_eq_mem, decide_eq_false_iff_not]
      exact fun hmem => Bool.false_ne_true ((hbuiltin name hmem).symm.trans hcontrol)
    rw [handedArgs_eq hargs hproto, PlainObject.get, lookup_withoutKeys, if_pos hcontrol]
    simp only [Prototype.answer, hother, if_false, objectAnswer, hown, Bool.false_eq_true]
  sameMembers toolName := by
    rw [toHolderBindingRequest_eq hargs hproto, withoutControlArgs_eq hargs hproto]
    exact ⟨rfl, rfl⟩

/-- One hash of two requests with object params is of the same params. -/
theorem same_of_hashRequest (hprints : numbers.Prints) (hinjective : Injective hash)
    {toolName : JsString} {params params' : Members D}
    (hparams : (JsonValue.object params).WellFormed)
    (hparams' : (JsonValue.object params').WellFormed) {digest : Digest}
    (hleft : hashRequest numbers hash ⟨toolName, some (.object params)⟩ = .ok digest)
    (hright : hashRequest numbers hash ⟨toolName, some (.object params')⟩ = .ok digest)
    (name : JsString) :
    Option.Rel (Same numbers) (params.lookup name) (params'.lookup name) := by
  have hhashed : ∀ {request : ToolRequest D}, hashRequest numbers hash request = .ok digest →
      hashJson numbers hash (canonicalRequest numbers request) = .ok digest := by
    intro request h
    obtain ⟨hashes, hhashes, hresult⟩ := bind_eq_ok.mp h
    obtain rfl := Except.ok.inj hresult
    exact (computeCanonicalHashes_eq_ok.mp hhashes).1
  have hwellFormed : ∀ {members : Members D}, (JsonValue.object members).WellFormed →
      (⟨toolName, some (.object members)⟩ : ToolRequest D).WellFormed := by
    intro members h value hvalue
    exact Option.some.inj hvalue ▸ h
  have hsame := same_of_hashJson hprints hinjective
    (wellFormed_canonicalRequest (hwellFormed hparams))
    (wellFormed_canonicalRequest (hwellFormed hparams')) (hhashed hleft) (hhashed hright)
  have hmembers := (same_canonicalRequest hsame).2
  exact same_object_iff.mp (Option.rel_some_some.mp hmembers) name

/-- Object literals answer a name alike when they hold it alike. -/
theorem alike_get {members members' : Members D} {name : JsString}
    (h : Option.Rel (Same numbers) (members.lookup name) (members'.lookup name)) :
    (PlainObject.get ⟨members, .objectPrototype⟩ name).Alike numbers
      (PlainObject.get ⟨members', .objectPrototype⟩ name) := by
  rw [PlainObject.get, PlainObject.get]
  cases hleft : members.lookup name with
  | none =>
      rw [hleft] at h
      cases hright : members'.lookup name with
      | some value => simp [hright] at h
      | none =>
          by_cases hproto : name = protoName
          · simp [Prototype.answer, hproto, Answer.Alike]
          · by_cases hbuiltin : name ∈ objectPrototypeNames
            · simp [Prototype.answer, hproto, objectAnswer, hbuiltin, Answer.Alike]
            · simp [Prototype.answer, hproto, objectAnswer, hbuiltin, Answer.Alike]
  | some value =>
      rw [hleft] at h
      obtain ⟨value', hright, hsame⟩ := rel_some_left h
      simpa [hright, Answer.Alike] using hsame

theorem no_proto_of_keepsCall (hargs : (JsonValue.object args).WellFormed)
    (h : KeepsCall args) : args.lookup protoName = none := by
  cases hargs with
  | object hkeys _ =>
  have hcopy : (PlainObject.assignAll ({} : PlainObject D)
      (fun key => !isKyaOsControlArg key) args).members.lookup protoName = none :=
    lookup_proto_assignAll hkeys rfl (.inl rfl)
  have hsame := (h.sameMembers []).2
  rw [withoutControlArgs] at hsame
  rw [hsame, lookup_withoutKeys, if_neg (by decide)] at hcopy
  exact hcopy

/-- What handlers get is what was signed exactly when neither call has a `__proto__`
argument. -/
theorem runsWhatIsSigned_iff (hprints : numbers.Prints) (hinjective : Injective hash)
    (toolName : JsString) (hargs : (JsonValue.object args).WellFormed)
    (hargs' : (JsonValue.object args').WellFormed) :
    RunsWhatIsSigned numbers hash toolName args args' ↔
      args.lookup protoName = none ∧ args'.lookup protoName = none := by
  constructor
  · intro h
    exact ⟨no_proto_of_keepsCall hargs h.keepsLeft, no_proto_of_keepsCall hargs' h.keepsRight⟩
  · rintro ⟨hproto, hproto'⟩
    have hkept := wellFormed_withoutKeys hargs isKyaOsControlArg
    have hkept' := wellFormed_withoutKeys hargs' isKyaOsControlArg
    refine ⟨keepsCall_of_no_proto hargs hproto, keepsCall_of_no_proto hargs' hproto', ?_, ?_⟩
    · intro digest hleft hright gates name
      rw [toHolderBindingRequest_eq hargs hproto] at hleft
      rw [toHolderBindingRequest_eq hargs' hproto'] at hright
      rw [handedArgs_eq hargs hproto, handedArgs_eq hargs' hproto']
      exact alike_get (same_of_hashRequest hprints hinjective hkept hkept' hleft hright name)
    · intro approvalsKey gates digest hleft hright name hcustom
      rw [handedArgs_eq hargs hproto] at hleft ⊢
      rw [handedArgs_eq hargs' hproto'] at hright ⊢
      apply alike_get
      have haction := same_of_hashRequest hprints hinjective (wellFormed_withoutKeys hkept _)
        (wellFormed_withoutKeys hkept' _) hleft hright name
      by_cases hkey : name = approvalsKey
      · -- a reserved approvals key is not among the members that are left
        have hcontrol : isKyaOsControlArg name = true := by
          by_contra hordinary
          exact hcustom (hkey ▸ Bool.eq_false_iff.mpr hordinary) hkey
        rw [lookup_withoutKeys, lookup_withoutKeys, if_pos hcontrol, if_pos hcontrol]
        exact .none
      · simpa only [lookup_withoutKeys (withoutKeys args isKyaOsControlArg),
          lookup_withoutKeys (withoutKeys args' isKyaOsControlArg), decide_eq_true_eq, hkey,
          if_false] using haction

end NoProto

/-- A call that pays to whoever its prototype names, signed as a call without arguments. -/
def hiddenArgs : Members SampleDouble :=
  [(protoName, .object [(js "payee", .string (js "mallory"))])]

theorem runsWhatIsSigned_hidden :
    ¬ RunsWhatIsSigned sampleDoubles sampleSha256 (js "pay") hiddenArgs [] := by
  intro h
  have hsigned : ∀ args : PlainObject SampleDouble, args.members = [] →
      ∃ digest, hashRequest sampleDoubles sampleSha256
        (approvedAction (js "pay") (js "_kyaos_approvals") args) = .ok digest := by
    intro args hargs
    rw [hashRequest, approvedAction, hargs, computeCanonicalHashes_sample _ (by decide)]
    exact ⟨_, rfl⟩
  obtain ⟨digest, hdigest⟩ := hsigned (handedArgs ⟨hiddenArgs, .objectPrototype⟩ 0) rfl
  have hpayee := h.approver (js "_kyaos_approvals") 0 digest hdigest hdigest (js "payee")
    (fun hordinary => absurd hordinary (by decide))
  cases hpayee

theorem runsWhatIsSigned_held :
    RunsWhatIsSigned sampleDoubles sampleSha256 (js "read") sampleControlled sampleArgs := by
  refine (runsWhatIsSigned_iff sampleDoubles_prints sampleSha256_injective (js "read")
    (.object (by decide) ?_) (.object (by decide) ?_)).mpr ⟨by decide, by decide⟩
  · simp [sampleControlled, sampleArgs, WellFormed.string]
  · simp [sampleArgs, WellFormed.string]

end KyaOs.Middleware
