import KyaOs.Audit.Digests
import KyaOs.Proof.CoveredRequest

/-!
# What the hashes of a proof bind

A proof carries the hash of a request and, when there was one, of a response. Under an
injective hash an accepted request hash is of a request for the same call, and two
accepted responses are the same as far as the profile covers them: except, under the
envelope profile, for a `__proto__` member that the copy of the envelope loses.
-/

namespace KyaOs.Proof

open Js JsonValue Audit

variable {D : Type}

def responseProofProfileBody : JsString := js "org.kya-os/response-proof.body"
def responseProofProfileEnvelope : JsString := js "org.kya-os/response-proof.envelope"

structure ToolResponse (D : Type) where
  data : JsonValue D

structure CanonicalHashes where
  requestHash : Digest
  responseHash : Option Digest

/-- `Pick<ProofMeta, 'requestHash' | 'responseHash' | 'prf'>`. -/
structure BoundHashes where
  requestHash : Digest
  responseHash : Option Digest
  prf : Option JsString

inductive ContentBindingMismatch where
  | request
  | response
  | responseMissing
  | responseUnexpected
  deriving DecidableEq

inductive Prototype where
  | objectPrototype
  | null
  /-- Any other object. -/
  | other
  deriving DecidableEq

/-- An object under construction. -/
structure ObjectCopy (D : Type) where
  members : Members D
  prototype : Prototype

def protoName : JsString := js "__proto__"

/-- What assigning `value` to an inherited `__proto__` accessor makes of a prototype. -/
def Prototype.assigned (prototype : Prototype) : JsonValue D → Prototype
  | .null => .null
  | .array _ | .object _ => .other
  | _ => prototype

/-- `envelope[key] = value`. Only an object without prototype inherits no `__proto__`
accessor. -/
def ObjectCopy.assign (envelope : ObjectCopy D) (key : JsString) (value : JsonValue D) :
    ObjectCopy D :=
  if key = protoName ∧ envelope.prototype ≠ .null then
    { envelope with prototype := envelope.prototype.assigned value }
  else { envelope with members := assignMember key value envelope.members }

def ObjectCopy.copyMembers (envelope : ObjectCopy D) : Members D → ObjectCopy D
  | [] => envelope
  | (key, value) :: rest =>
    (if key ≠ js "_meta" then envelope.assign key value else envelope).copyMembers rest

/-- What the copy is to the canonical encoder. -/
def ObjectCopy.toValue (envelope : ObjectCopy D) : JsonValue D :=
  if envelope.prototype = .other then .refused (js "non-plain object")
  else .object envelope.members

def canonicalResponseBody (data : JsonValue D) (profile : JsString) : JsonValue D :=
  match data with
  | .object members =>
    if profile ≠ responseProofProfileEnvelope then data
    else (ObjectCopy.copyMembers ⟨[], .objectPrototype⟩ members).toValue
  | _ => data

section Hashes

variable (numbers : Doubles D) (hash : Bytes → Except Error Digest)

/-- `hash(canonicalizeJsonBytes(value))`. -/
def hashJson (value : JsonValue D) : Except Error Digest := do
  let text ← canonicalizeJson numbers value
  hash (encodeUtf8 text)

/-- The request as hashed: falsy params are left out. -/
def canonicalRequest (request : ToolRequest D) : JsonValue D :=
  .object ((js "method", .string request.method) ::
    ((request.params.filter (truthy numbers)).toList.map fun params => (js "params", params)))

def computeCanonicalHashes (request : ToolRequest D) (response : Option (ToolResponse D))
    (profile : JsString) : Except Error CanonicalHashes := do
  let requestHash ← hashJson numbers hash (canonicalRequest numbers request)
  match response with
  | none => return { requestHash, responseHash := none }
  | some response =>
    let responseHash ← hashJson numbers hash (canonicalResponseBody response.data profile)
    return { requestHash, responseHash := some responseHash }

def acceptedRequestHashes (request : ToolRequest D) : Except Error (List Digest) := do
  let hashes ← (request :: alternateRequestShapes request).mapM fun shape => do
    return (← computeCanonicalHashes numbers hash shape none responseProofProfileBody).requestHash
  return hashes.eraseDups

/-- Whether `meta.requestHash` is accepted for the request, whose hash as given is tried
first. -/
def bindsRequest (bound : BoundHashes) (request : ToolRequest D) (requestHash : Digest) :
    Except Error Bool :=
  if bound.requestHash = requestHash then .ok true
  else (·.contains bound.requestHash) <$> acceptedRequestHashes numbers hash request

def findContentBindingMismatch (bound : BoundHashes) (request : ToolRequest D)
    (response : Option (ToolResponse D)) : Except Error (Option ContentBindingMismatch) := do
  let hashes ← computeCanonicalHashes numbers hash request response
    (bound.prf.getD responseProofProfileBody)
  let bindsRequest ← bindsRequest numbers hash bound request hashes.requestHash
  return if !bindsRequest then some .request
    else if bound.responseHash.isSome ≠ response.isSome then
      some (if bound.responseHash.isSome then .responseMissing else .responseUnexpected)
    else if bound.responseHash.isSome ∧ bound.responseHash ≠ hashes.responseHash then
      some .response
    else none

end Hashes

variable {numbers : Doubles D} {hash : Bytes → Except Error Digest}

theorem hashJson_eq_ok {value : JsonValue D} {digest : Digest} :
    hashJson numbers hash value = .ok digest ↔
      ∃ text, canonicalizeJson numbers value = .ok text ∧ hash (encodeUtf8 text) = .ok digest :=
  bind_eq_ok

/-- One hash is of one value. -/
theorem same_of_hashJson (hprints : numbers.Prints) (hinjective : Injective hash)
    {v w : JsonValue D} (hv : v.WellFormed) (hw : w.WellFormed) {digest : Digest}
    (hleft : hashJson numbers hash v = .ok digest)
    (hright : hashJson numbers hash w = .ok digest) : Same numbers v w := by
  obtain ⟨text, htext, hdigest⟩ := hashJson_eq_ok.mp hleft
  obtain ⟨text', htext', hdigest'⟩ := hashJson_eq_ok.mp hright
  exact same_of_encodeUtf8 hprints hv hw htext htext' (hinjective _ _ _ hdigest hdigest')

theorem computeCanonicalHashes_eq_ok {request : ToolRequest D} {response : Option (ToolResponse D)}
    {profile : JsString} {hashes : CanonicalHashes} :
    computeCanonicalHashes numbers hash request response profile = .ok hashes ↔
      hashJson numbers hash (canonicalRequest numbers request) = .ok hashes.requestHash ∧
        Option.Rel
          (fun response digest =>
            hashJson numbers hash (canonicalResponseBody response.data profile) = .ok digest)
          response hashes.responseHash := by
  obtain ⟨requestHash, responseHash⟩ := hashes
  rw [computeCanonicalHashes, bind_eq_ok]
  cases response with
  | none =>
      constructor
      · rintro ⟨digest, hrequest, hreturned⟩
        cases hreturned
        exact ⟨hrequest, .none⟩
      · rintro ⟨hrequest, hnone⟩
        cases hnone
        exact ⟨requestHash, hrequest, rfl⟩
  | some response =>
      constructor
      · rintro ⟨digest, hrequest, hrest⟩
        obtain ⟨digest', hresponse, hreturned⟩ := bind_eq_ok.mp hrest
        cases hreturned
        exact ⟨hrequest, .some hresponse⟩
      · rintro ⟨hrequest, hsome⟩
        cases hsome with
        | some hresponse => exact ⟨requestHash, hrequest, bind_eq_ok.mpr ⟨_, hresponse, rfl⟩⟩

theorem wellFormed_canonicalRequest {request : ToolRequest D} (h : request.WellFormed) :
    (canonicalRequest numbers request).WellFormed := by
  cases hparams : request.params.filter (truthy numbers) with
  | none =>
      rw [canonicalRequest, hparams]
      refine .object (by simp) ?_
      intro member hmember
      obtain rfl := List.mem_singleton.mp hmember
      exact .string _
  | some params =>
      rw [canonicalRequest, hparams]
      refine .object (by simp only [Option.toList_some, List.map_cons, List.map_nil]; decide) ?_
      intro member hmember
      simp only [Option.toList_some, List.map_cons, List.map_nil, List.mem_cons,
        List.not_mem_nil, or_false] at hmember
      obtain rfl | rfl := hmember
      · exact .string _
      · exact h params (Option.filter_eq_some_iff.mp hparams).1

theorem lookup_canonicalRequest (request : ToolRequest D) (name : JsString) :
    ((js "method", JsonValue.string request.method) ::
      ((request.params.filter (truthy numbers)).toList.map fun params =>
        (js "params", params))).lookup name =
      if name = js "method" then some (.string request.method)
      else if name = js "params" then request.params.filter (truthy numbers) else none := by
  by_cases hmethod : name = js "method"
  · simp [hmethod]
  · rw [List.lookup_cons, beq_false_of_ne hmethod, if_neg hmethod]
    cases request.params.filter (truthy numbers) with
    | none => simp
    | some params =>
        by_cases hparams : name = js "params"
        · simp [hparams]
        · simp [List.lookup_cons, hparams, beq_false_of_ne hparams]

/-- Requests hashed from one value have one method and the same covered params. -/
theorem same_canonicalRequest {request request' : ToolRequest D}
    (h : Same numbers (canonicalRequest numbers request) (canonicalRequest numbers request')) :
    request.method = request'.method ∧
      Option.Rel (Same numbers) (request.params.filter (truthy numbers))
        (request'.params.filter (truthy numbers)) := by
  have hmember := same_object_iff.mp h
  constructor
  · have hmethod := hmember (js "method")
    rw [lookup_canonicalRequest, lookup_canonicalRequest, if_pos rfl, if_pos rfl,
      Option.rel_some_some, same_string] at hmethod
    exact hmethod
  · have hparams := hmember (js "params")
    rwa [lookup_canonicalRequest, lookup_canonicalRequest, if_neg (by decide), if_pos rfl,
      if_neg (by decide), if_pos rfl] at hparams

theorem rel_some_left {α β : Type} {r : α → β → Prop} {a : α} {y : Option β}
    (h : Option.Rel r (some a) y) : ∃ b, y = some b ∧ r a b := by
  cases h with
  | some hr => exact ⟨_, rfl, hr⟩

theorem rel_some_right {α β : Type} {r : α → β → Prop} {x : Option α} {b : β}
    (h : Option.Rel r x (some b)) : ∃ a, x = some a ∧ r a b := by
  cases h with
  | some hr => exact ⟨_, rfl, hr⟩

/-- Falsy params are hashed as absent ones, so the hashed params of a call without
arguments are absent. -/
theorem filter_truthy_eq_none {params : Option (JsonValue D)}
    (h : ∀ value, params = some value → truthy numbers value = false) :
    params.filter (truthy numbers) = none := by
  cases params with
  | none => rfl
  | some value => simp [h value rfl]

/-- Two requests hashed from one value describe one call. -/
theorem ToolRequest.Describes.same {request request' : ToolRequest D} {tool tool' : JsString}
    {args args' : Members D} (h : request.Describes numbers tool args)
    (h' : request'.Describes numbers tool' args') (htool : tool ≠ toolsCallMethod)
    (htool' : tool' ≠ toolsCallMethod)
    (hsame : Same numbers (canonicalRequest numbers request) (canonicalRequest numbers request')) :
    tool = tool' ∧ Same numbers (.object args) (.object args') := by
  have hempty : Same numbers (.object ([] : Members D)) (.object []) :=
    same_object_iff.mpr fun _ => .none
  obtain ⟨hmethod, hparams⟩ := same_canonicalRequest hsame
  cases h with
  | toolsCall hname hargs =>
      cases h' with
      | toolsCall hname' hargs' =>
          have hmember := same_object_iff.mp (Option.rel_some_some.mp hparams)
          have hnames := hmember (js "name")
          rw [hname, hname', Option.rel_some_some, same_string] at hnames
          have hsameArgs := hmember (js "arguments")
          rw [hargs, hargs'] at hsameArgs
          exact ⟨hnames, Option.rel_some_some.mp hsameArgs⟩
      | toolsCallNoArguments hname' hargs' =>
          have hsameArgs := same_object_iff.mp (Option.rel_some_some.mp hparams) (js "arguments")
          rw [hargs] at hsameArgs
          obtain ⟨value, hvalue, hobject⟩ := rel_some_left hsameArgs
          obtain rfl := hargs' value hvalue
          cases Option.rel_some_some.mp (hobject [])
      | legacy => exact absurd hmethod.symm htool'
      | legacyNoArguments => exact absurd hmethod.symm htool'
  | toolsCallNoArguments hname hargs =>
      cases h' with
      | toolsCall hname' hargs' =>
          have hsameArgs := same_object_iff.mp (Option.rel_some_some.mp hparams) (js "arguments")
          rw [hargs'] at hsameArgs
          obtain ⟨value, hvalue, hobject⟩ := rel_some_right hsameArgs
          obtain rfl := hargs value hvalue
          cases Option.rel_some_some.mp (hobject [])
      | toolsCallNoArguments hname' hargs' =>
          have hnames := same_object_iff.mp (Option.rel_some_some.mp hparams) (js "name")
          rw [hname, hname', Option.rel_some_some, same_string] at hnames
          exact ⟨hnames, hempty⟩
      | legacy => exact absurd hmethod.symm htool'
      | legacyNoArguments => exact absurd hmethod.symm htool'
  | legacy =>
      cases h' with
      | toolsCall => exact absurd hmethod htool
      | toolsCallNoArguments => exact absurd hmethod htool
      | legacy => exact ⟨hmethod, Option.rel_some_some.mp hparams⟩
      | legacyNoArguments _ habsent =>
          rw [filter_truthy_eq_none habsent] at hparams
          cases hparams
  | legacyNoArguments _ habsent =>
      rw [filter_truthy_eq_none habsent] at hparams
      cases h' with
      | toolsCall => exact absurd hmethod htool
      | toolsCallNoArguments => exact absurd hmethod htool
      | legacy => cases hparams
      | legacyNoArguments => exact ⟨hmethod, hempty⟩

/-- An accepted hash is that of the request or of one of its other shapes. -/
theorem exists_shape_of_mem {request : ToolRequest D} {accepted : List Digest}
    (h : acceptedRequestHashes numbers hash request = .ok accepted) {digest : Digest}
    (hmem : digest ∈ accepted) :
    ∃ shape ∈ request :: alternateRequestShapes request,
      hashJson numbers hash (canonicalRequest numbers shape) = .ok digest := by
  obtain ⟨hashes, hhashes, hresult⟩ := bind_eq_ok.mp h
  obtain rfl := Except.ok.inj hresult
  rw [List.mem_eraseDups] at hmem
  obtain ⟨shape, hshape, hcall⟩ := exists_of_mapM_eq_ok hhashes hmem
  obtain ⟨computed, hcomputed, hdigest⟩ := bind_eq_ok.mp hcall
  obtain rfl := Except.ok.inj hdigest
  exact ⟨shape, hshape, (computeCanonicalHashes_eq_ok.mp hcomputed).1⟩

/-- Every accepted shape describes the call, up to its control arguments. -/
theorem describes_of_mem {request : ToolRequest D} {tool : JsString} {args : Members D}
    (h : request.Describes numbers tool args) (htool : tool ≠ toolsCallMethod)
    {shape : ToolRequest D} (hshape : shape ∈ request :: alternateRequestShapes request) :
    ∃ args', shape.Describes numbers tool args' ∧
      withoutKeys args' isKyaOsControlArg = withoutKeys args isKyaOsControlArg := by
  cases List.mem_cons.mp hshape with
  | inl hgiven => exact ⟨args, hgiven ▸ h, rfl⟩
  | inr halternate =>
      obtain ⟨call, hcall, rfl, hargs⟩ := asToolCall_of_mem h htool halternate
      exact ⟨call.args, describes_of_asToolCall hcall, hargs⟩

/-- An accepted request hash is of a request for the held call, up to control arguments,
and each shape it is accepted for reads back as that call. -/
theorem acceptedRequestHashes_bind (hprints : numbers.Prints) (hinjective : Injective hash)
    {produced held : ToolRequest D} (hproduced : produced.WellFormed) (hheld : held.WellFormed)
    {tool tool' : JsString} {args args' : Members D}
    (hcall : produced.Describes numbers tool args) (hcall' : held.Describes numbers tool' args')
    (htool : tool ≠ toolsCallMethod) (htool' : tool' ≠ toolsCallMethod) :
    (∀ response profile hashes accepted,
      computeCanonicalHashes numbers hash produced response profile = .ok hashes →
        acceptedRequestHashes numbers hash held = .ok accepted →
          hashes.requestHash ∈ accepted →
            tool = tool' ∧ Same numbers (.object (withoutKeys args isKyaOsControlArg))
              (.object (withoutKeys args' isKyaOsControlArg))) ∧
      ∀ shape ∈ alternateRequestShapes held, ∃ call, asToolCall shape = some call ∧
        call.name = tool' ∧
          withoutKeys call.args isKyaOsControlArg = withoutKeys args' isKyaOsControlArg := by
  refine ⟨?_, fun shape hshape => asToolCall_of_mem hcall' htool' hshape⟩
  intro response profile hashes accepted hhashes haccepted hmem
  have hrequest := (computeCanonicalHashes_eq_ok.mp hhashes).1
  obtain ⟨shape, hshape, hdigest⟩ := exists_shape_of_mem haccepted hmem
  have hwellFormed : shape.WellFormed := by
    cases List.mem_cons.mp hshape with
    | inl hgiven => exact hgiven ▸ hheld
    | inr halternate => exact wellFormed_of_mem hheld halternate
  have hsame := same_of_hashJson hprints hinjective (wellFormed_canonicalRequest hproduced)
    (wellFormed_canonicalRequest hwellFormed) hrequest hdigest
  obtain ⟨shapeArgs, hdescribes, hargs⟩ := describes_of_mem hcall' htool' hshape
  obtain ⟨hname, hsameArgs⟩ := hcall.same hdescribes htool htool' hsame
  exact ⟨hname, hargs ▸ hsameArgs.withoutKeys isKyaOsControlArg⟩

/-- The sample hash of a value. -/
def sampleHash (value : JsonValue SampleDouble) : Digest :=
  match hashJson sampleDoubles sampleSha256 value with
  | .ok digest => digest
  | .error _ => []

theorem hashJson_sample {value : JsonValue SampleDouble}
    (h : isCanonical sampleDoubles value = true) :
    hashJson sampleDoubles sampleSha256 value = .ok (sampleHash value) := by
  obtain ⟨hwellFormed, hsupported⟩ := canonical_of_isCanonical value h
  obtain ⟨text, htext⟩ := (canonicalizeJson_eq_ok sampleDoubles_prints hwellFormed).mpr hsupported
  have hhash : hashJson sampleDoubles sampleSha256 value = .ok _ :=
    hashJson_eq_ok.mpr ⟨text, htext, rfl⟩
  rw [sampleHash, hhash]

theorem computeCanonicalHashes_sample {request : ToolRequest SampleDouble} (profile : JsString)
    (h : isCanonical sampleDoubles (canonicalRequest sampleDoubles request) = true) :
    computeCanonicalHashes sampleDoubles sampleSha256 request none profile =
      .ok ⟨sampleHash (canonicalRequest sampleDoubles request), none⟩ := by
  rw [computeCanonicalHashes_eq_ok]
  exact ⟨hashJson_sample h, .none⟩

theorem acceptedRequestHashes_sample (request : ToolRequest SampleDouble)
    (h : ∀ shape ∈ request :: alternateRequestShapes request,
      isCanonical sampleDoubles (canonicalRequest sampleDoubles shape) = true) :
    acceptedRequestHashes sampleDoubles sampleSha256 request =
      .ok ((request :: alternateRequestShapes request).map fun shape =>
        sampleHash (canonicalRequest sampleDoubles shape)).eraseDups := by
  rw [acceptedRequestHashes, bind_eq_ok]
  refine ⟨_, (mapM_ok (p := fun _ => True) ?_ _).mpr ⟨fun _ _ => trivial, rfl⟩, rfl⟩
  intro shape hshape digest
  rw [computeCanonicalHashes_sample _ (h shape hshape)]
  simp [bind, Except.bind, pure, Except.pure, eq_comm]

def sampleArgs : Members SampleDouble := [(js "path", .string (js "/a"))]

/-- The arguments of the sample call with a control argument. -/
def sampleControlled : Members SampleDouble :=
  (js "_kyaos_proof", .string (js "proof")) :: sampleArgs

/-- The legacy request a producer hashes. -/
def sampleProduced : ToolRequest SampleDouble :=
  { method := js "read", params := some (.object sampleArgs) }

/-- The request of the same call as sent. -/
def sampleHeld : ToolRequest SampleDouble :=
  { method := toolsCallMethod
    params := some (.object [(js "name", .string (js "read")), (js "_meta", .null),
      (js "arguments", .object sampleControlled)]) }

theorem acceptedRequestHashes_bind_held :
    js "read" = js "read" ∧
      Same sampleDoubles (.object (withoutKeys sampleArgs isKyaOsControlArg))
        (.object (withoutKeys sampleControlled isKyaOsControlArg)) := by
  have hproduced : sampleProduced.WellFormed := by
    intro params hparams
    obtain rfl := Option.some.inj hparams
    have hcanonical : isCanonical sampleDoubles (.object sampleArgs) = true := by decide
    exact (canonical_of_isCanonical _ hcanonical).1
  have hheld : sampleHeld.WellFormed := by
    intro params hparams
    obtain rfl := Option.some.inj hparams
    have hcanonical : isCanonical sampleDoubles (.object [(js "name", .string (js "read")),
        (js "_meta", .null), (js "arguments", .object sampleControlled)]) = true := by decide
    exact (canonical_of_isCanonical _ hcanonical).1
  have haccepted := acceptedRequestHashes_sample sampleHeld (by decide)
  have hshape : sampleProduced ∈ sampleHeld :: alternateRequestShapes sampleHeld :=
    .tail _ (.tail _ (.tail _ (.head _)))
  exact (acceptedRequestHashes_bind sampleDoubles_prints sampleSha256_injective hproduced hheld
    (.legacy _ _) (.toolsCall rfl rfl) (by decide) (by decide)).1 none responseProofProfileBody _ _
    (computeCanonicalHashes_sample _ (by decide)) haccepted
    (List.mem_eraseDups.mpr (List.mem_map_of_mem hshape))

theorem canonicalResponseBody_of_ne {profile : JsString}
    (h : profile ≠ responseProofProfileEnvelope) (data : JsonValue D) :
    canonicalResponseBody data profile = data := by
  cases data with
  | object members => exact if_pos h
  | _ => rfl

/-- Content with the hashes that a proof carries is accepted. -/
theorem findContentBindingMismatch_of_hashes {bound : BoundHashes} {request : ToolRequest D}
    {response : Option (ToolResponse D)}
    (h : computeCanonicalHashes numbers hash request response
      (bound.prf.getD responseProofProfileBody) = .ok ⟨bound.requestHash, bound.responseHash⟩) :
    findContentBindingMismatch numbers hash bound request response = .ok none := by
  have hsupplied : bound.responseHash.isSome = response.isSome := by
    obtain ⟨-, hresponse⟩ := computeCanonicalHashes_eq_ok.mp h
    generalize bound.responseHash = responseHash at hresponse
    cases hresponse <;> rfl
  refine bind_eq_ok.mpr ⟨_, h, bind_eq_ok.mpr ⟨true, if_pos rfl, ?_⟩⟩
  simp [hsupplied]
  rfl

/-- What an accepted proof says: the response it was checked with, if any, has the hash
it carries. -/
theorem hashes_of_accepted {bound : BoundHashes} {request : ToolRequest D}
    {response : Option (ToolResponse D)}
    (h : findContentBindingMismatch numbers hash bound request response = .ok none) :
    bound.responseHash.isSome = response.isSome ∧
      Option.Rel
        (fun response digest => hashJson numbers hash (canonicalResponseBody response.data
          (bound.prf.getD responseProofProfileBody)) = .ok digest)
        response bound.responseHash := by
  obtain ⟨hashes, hhashes, hrest⟩ := bind_eq_ok.mp h
  obtain ⟨binds, -, hreturned⟩ := bind_eq_ok.mp hrest
  have hmismatch := Except.ok.inj hreturned
  have hresponse := (computeCanonicalHashes_eq_ok.mp hhashes).2
  split at hmismatch
  · cases hmismatch
  · split at hmismatch
    · cases hmismatch
    · rename_i hsupplied
      have hsupplied := not_not.mp hsupplied
      split at hmismatch
      · cases hmismatch
      · rename_i hequal
        refine ⟨hsupplied, ?_⟩
        cases hbound : bound.responseHash with
        | none =>
            rw [hbound] at hsupplied
            rw [Option.isSome_eq_false_iff.mp hsupplied.symm |> Option.isNone_iff_eq_none.mp]
            exact .none
        | some digest =>
            have hsame : bound.responseHash = hashes.responseHash := by
              by_contra hne
              exact hequal ⟨by simp [hbound], hne⟩
            rwa [← hbound, hsame]

/-- The value without its top-level `_meta` member. -/
def withoutMeta : JsonValue D → JsonValue D
  | .object members => .object (withoutKeys members fun key => key = js "_meta")
  | value => value

/-- The names of an envelope that its copy does not hold. -/
def isUncopied (name : JsString) : Bool := name = js "_meta" ∨ name = protoName

theorem copyMembers_meta (envelope : ObjectCopy D) (value : JsonValue D) (rest : Members D) :
    envelope.copyMembers ((js "_meta", value) :: rest) = envelope.copyMembers rest := by
  rw [ObjectCopy.copyMembers, if_neg (not_not.mpr rfl)]

theorem copyMembers_proto {envelope : ObjectCopy D} (h : envelope.prototype ≠ .null)
    (value : JsonValue D) (rest : Members D) :
    envelope.copyMembers ((protoName, value) :: rest) =
      ObjectCopy.copyMembers { envelope with prototype := envelope.prototype.assigned value }
        rest := by
  rw [ObjectCopy.copyMembers, if_pos (by decide), ObjectCopy.assign, if_pos ⟨rfl, h⟩]

theorem copyMembers_cons (envelope : ObjectCopy D) {key : JsString}
    (h : isUncopied key = false) (value : JsonValue D) (rest : Members D) :
    envelope.copyMembers ((key, value) :: rest) =
      ObjectCopy.copyMembers { envelope with members := assignMember key value envelope.members }
        rest := by
  simp only [isUncopied, decide_eq_false_iff_not, not_or] at h
  rw [ObjectCopy.copyMembers, if_pos h.1, ObjectCopy.assign, if_neg fun hproto => h.2 hproto.1]

/-- What a copy holds: the members of the value but for `_meta` and `__proto__`. An
assigned `__proto__` becomes its prototype. -/
theorem copyMembers_spec (members : Members D) (hkeys : (members.map Prod.fst).Nodup)
    (envelope : ObjectCopy D)
    (hproto : protoName ∈ members.map Prod.fst → envelope.prototype ≠ .null) :
    (envelope.copyMembers members).prototype =
        (members.lookup protoName).elim envelope.prototype envelope.prototype.assigned ∧
      ∀ name, (envelope.copyMembers members).members.lookup name =
        if isUncopied name then envelope.members.lookup name
        else (members.lookup name).or (envelope.members.lookup name) := by
  induction members generalizing envelope with
  | nil => simp [ObjectCopy.copyMembers]
  | cons member rest ih =>
      obtain ⟨key, value⟩ := member
      rw [List.map_cons, List.nodup_cons] at hkeys
      obtain ⟨hfresh, hrest⟩ := hkeys
      have hproto' : protoName ∈ rest.map Prod.fst → envelope.prototype ≠ .null :=
        fun hmem => hproto (List.mem_cons_of_mem _ hmem)
      have hlookup : rest.lookup key = none := by
        rw [List.lookup_eq_none_iff]
        intro member hmember
        have hne : key ≠ member.1 := fun hsame =>
          hfresh (List.mem_map.mpr ⟨member, hmember, hsame.symm⟩)
        simpa using hne
      by_cases hmeta : key = js "_meta"
      · subst hmeta
        rw [copyMembers_meta]
        obtain ⟨hprototype, hmembers⟩ := ih hrest envelope hproto'
        rw [List.lookup_cons, beq_false_of_ne (show protoName ≠ js "_meta" by decide)]
        refine ⟨hprototype, ?_⟩
        intro name
        rw [hmembers name]
        cases hname : isUncopied name with
        | true => rfl
        | false =>
            simp only [isUncopied, decide_eq_false_iff_not, not_or] at hname
            rw [List.lookup_cons, beq_false_of_ne hname.1]
      · by_cases hkey : key = protoName
        · subst hkey
          rw [copyMembers_proto (hproto List.mem_cons_self)]
          obtain ⟨hprototype, hmembers⟩ := ih hrest
            { envelope with prototype := envelope.prototype.assigned value }
            fun hmem => absurd hmem hfresh
          refine ⟨by simp [hprototype, hlookup], ?_⟩
          intro name
          rw [hmembers name]
          cases hname : isUncopied name with
          | true => rfl
          | false =>
              simp only [isUncopied, decide_eq_false_iff_not, not_or] at hname
              rw [List.lookup_cons, beq_false_of_ne hname.2]
        · have hcopied : isUncopied key = false := by simp [isUncopied, hmeta, hkey]
          rw [copyMembers_cons envelope hcopied]
          obtain ⟨hprototype, hmembers⟩ := ih hrest
            { envelope with members := assignMember key value envelope.members } hproto'
          rw [List.lookup_cons, beq_false_of_ne (Ne.symm hkey)]
          refine ⟨hprototype, ?_⟩
          intro name
          rw [hmembers name, lookup_assignMember]
          by_cases hsame : name = key
          · subst hsame
            simp [hcopied, hlookup]
          · simp [hsame, List.lookup_cons, beq_false_of_ne hsame]

theorem wellFormed_copyMembers {members : Members D}
    (hmembers : ∀ member ∈ members, member.2.WellFormed) {envelope : ObjectCopy D}
    (h : (JsonValue.object envelope.members).WellFormed) :
    (JsonValue.object (envelope.copyMembers members).members).WellFormed := by
  induction members generalizing envelope with
  | nil => exact h
  | cons member rest ih =>
      rw [List.forall_mem_cons] at hmembers
      rw [ObjectCopy.copyMembers]
      apply ih hmembers.2
      split
      · rw [ObjectCopy.assign]
        split
        · exact h
        · exact wellFormed_assignMember h hmembers.1 _
      · exact h

theorem wellFormed_canonicalResponseBody {data : JsonValue D} (hdata : data.WellFormed)
    (profile : JsString) : (canonicalResponseBody data profile).WellFormed := by
  cases data with
  | object members =>
      rw [canonicalResponseBody]
      split
      · exact hdata
      · cases hdata with
        | object hkeys hmembers =>
            rw [ObjectCopy.toValue]
            split
            · exact .refused _
            · exact wellFormed_copyMembers hmembers (.object List.nodup_nil fun _ h => by cases h)
  | _ => exact hdata

/-- The copy of a response under the envelope profile. -/
def envelopeCopy (members : Members D) : ObjectCopy D :=
  ObjectCopy.copyMembers ⟨[], .objectPrototype⟩ members

theorem canonicalResponseBody_envelope (members : Members D) :
    canonicalResponseBody (.object members) responseProofProfileEnvelope =
      (envelopeCopy members).toValue := by
  rw [canonicalResponseBody, if_neg (not_not.mpr rfl), envelopeCopy]

theorem lookup_envelopeCopy {members : Members D} (hkeys : (members.map Prod.fst).Nodup)
    {name : JsString} (hname : isUncopied name = false) :
    (envelopeCopy members).members.lookup name = members.lookup name := by
  have hspec := (copyMembers_spec members hkeys ⟨[], .objectPrototype⟩ fun _ => by simp).2 name
  rw [envelopeCopy, hspec, hname]
  simp

/-- Nothing is the same as a value that the encoder refuses. -/
theorem toValue_eq_object {envelope : ObjectCopy D} {v : JsonValue D}
    (h : NodeSame numbers envelope.toValue v ∨ NodeSame numbers v envelope.toValue) :
    envelope.toValue = .object envelope.members := by
  rw [ObjectCopy.toValue] at h ⊢
  split at h
  · cases h with
    | inl hnode => cases hnode
    | inr hnode => cases hnode
  · rename_i hplain
    rw [if_neg hplain]

/-- Envelopes hashed from one value are the same member by member, where copied. -/
theorem same_envelopes {members members' : Members D}
    (hkeys : (members.map Prod.fst).Nodup) (hkeys' : (members'.map Prod.fst).Nodup)
    (h : Same numbers (canonicalResponseBody (.object members) responseProofProfileEnvelope)
      (canonicalResponseBody (.object members') responseProofProfileEnvelope))
    {name : JsString} (hname : isUncopied name = false) :
    Option.Rel (Same numbers) (members.lookup name) (members'.lookup name) := by
  rw [canonicalResponseBody_envelope, canonicalResponseBody_envelope] at h
  have hnode := Option.rel_some_some.mp (h [])
  rw [toValue_eq_object (.inl hnode), toValue_eq_object (.inr hnode)] at h
  have hmember := same_object_iff.mp h name
  rwa [lookup_envelopeCopy hkeys hname, lookup_envelopeCopy hkeys' hname] at hmember

/-- Two envelopes hashed from one value are the same except for `_meta` exactly when
their `__proto__` members are. -/
theorem same_withoutMeta_iff {v w : JsonValue D} (hv : v.WellFormed) (hw : w.WellFormed)
    (h : Same numbers (canonicalResponseBody v responseProofProfileEnvelope)
      (canonicalResponseBody w responseProofProfileEnvelope)) :
    Same numbers (withoutMeta v) (withoutMeta w) ↔
      Option.Rel (Same numbers) (v.child (.key protoName)) (w.child (.key protoName)) := by
  have hchild : Same numbers (withoutMeta v) (withoutMeta w) →
      Option.Rel (Same numbers) ((withoutMeta v).child (.key protoName))
        ((withoutMeta w).child (.key protoName)) := fun hsame => hsame.child _
  cases hv with
  | object hkeys hmembers =>
      cases hw with
      | object hkeys' hmembers' =>
          simp only [child]
          constructor
          · intro hsame
            have hproto := hchild hsame
            simp only [withoutMeta, child, lookup_withoutKeys] at hproto
            simpa [show protoName ≠ js "_meta" by decide] using hproto
          · intro hproto
            rw [withoutMeta, withoutMeta, same_object_iff]
            intro name
            rw [lookup_withoutKeys, lookup_withoutKeys]
            by_cases hmeta : name = js "_meta"
            · simp [hmeta]
            · by_cases hname : name = protoName
              · subst hname
                simpa [hmeta] using hproto
              · have hcopied : isUncopied name = false := by simp [isUncopied, hmeta, hname]
                simpa [hmeta] using same_envelopes hkeys hkeys' h hcopied
      | _ =>
          rw [canonicalResponseBody_envelope] at h
          have hnode := Option.rel_some_some.mp (h [])
          rw [toValue_eq_object (.inl hnode)] at hnode
          cases hnode
  | _ =>
      cases hw with
      | object hkeys' hmembers' =>
          rw [canonicalResponseBody_envelope] at h
          have hnode := Option.rel_some_some.mp (h [])
          rw [toValue_eq_object (.inr hnode)] at hnode
          cases hnode
      | _ => exact ⟨fun _ => .none, fun _ => h⟩

theorem wellFormed_ofJson {v : Json} (hv : v.WellFormed) : (ofJson numbers v).WellFormed := by
  induction hv with
  | array hitems ih =>
      rw [ofJson, ofJsonItems_eq]
      apply WellFormed.array
      intro item hmem
      obtain ⟨item', hmem', rfl⟩ := List.mem_map.mp hmem
      exact ih item' hmem'
  | @object members hkeys hmembers ih =>
      have heq : ofJsonMembers numbers members = members.map fun m =>
          (m.1, ofJson numbers m.2) := by
        clear hkeys hmembers ih
        induction members with
        | nil => rfl
        | cons member rest ihrest => rw [ofJsonMembers, ihrest, List.map_cons]
      rw [ofJson, heq]
      apply WellFormed.object
      · rw [List.map_map]
        exact hkeys
      · intro member hmem
        obtain ⟨member', hmem', rfl⟩ := List.mem_map.mp hmem
        exact ih member' hmem'
  | _ => constructor

/-- A response is accepted exactly with a proof that carries a response hash, and two
responses accepted for one proof are the same: under the body profile always, under the
envelope profile, `_meta` aside, when their `__proto__` members are. -/
theorem findContentBindingMismatch_binds (hprints : numbers.Prints)
    (hinjective : Injective hash) (bound : BoundHashes) (request : ToolRequest D) :
    (∀ response, findContentBindingMismatch numbers hash bound request response = .ok none →
      (bound.responseHash.isSome ↔ response.isSome)) ∧
    ∀ d₁ d₂ : Json, d₁.WellFormed → d₂.WellFormed →
      findContentBindingMismatch numbers hash bound request (some ⟨ofJson numbers d₁⟩) =
        .ok none →
      findContentBindingMismatch numbers hash bound request (some ⟨ofJson numbers d₂⟩) =
        .ok none →
      if bound.prf = some responseProofProfileEnvelope then
        (Same numbers (withoutMeta (ofJson numbers d₁)) (withoutMeta (ofJson numbers d₂)) ↔
          Option.Rel (Same numbers) ((ofJson numbers d₁).child (.key protoName))
            ((ofJson numbers d₂).child (.key protoName)))
      else Same numbers (ofJson numbers d₁) (ofJson numbers d₂) := by
  constructor
  · intro response h
    rw [(hashes_of_accepted h).1]
  · intro d₁ d₂ hd₁ hd₂ haccepted haccepted'
    obtain ⟨digest, hdigest, hhash⟩ := rel_some_left (hashes_of_accepted haccepted).2
    obtain ⟨digest', hdigest', hhash'⟩ := rel_some_left (hashes_of_accepted haccepted').2
    obtain rfl := Option.some.inj (hdigest.symm.trans hdigest')
    have hsame := same_of_hashJson hprints hinjective
      (wellFormed_canonicalResponseBody (wellFormed_ofJson hd₁) _)
      (wellFormed_canonicalResponseBody (wellFormed_ofJson hd₂) _) hhash hhash'
    split
    · rename_i hprf
      rw [hprf] at hsame
      exact same_withoutMeta_iff (wellFormed_ofJson hd₁) (wellFormed_ofJson hd₂) hsame
    · rename_i hprf
      have hbody : ∀ data : JsonValue D,
          canonicalResponseBody data (bound.prf.getD responseProofProfileBody) = data := by
        intro data
        cases data with
        | object members =>
            rw [canonicalResponseBody, if_pos]
            intro hprofile
            cases hbound : bound.prf with
            | none =>
                rw [hbound] at hprofile
                revert hprofile
                decide
            | some profile =>
                rw [hbound] at hprofile hprf
                exact hprf (congrArg some hprofile)
        | _ => rfl
      rwa [hbody, hbody] at hsame

def sampleRequest : ToolRequest SampleDouble := { method := js "read", params := none }

/-- An envelope proof of an empty result. -/
def sampleBound : BoundHashes where
  requestHash := sampleHash (canonicalRequest sampleDoubles sampleRequest)
  responseHash := some (sampleHash (.object []))
  prf := some responseProofProfileEnvelope

theorem sampleBound_accepts {data : JsonValue SampleDouble}
    (h : canonicalResponseBody data responseProofProfileEnvelope = .object []) :
    findContentBindingMismatch sampleDoubles sampleSha256 sampleBound sampleRequest
      (some ⟨data⟩) = .ok none := by
  have hhashes : computeCanonicalHashes sampleDoubles sampleSha256 sampleRequest (some ⟨data⟩)
      responseProofProfileEnvelope =
        .ok { requestHash := sampleBound.requestHash
              responseHash := sampleBound.responseHash } := by
    rw [computeCanonicalHashes_eq_ok]
    refine ⟨hashJson_sample (by decide), .some ?_⟩
    rw [h]
    exact hashJson_sample (by decide)
  have hprofile : sampleBound.prf.getD responseProofProfileBody = responseProofProfileEnvelope :=
    rfl
  rw [findContentBindingMismatch, hprofile, hhashes]
  simp [bind, Except.bind, pure, Except.pure, bindsRequest, sampleBound]

/-- A result with a `__proto__` text. -/
def sampleSpoof : Json := .object [(protoName, .string (js "spoof"))]

/-- An intermediary can add a `__proto__` text to an accepted result. -/
theorem sampleBound_accepts_spoof :
    findContentBindingMismatch sampleDoubles sampleSha256 sampleBound sampleRequest
        (some ⟨ofJson sampleDoubles (.object [])⟩) = .ok none ∧
      findContentBindingMismatch sampleDoubles sampleSha256 sampleBound sampleRequest
        (some ⟨ofJson sampleDoubles sampleSpoof⟩) = .ok none ∧
      ¬ Same sampleDoubles (withoutMeta (ofJson sampleDoubles sampleSpoof))
        (withoutMeta (ofJson sampleDoubles (.object []))) := by
  refine ⟨sampleBound_accepts rfl, sampleBound_accepts rfl, ?_⟩
  intro hsame
  have hmember := hsame.child (.key protoName)
  have hspoof : (withoutMeta (ofJson sampleDoubles sampleSpoof)).child (.key protoName) =
    some (.string (js "spoof")) := by rfl
  rw [hspoof] at hmember
  obtain ⟨value, hvalue, -⟩ := rel_some_left hmember
  cases hvalue

theorem findContentBindingMismatch_binds_spoof :
    Same sampleDoubles (withoutMeta (ofJson sampleDoubles sampleSpoof))
        (withoutMeta (ofJson sampleDoubles (.object []))) ↔
      Option.Rel (Same sampleDoubles)
        ((ofJson sampleDoubles sampleSpoof).child (.key protoName))
        ((ofJson sampleDoubles (.object [])).child (.key protoName)) := by
  have hspoof : sampleSpoof.WellFormed := by
    refine .object (List.nodup_singleton _) ?_
    intro member hmember
    obtain rfl := List.mem_singleton.mp hmember
    exact .string _
  have hempty : (Json.object []).WellFormed :=
    .object List.nodup_nil fun _ hmember => by cases hmember
  have hprf : sampleBound.prf = some responseProofProfileEnvelope := rfl
  have hbinds := (findContentBindingMismatch_binds sampleDoubles_prints sampleSha256_injective
    sampleBound sampleRequest).2 sampleSpoof (.object []) hspoof hempty
    (sampleBound_accepts rfl) (sampleBound_accepts rfl)
  rwa [if_pos hprf] at hbinds

end KyaOs.Proof
