import KyaOs.Middleware.KyaOsTransport
import KyaOs.Middleware.SentCoverage

/-!
# Where the members of a result come from

The members of a result's `_meta` that only the middleware sets: its proofs, its proof
errors and its audit markers. Whatever a copy adds under these names is the middleware's own.
-/

namespace KyaOs.Middleware

open Js Untyped JsonValue Proof Concurrency Concurrency.Async

/-- The members of a sent result that only the middleware sets. -/
def ownMetaKeys : List JsString := proofMetaKeys ++ [js "proofError", auditMetaKey]

def proofErrors : List JsString := [unprovenProofError, ambiguousSessionProofError]

/-- Why the audit of a result is marked degraded. -/
def degradedReasons : List JsString :=
  [js "Required intent audit delivery failed before tool execution",
    js "Required terminal audit delivery failed for an error response",
    js "Required terminal audit delivery failed after tool completion",
    js "Required proof-failure audit delivery failed after tool completion",
    js "Required terminal audit delivery failed for authorization outcome",
    js "Required proof audit delivery failed for authorization outcome"]

/-- The audit markers that the middleware makes. -/
inductive OwnMarker : JsonValue JsNumber → Prop
  | outcome (outcome : AuthorizationOutcome) (terminalAuditDelivered : Bool) :
      OwnMarker (outcomeMarker outcome terminalAuditDelivered)
  | fresh {reason : JsString} (hreason : reason ∈ degradedReasons) :
      OwnMarker (degraded [] reason)
  | added {marker : Members JsNumber} {reason : JsString} (h : OwnMarker (.object marker))
      (hreason : reason ∈ degradedReasons) : OwnMarker (degraded marker reason)

/-- What the middleware itself puts under a name, in a call with this conversation. -/
inductive Produced (log : List (Exchange Sessions)) : JsString → JsonValue JsNumber → Prop
  | proof {key id : JsString} {request : ToolRequest JsNumber}
      {response : Option (ToolResponse JsNumber)} {session : SessionContext}
      {options : ProofOptions} {proof : DetachedProof}
      (hkey : key ∈ [kyaOsProofMetaKey, legacyProofMetaKey])
      (hminted : ⟨.generateProof id request response session options, .ok proof⟩ ∈ log) :
      Produced log key proof.toValue
  | proofError {text : JsString} (htext : text ∈ proofErrors) :
      Produced log (js "proofError") (.string text)
  | audit {marker : JsonValue JsNumber} (hmarker : OwnMarker marker) :
      Produced log auditMetaKey marker

/-- Under these names a `_meta` holds what the middleware produced, or nothing. -/
def OwnUnder (log : List (Exchange Sessions)) (keys : List JsString) (metadata : Untyped) : Prop :=
  ∀ key ∈ keys, ∀ value, metadata.member? key = some value → Produced log key value

/-- One `_meta` at most: an object has one member of a name. -/
def SingleMeta (result : ToolResult) : Prop :=
  ((spreadOf (some result)).map Prod.fst).count (js "_meta") ≤ 1

/-- A result relays nothing under these names, of those that only the middleware sets. -/
structure Own (log : List (Exchange Sessions)) (keys : List JsString) (result : ToolResult) :
    Prop where
  own : OwnUnder log keys (metaOf result)
  single : SingleMeta result
  within : keys ⊆ ownMetaKeys

section Members

variable {log log' : List (Exchange Sessions)} {keys : List JsString}
  {metadata : Members JsNumber} {name key : JsString} {value : JsonValue JsNumber}

theorem Produced.mono (h : Produced log key value) (hlog : log ⊆ log') :
    Produced log' key value := by
  cases h with
  | proof hkey hminted => exact .proof hkey (hlog hminted)
  | proofError htext => exact .proofError htext
  | audit hmarker => exact .audit hmarker

theorem OwnUnder.mono {metadata : Untyped} (h : OwnUnder log keys metadata) (hlog : log ⊆ log') :
    OwnUnder log' keys metadata :=
  fun key hkey value hvalue => (h key hkey value hvalue).mono hlog

theorem Own.mono {result : ToolResult} (h : Own log keys result) (hlog : log ⊆ log') :
    Own log' keys result :=
  ⟨h.own.mono hlog, h.single, h.within⟩

theorem single_within (hkey : key ∈ ownMetaKeys) : [key] ⊆ ownMetaKeys :=
  List.cons_subset.mpr ⟨hkey, List.nil_subset _⟩

theorem Own.under {result : ToolResult} (h : Own log ownMetaKeys result)
    (hkeys : keys ⊆ ownMetaKeys) : Own log keys result :=
  ⟨fun key hkey => h.own key (hkeys hkey), h.single, hkeys⟩

theorem ownUnder_of_absent {metadata : Untyped}
    (h : ∀ key ∈ keys, metadata.member? key = none) : OwnUnder log keys metadata := by
  intro key hkey value hvalue
  rw [h key hkey] at hvalue
  cases hvalue

theorem OwnUnder.assign (h : OwnUnder log keys (some (.object metadata)))
    (hvalue : name ∈ keys → Produced log name value) :
    OwnUnder log keys (some (.object (assignMember name value metadata))) := by
  intro key hkey found hfound
  rw [Untyped.member?, lookup_assignMember] at hfound
  split_ifs at hfound with hname
  · subst hname
    cases hfound
    exact hvalue hkey
  · exact h key hkey found hfound

theorem OwnUnder.withoutKeys (h : OwnUnder log keys (some (.object metadata)))
    (drop : JsString → Bool) :
    OwnUnder log keys (some (.object (KyaOs.withoutKeys metadata drop))) := by
  intro key hkey found hfound
  rw [Untyped.member?, lookup_withoutKeys] at hfound
  split_ifs at hfound
  exact h key hkey found hfound

theorem isNamed_of_own (hkey : key ∈ ownMetaKeys) : isNamed key = true := by
  have hall : ∀ key ∈ ownMetaKeys, isNamed key = true := by decide
  exact hall key hkey

theorem OwnUnder.spread {metadata : Untyped} (h : OwnUnder log keys metadata)
    (hkeys : keys ⊆ ownMetaKeys) : OwnUnder log keys (some (.object (spreadOf metadata))) := by
  intro key hkey value hvalue
  rw [Untyped.member?, lookup_spreadOf _ (isNamed_of_own (hkeys hkey))] at hvalue
  exact h key hkey value hvalue

theorem OwnMarker.object (h : OwnMarker value) : ∃ members, value = .object members := by
  cases h with
  | outcome outcome terminalAuditDelivered => cases terminalAuditDelivered <;> exact ⟨_, rfl⟩
  | fresh => exact ⟨_, rfl⟩
  | added => exact ⟨_, rfl⟩

theorem Produced.marker (h : Produced log auditMetaKey value) : OwnMarker value := by
  generalize hname : auditMetaKey = name at h
  cases h with
  | proof hkey => exact absurd (hname ▸ hkey) (by decide)
  | proofError => exact absurd hname (by decide)
  | audit hmarker => exact hmarker

/-- The marker that a degradation makes of one's own marker, or of none. -/
theorem OwnUnder.marker {keys : List JsString} (h : OwnUnder log keys (some (.object metadata)))
    (hkey : auditMetaKey ∈ keys) {reason : JsString} (hreason : reason ∈ degradedReasons) :
    OwnMarker (degraded (markerOf metadata) reason) := by
  rw [markerOf]
  split_ifs
  · cases hmarker : metadata.lookup auditMetaKey with
    | none => exact .fresh hreason
    | some marker =>
        have hown : OwnMarker marker := (h _ hkey marker hmarker).marker
        obtain ⟨members, rfl⟩ := hown.object
        exact .added hown hreason
  · exact .fresh hreason

end Members

section Copies

variable {log : List (Exchange Sessions)} {keys : List JsString} {response : Returned}
  {metadata kept : Members JsNumber} {key : JsString}

theorem single_assign {members : Members JsNumber} (name : JsString) (value : JsonValue JsNumber)
    (h : SingleMeta (.object members)) :
    SingleMeta (.object (assignMember name value members)) := by
  rw [SingleMeta, spreadOf] at h ⊢
  rw [map_fst_assignMember]
  split_ifs with hmem
  · exact h
  · rw [List.count_append]
    by_cases hname : name = js "_meta"
    · subst hname
      rw [List.count_eq_zero_of_not_mem hmem]
      simp
    · simpa [List.count_singleton, hname] using h

theorem single_withMembers (h : SingleMeta response.value) (members : Members JsNumber) :
    SingleMeta (withMembers response members).value := by
  rw [withMembers]
  have hspread : SingleMeta (.object (spreadOf (some response.value))) := h
  generalize spreadOf (some response.value) = copied at hspread
  induction members generalizing copied with
  | nil => exact hspread
  | cons member rest ih => exact ih _ (single_assign member.1 member.2 hspread)

theorem own_withMetadata (hsingle : SingleMeta response.value) (hkeys : keys ⊆ ownMetaKeys)
    (h : OwnUnder log keys (some (.object metadata))) :
    Own log keys (withMetadata response metadata).value where
  own := by
    rw [metaOf_withMetadata]
    exact h
  single := single_withMembers hsingle _
  within := hkeys

/-- A copy's own members stay when a member of another name is set. -/
theorem Own.assign (h : Own log keys response.value) {name : JsString}
    (hname : name ∉ ownMetaKeys) (value : JsonValue JsNumber) :
    Own log keys (withMetadata response (assignMember name value (metaMembers response))).value :=
  own_withMetadata h.single h.within
    ((h.own.spread h.within).assign fun hmem => absurd (h.within hmem) hname)

theorem own_handlerMeta (h : handlerMeta response = .ok kept) :
    OwnUnder log ownMetaKeys (some (.object kept)) :=
  ownUnder_of_absent fun _ hkey => lookup_handlerMeta h (List.mem_append_left _ hkey)

theorem own_withProofError (hsingle : SingleMeta response.value)
    (h : OwnUnder log ownMetaKeys (some (.object metadata))) {text : JsString}
    (htext : text ∈ proofErrors) :
    Own log ownMetaKeys (withProofError response metadata text).value :=
  own_withMetadata hsingle (List.Subset.refl _) (h.assign fun _ => .proofError htext)

theorem own_degradedMeta (h : Own log keys response.value) (stripSuccessProof : Bool) :
    OwnUnder log keys (some (.object (degradedMeta response stripSuccessProof))) := by
  have hmembers := h.own.spread h.within
  rw [degradedMeta]
  split_ifs
  · exact hmembers.withoutKeys _
  · exact hmembers

theorem Own.degraded (h : Own log keys response.value) {reason : JsString}
    (hreason : reason ∈ degradedReasons) (stripSuccessProof : Bool) :
    Own log keys (markAuditDegraded response reason stripSuccessProof).value where
  own := by
    have hmembers := own_degradedMeta h stripSuccessProof
    rw [metaOf_markAuditDegraded]
    exact hmembers.assign fun hkey => .audit (hmembers.marker hkey hreason)
  single := single_withMembers h.single _
  within := h.within

theorem own_degraded_stripped (hsingle : SingleMeta response.value)
    (hkey : key ∈ [kyaOsProofMetaKey, legacyProofMetaKey]) (reason : JsString) :
    Own log [key] (markAuditDegraded response reason true).value where
  own := by
    have hall : ∀ key ∈ [kyaOsProofMetaKey, legacyProofMetaKey], key ≠ auditMetaKey := by decide
    refine ownUnder_of_absent fun name hname => ?_
    obtain rfl := List.mem_singleton.mp hname
    rw [metaOf_markAuditDegraded, Untyped.member?, lookup_assignMember, if_neg (hall _ hkey),
      degradedMeta, if_pos rfl, lookup_withoutKeys, if_pos (by simpa using hkey)]
  single := single_withMembers hsingle _
  within := by
    have hall : ∀ key ∈ [kyaOsProofMetaKey, legacyProofMetaKey], key ∈ ownMetaKeys := by decide
    exact single_within (hall key hkey)

/-- A degradation starts a new audit marker where there is none to add to. -/
theorem own_degraded_overwritten (hsingle : SingleMeta response.value)
    (hplain : isObject ((metaOf response.value).member? auditMetaKey) = false) {reason : JsString}
    (hreason : reason ∈ degradedReasons) (stripSuccessProof : Bool) :
    Own log [auditMetaKey] (markAuditDegraded response reason stripSuccessProof).value where
  own := by
    have hkept : (degradedMeta response stripSuccessProof).lookup auditMetaKey =
        (metaOf response.value).member? auditMetaKey := by
      have hname : isNamed auditMetaKey = true := by decide
      have hspread := lookup_spreadOf (metaOf response.value) hname
      rw [degradedMeta]
      split_ifs
      · rw [lookup_withoutKeys, if_neg (by decide)]
        exact hspread
      · exact hspread
    rw [metaOf_markAuditDegraded]
    intro name hname value hvalue
    obtain rfl := List.mem_singleton.mp hname
    rw [Untyped.member?, lookup_assignMember, if_pos rfl, markerOf, hkept,
      if_neg (by simp [hplain])] at hvalue
    cases hvalue
    exact .audit (.fresh hreason)
  single := single_withMembers hsingle _
  within := by decide

/-- The members of other names stay. -/
theorem member?_withoutMetaKeys_of_not_mem (result : ToolResult) {keys : List JsString}
    (keepEmptyMeta : Bool) (hkey : key ∉ keys) :
    (metaOf (withoutMetaKeys result keys keepEmptyMeta)).member? key =
      (metaOf result).member? key := by
  cases result with
  | object members =>
      cases hmeta : members.lookup (js "_meta") with
      | none => simp [withoutMetaKeys, hmeta]
      | some value =>
          cases value with
          | object metadata =>
              have hkept : (withoutKeys metadata keys.contains).lookup key =
                  metadata.lookup key := by
                rw [lookup_withoutKeys, if_neg (by simpa using hkey)]
              simp only [withoutMetaKeys, hmeta]
              split_ifs with hany hkeep
              · simp [metaOf, withMeta, Untyped.member?, lookup_assignMember, hkept, hmeta]
              · simp only [Bool.or_eq_true, Bool.not_eq_true', not_or, Bool.not_eq_false,
                  List.isEmpty_iff] at hkeep
                rw [hkeep.2, List.lookup_nil] at hkept
                simp [metaOf, Untyped.member?, lookup_withoutKeys, hmeta, ← hkept]
              · rfl
          | _ => simp [withoutMetaKeys, hmeta]
  | _ => simp [withoutMetaKeys]

theorem member?_tryWithoutMetaKeys_of_not_mem {result kept : ToolResult} {keys : List JsString}
    {keepEmptyMeta : Bool} (h : tryWithoutMetaKeys result keys keepEmptyMeta = .ok kept)
    (hkey : key ∉ keys) : (metaOf kept).member? key = (metaOf result).member? key := by
  rw [tryWithoutMetaKeys] at h
  split at h
  · split_ifs at h
    cases h
    rfl
  · cases h
    exact member?_withoutMetaKeys_of_not_mem result keepEmptyMeta hkey

/-- Marked unproven, a result keeps nothing of its proofs and of its proof error, and its
audit marker as it is. -/
theorem ownUnder_markUnproven {unproven : Returned} (h : markUnproven response = .ok unproven)
    (hkeys : keys ⊆ ownMetaKeys)
    (haudit : auditMetaKey ∈ keys → OwnUnder log [auditMetaKey] (metaOf response.value)) :
    OwnUnder log keys (metaOf unproven.value) := by
  obtain ⟨copy, hcopy, h⟩ := bind_eq_ok.mp h
  cases h
  intro key hkey value hvalue
  rw [withProofError, metaOf_withMetadata, Untyped.member?, lookup_assignMember] at hvalue
  split_ifs at hvalue with hname
  · subst hname
    cases hvalue
    exact .proofError (by simp [proofErrors])
  · rw [lookup_spreadOf _ (isNamed_of_own (hkeys hkey))] at hvalue
    by_cases hproof : key ∈ proofMetaKeys
    · rw [member?_tryWithoutMetaKeys hcopy hproof] at hvalue
      cases hvalue
    · rw [member?_tryWithoutMetaKeys_of_not_mem hcopy hproof] at hvalue
      obtain rfl : key = auditMetaKey := by simpa [ownMetaKeys, hproof, hname] using hkeys hkey
      exact haudit hkey _ (List.mem_singleton_self _) value hvalue

theorem single_markUnproven {unproven : Returned} (h : markUnproven response = .ok unproven)
    (hsingle : SingleMeta response.value) : SingleMeta unproven.value := by
  obtain ⟨copy, -, h⟩ := bind_eq_ok.mp h
  cases h
  exact single_withMembers hsingle _

theorem Own.unproven (h : Own log keys response.value) {unproven : Returned}
    (hmark : markUnproven response = .ok unproven) : Own log keys unproven.value where
  own := ownUnder_markUnproven hmark h.within fun haudit key hkey =>
    h.own key (List.mem_singleton.mp hkey ▸ haudit)
  single := single_markUnproven hmark h.single
  within := h.within

end Copies

end KyaOs.Middleware
