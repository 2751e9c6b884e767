import KyaOs.Js.Digits
import KyaOs.Middleware.SessionProof

/-!
# The `_meta` of what is sent

What the copies that the outer layer makes of a result hold in their `_meta`: none of them
brings a private member back, and those that go out unproven hold no proof.
-/

namespace KyaOs.Middleware

open Js Untyped JsonValue Proof

/-- A name that is no index. -/
def isNamed (name : JsString) : Bool := name.any fun u => !(0x30 ≤ u && u ≤ 0x39)

theorem ne_index {name : JsString} (h : isNamed name = true) (n : Nat) :
    js (toString n) ≠ name := by
  rintro rfl
  obtain ⟨u, hu, hother⟩ := List.any_eq_true.mp h
  have hdigit := List.all_eq_true.mp (all_isDigit_toString n) u hu
  rw [isDigit] at hdigit
  simp [hdigit] at hother

theorem isNamed_meta : isNamed (js "_meta") = true := by decide

theorem isNamed_of_isPrivate {name : JsString} (h : isPrivate name = true) :
    isNamed name = true := by
  have hall : ∀ name ∈ privateMetaKeys, isNamed name = true := by decide
  exact hall name (by simpa [isPrivate] using h)

theorem mem_indexedMembers {items : List (JsonValue JsNumber)}
    {member : JsString × JsonValue JsNumber} (h : member ∈ indexedMembers items) :
    (∃ n : Nat, member.1 = js (toString n)) ∧ member.2 ∈ items := by
  obtain ⟨⟨item, n⟩, hitem, rfl⟩ := List.mem_map.mp h
  exact ⟨⟨n, rfl⟩, (List.mem_zipIdx hitem).2.2 ▸ List.getElem_mem _⟩

theorem lookup_indexedMembers {items : List (JsonValue JsNumber)} {name : JsString}
    (h : isNamed name = true) : (indexedMembers items).lookup name = none := by
  rw [List.lookup_eq_none_iff]
  intro member hmember
  obtain ⟨⟨n, hn⟩, -⟩ := mem_indexedMembers hmember
  exact bne_iff_ne.mpr fun hsame => ne_index h n (hn.symm.trans hsame.symm)

/-- A spread keeps the members of an object, and makes none of that name otherwise. -/
theorem lookup_spreadOf (value : Untyped) {name : JsString} (h : isNamed name = true) :
    (spreadOf value).lookup name = value.member? name := by
  cases value with
  | none => rfl
  | some v =>
      cases v with
      | array items => exact lookup_indexedMembers h
      | string text => exact lookup_indexedMembers h
      | _ => rfl

section Copies

variable {response : Returned} {metadata : Members JsNumber} {key : JsString}

/-- A copy's `_meta`. -/
theorem metaOf_withMetadata : metaOf (withMetadata response metadata).value =
    some (.object metadata) := by
  rw [metaOf, withMetadata, withMembers]
  simp [Untyped.member?, lookup_assignMember]

theorem member?_withMetadata {name : JsString} (h : name ≠ js "_meta")
    (hname : isNamed name = true) :
    Untyped.member? (some (withMetadata response metadata).value) name =
      Untyped.member? (some response.value) name := by
  rw [withMetadata, withMembers]
  simp only [List.foldl_cons, List.foldl_nil, Untyped.member?, lookup_assignMember, if_neg h]
  exact lookup_spreadOf _ hname

/-- A copy without members has none of them. -/
theorem member?_withoutMetaKeys (result : ToolResult) {keys : List JsString}
    (keepEmptyMeta : Bool) (hkey : key ∈ keys) :
    (metaOf (withoutMetaKeys result keys keepEmptyMeta)).member? key = none := by
  cases result with
  | object members =>
      cases hmeta : members.lookup (js "_meta") with
      | none => simp [withoutMetaKeys, hmeta, metaOf, Untyped.member?]
      | some value =>
          cases value with
          | object metadata =>
              simp only [withoutMetaKeys, hmeta]
              split_ifs with hany hkeep
              · simp [metaOf, withMeta, Untyped.member?, lookup_assignMember, lookup_withoutKeys,
                  hkey]
              · simp [metaOf, Untyped.member?, lookup_withoutKeys]
              · have habsent : metadata.lookup key = none := by
                  rw [List.lookup_eq_none_iff]
                  intro member hmember
                  refine bne_iff_ne.mpr fun hsame => hany (List.any_eq_true.mpr ⟨key, hkey, ?_⟩)
                  simpa using ⟨member.2, hsame ▸ hmember⟩
                simp [metaOf, Untyped.member?, hmeta, habsent]
          | _ => simp [withoutMetaKeys, hmeta, metaOf, Untyped.member?]
  | _ => simp [withoutMetaKeys, metaOf, Untyped.member?]

theorem member?_tryWithoutMetaKeys {result kept : ToolResult} {keys : List JsString}
    {keepEmptyMeta : Bool} (h : tryWithoutMetaKeys result keys keepEmptyMeta = .ok kept)
    (hkey : key ∈ keys) : (metaOf kept).member? key = none := by
  rw [tryWithoutMetaKeys] at h
  split at h
  · split_ifs at h with hkeys
    exact absurd hkey (hkeys ▸ List.not_mem_nil)
  · cases h
    exact member?_withoutMetaKeys result keepEmptyMeta hkey

/-- What a proof is merged into has none of the members that only the middleware sets. -/
theorem lookup_handlerMeta {kept : Members JsNumber} (h : handlerMeta response = .ok kept)
    (hkey : key ∈ outcomeMetaKeys) : kept.lookup key = none := by
  obtain ⟨copy, hcopy, h⟩ := bind_eq_ok.mp h
  cases h
  have hall : ∀ key ∈ outcomeMetaKeys, isNamed key = true := by decide
  rw [lookup_spreadOf _ (hall key hkey)]
  exact member?_tryWithoutMetaKeys hcopy hkey

theorem member?_withProofError {text : JsString} (h : metadata.lookup key = none)
    (hkey : key ≠ js "proofError") :
    (metaOf (withProofError response metadata text).value).member? key = none := by
  rw [withProofError, metaOf_withMetadata, Untyped.member?, lookup_assignMember, if_neg hkey]
  exact h

/-- A result marked unproven carries no proof. -/
theorem member?_markUnproven {unproven : Returned} (h : markUnproven response = .ok unproven)
    (hkey : key ∈ proofMetaKeys) : (metaOf unproven.value).member? key = none := by
  obtain ⟨copy, hcopy, h⟩ := bind_eq_ok.mp h
  cases h
  have hall : ∀ key ∈ proofMetaKeys, isNamed key = true ∧ key ≠ js "proofError" := by decide
  obtain ⟨hname, hother⟩ := hall key hkey
  refine member?_withProofError ?_ hother
  rw [lookup_spreadOf _ hname]
  exact member?_tryWithoutMetaKeys hcopy hkey

/-- The members of a result that its audit's degradation leaves. -/
def degradedMeta (response : Returned) (stripSuccessProof : Bool) : Members JsNumber :=
  if stripSuccessProof
    then withoutKeys (metaMembers response) [kyaOsProofMetaKey, legacyProofMetaKey].contains
    else metaMembers response

/-- The audit marker that a degradation adds to. -/
def markerOf (metadata : Members JsNumber) : Members JsNumber :=
  if isObject (metadata.lookup auditMetaKey) then spreadOf (metadata.lookup auditMetaKey) else []

theorem metaOf_markAuditDegraded (reason : JsString) (stripSuccessProof : Bool) :
    metaOf (markAuditDegraded response reason stripSuccessProof).value =
      some (.object (assignMember auditMetaKey
        (degraded (markerOf (degradedMeta response stripSuccessProof)) reason)
        (degradedMeta response stripSuccessProof))) := by
  have hname : js "_meta" ≠ js "isError" := by decide
  rw [metaOf, markAuditDegraded, withMembers]
  simp only [List.foldl_cons, List.foldl_nil, Untyped.member?, lookup_assignMember, if_neg hname,
    if_true]
  rfl

/-- A degraded result without its success proof. -/
theorem member?_markAuditDegraded_stripped (reason : JsString) :
    (metaOf (markAuditDegraded response reason true).value).member? kyaOsProofMetaKey = none := by
  have hother : kyaOsProofMetaKey ≠ auditMetaKey := by decide
  rw [metaOf_markAuditDegraded, Untyped.member?, lookup_assignMember, if_neg hother, degradedMeta,
    if_pos rfl,
    lookup_withoutKeys, if_pos (by decide)]

end Copies

section Clean

variable {response : Returned} {metadata : Members JsNumber} {name : JsString}
  {value : JsonValue JsNumber}

/-- A `_meta` without private members, of its own or below. -/
structure CleanMeta (metadata : Members JsNumber) : Prop where
  clean : NoPrivateMeta (.object metadata)
  names : ∀ member ∈ metadata, isPrivate member.1 = false

/-- Members of which none is a `_meta`. -/
theorem noPrivateMeta_members_of {members : Members JsNumber}
    (h : ∀ member ∈ members, member.1 ≠ js "_meta" ∧ NoPrivateMeta member.2) :
    NoPrivateMeta (.object members) :=
  .object (fun _ hmem => absurd rfl (h _ hmem).1) fun member hmem => (h member hmem).2

theorem mem_of_lookup {members : Members JsNumber} (h : members.lookup name = some value) :
    (name, value) ∈ members := by
  obtain ⟨before, after, hlisted, -⟩ := List.lookup_eq_some_iff.mp h
  simp [hlisted]

theorem NoPrivateMeta.member (h : NoPrivateMeta value) {inner : JsonValue JsNumber}
    (hmember : Untyped.member? (some value) name = some inner) : NoPrivateMeta inner := by
  cases h with
  | object _ hmembers => exact hmembers _ (mem_of_lookup hmember)
  | _ => cases hmember

theorem noPrivateMeta_indexed {items : List (JsonValue JsNumber)}
    (h : ∀ item ∈ items, NoPrivateMeta item) :
    NoPrivateMeta (.object (indexedMembers items)) := by
  refine noPrivateMeta_members_of fun member hmember => ?_
  obtain ⟨⟨n, hn⟩, hitem⟩ := mem_indexedMembers hmember
  exact ⟨hn ▸ ne_index isNamed_meta n, h _ hitem⟩

theorem cleanMeta_indexed {items : List (JsonValue JsNumber)}
    (h : ∀ item ∈ items, NoPrivateMeta item) : CleanMeta (indexedMembers items) := by
  refine ⟨noPrivateMeta_indexed h, ?_⟩
  intro member hmember
  obtain ⟨⟨n, hn⟩, -⟩ := mem_indexedMembers hmember
  rw [← Bool.not_eq_true]
  intro hprivate
  exact ne_index (isNamed_of_isPrivate hprivate) n hn.symm

theorem noPrivateMeta_units (text : JsString) :
    ∀ item ∈ text.map fun u => (.string [u] : JsonValue JsNumber), NoPrivateMeta item := by
  intro item hitem
  obtain ⟨u, -, rfl⟩ := List.mem_map.mp hitem
  exact .string _

/-- What is spread of a clean value is clean. -/
theorem NoPrivateMeta.spread (h : NoPrivateMeta value) :
    NoPrivateMeta (.object (spreadOf (some value))) := by
  cases h with
  | object hmeta hmembers => exact .object hmeta hmembers
  | array hitems => exact noPrivateMeta_indexed hitems
  | string text => exact noPrivateMeta_indexed (noPrivateMeta_units text)
  | _ => exact noPrivateMeta_members_of fun _ hmem => absurd hmem List.not_mem_nil

theorem cleanMeta_nil : CleanMeta [] :=
  ⟨noPrivateMeta_members_of fun _ hmem => absurd hmem List.not_mem_nil,
    fun _ hmem => absurd hmem List.not_mem_nil⟩

/-- The `_meta` of a clean result. -/
theorem NoPrivateMeta.cleanMeta (h : NoPrivateMeta value) :
    CleanMeta (spreadOf (metaOf value)) := by
  cases hmeta : metaOf value with
  | none => exact cleanMeta_nil
  | some inner =>
      have hinner := h.member hmeta
      cases inner with
      | object metadata =>
          cases h with
          | object hnames _ => exact ⟨hinner, hnames metadata (mem_of_lookup hmeta)⟩
          | _ => cases hmeta
      | array items =>
          cases hinner with
          | array hitems => exact cleanMeta_indexed hitems
      | string text => exact cleanMeta_indexed (noPrivateMeta_units text)
      | _ => exact cleanMeta_nil

theorem CleanMeta.assign (h : CleanMeta metadata) (hprivate : isPrivate name = false)
    (hname : name ≠ js "_meta") (hvalue : NoPrivateMeta value) :
    CleanMeta (assignMember name value metadata) := by
  refine ⟨h.clean.assign hvalue fun hsame => absurd hsame hname, ?_⟩
  intro member hmem
  obtain hnew | hold := mem_assignMember hmem
  · exact hnew ▸ hprivate
  · exact h.names member hold

theorem CleanMeta.withoutKeys (h : CleanMeta metadata) (drop : JsString → Bool) :
    CleanMeta (KyaOs.withoutKeys metadata drop) :=
  ⟨noPrivateMeta_withoutKeys h.clean drop, fun member hmem =>
    h.names member (mem_withoutKeys.mp hmem).1⟩

/-- A clean result under a clean `_meta`. -/
theorem NoPrivateMeta.withMeta {members : Members JsNumber} (h : NoPrivateMeta (.object members))
    (hmeta : CleanMeta metadata) :
    NoPrivateMeta (.object (assignMember (js "_meta") (.object metadata) members)) := by
  refine h.assign hmeta.clean ?_
  intro _ metadata' hsame
  cases hsame
  exact hmeta.names

theorem clean_withMetadata (h : NoPrivateMeta response.value) (hmeta : CleanMeta metadata) :
    NoPrivateMeta (withMetadata response metadata).value :=
  h.spread.withMeta hmeta

theorem clean_withoutMetaKeys (h : NoPrivateMeta value) (keys : List JsString)
    (keepEmptyMeta : Bool) : NoPrivateMeta (withoutMetaKeys value keys keepEmptyMeta) := by
  cases value with
  | object members =>
      cases hmeta : members.lookup (js "_meta") with
      | none => simpa [withoutMetaKeys, hmeta] using h
      | some inner =>
          cases inner with
          | object metadata =>
              have hclean : CleanMeta metadata := by
                have hspread := h.cleanMeta
                rwa [metaOf, Untyped.member?, hmeta] at hspread
              simp only [withoutMetaKeys, hmeta]
              split_ifs
              · exact h.withMeta (hclean.withoutKeys _)
              · exact noPrivateMeta_withoutKeys h _
              · exact h
          | _ => simpa [withoutMetaKeys, hmeta] using h
  | _ => simpa [withoutMetaKeys] using h

theorem clean_tryWithoutMetaKeys {kept : ToolResult} {keys : List JsString} {keepEmptyMeta : Bool}
    (h : NoPrivateMeta value) (hkept : tryWithoutMetaKeys value keys keepEmptyMeta = .ok kept) :
    NoPrivateMeta kept := by
  rw [tryWithoutMetaKeys] at hkept
  split at hkept
  · split_ifs at hkept
    cases hkept
    exact h
  · cases hkept
    exact clean_withoutMetaKeys h keys keepEmptyMeta

theorem clean_handlerMeta {kept : Members JsNumber} (h : NoPrivateMeta response.value)
    (hkept : handlerMeta response = .ok kept) : CleanMeta kept := by
  obtain ⟨copy, hcopy, hkept⟩ := bind_eq_ok.mp hkept
  cases hkept
  exact (clean_tryWithoutMetaKeys h hcopy).cleanMeta

theorem clean_withProofError (h : NoPrivateMeta response.value) (hmeta : CleanMeta metadata)
    (text : JsString) : NoPrivateMeta (withProofError response metadata text).value :=
  clean_withMetadata h (hmeta.assign (by decide) (by decide) (.string text))

theorem clean_markUnproven {unproven : Returned} (h : NoPrivateMeta response.value)
    (hmark : markUnproven response = .ok unproven) : NoPrivateMeta unproven.value := by
  obtain ⟨copy, hcopy, hmark⟩ := bind_eq_ok.mp hmark
  cases hmark
  exact clean_withProofError h (clean_tryWithoutMetaKeys h hcopy).cleanMeta _

theorem clean_degraded {marker : Members JsNumber} (h : NoPrivateMeta (.object marker))
    (reason : JsString) : NoPrivateMeta (degraded marker reason) := by
  have hstatus : NoPrivateMeta
      (.object (assignMember (js "status") (.string (js "degraded")) marker)) :=
    h.assign (.string _) fun hsame => absurd hsame (by decide)
  exact hstatus.assign (.string reason) fun hsame => absurd hsame (by decide)

theorem clean_markerOf (h : CleanMeta metadata) : NoPrivateMeta (.object (markerOf metadata)) := by
  rw [markerOf]
  split_ifs
  · cases hmarker : metadata.lookup auditMetaKey with
    | none => exact cleanMeta_nil.clean
    | some marker =>
        have hmember : Untyped.member? (some (.object metadata)) auditMetaKey = some marker :=
          hmarker
        exact (h.clean.member hmember).spread
  · exact cleanMeta_nil.clean

theorem clean_markAuditDegraded (h : NoPrivateMeta response.value) (reason : JsString)
    (stripSuccessProof : Bool) :
    NoPrivateMeta (markAuditDegraded response reason stripSuccessProof).value := by
  have hmeta : CleanMeta (degradedMeta response stripSuccessProof) := by
    rw [degradedMeta]
    split_ifs
    · exact h.cleanMeta.withoutKeys _
    · exact h.cleanMeta
  have hmarked : CleanMeta (assignMember auditMetaKey
      (degraded (markerOf (degradedMeta response stripSuccessProof)) reason)
      (degradedMeta response stripSuccessProof)) :=
    hmeta.assign (by decide) (by decide) (clean_degraded (clean_markerOf hmeta) reason)
  exact (h.spread.withMeta hmarked).assign (.bool true) fun hsame => absurd hsame (by decide)

end Clean

end KyaOs.Middleware
