import KyaOs.Audit.Integrity
import KyaOs.Js.Digits
import KyaOs.Utils.JsonMembers

/-!
# What audit digests commit to

A digest is the hash of a domain and a canonical text, so under an injective hasher it
commits to the value, up to the order of members and the sign of zero.
-/

namespace KyaOs.Audit

open Js JsonValue

variable {D : Type} {numbers : Doubles D} {sha256 : Bytes → Except Error Digest}

theorem hashAuditValue_eq_ok {domain : AuditDigestDomain} {value : JsonValue D} {digest : Digest} :
    hashAuditValue numbers sha256 domain value = .ok digest ↔
      ∃ text, canonicalizeJson numbers value = .ok text ∧
        sha256 (encodeUtf8 (domain.text ++ [0]) ++ encodeUtf8 text) = .ok digest :=
  bind_eq_ok

/-- The order of members is not hashed. -/
theorem hashAuditValue_reordered {domain : AuditDigestDomain} {v w : JsonValue D}
    (h : Reordered v w) (hv : v.WellFormed) :
    hashAuditValue numbers sha256 domain v = hashAuditValue numbers sha256 domain w := by
  rw [hashAuditValue, hashAuditValue, canonicalizeJson, canonicalizeJson,
    serialize_reordered h hv []]

/-- No two inputs have one digest. -/
def Injective (sha256 : Bytes → Except Error Digest) : Prop :=
  ∀ left right digest, sha256 left = .ok digest → sha256 right = .ok digest → left = right

/-- A hasher that keeps its input as it is. -/
def sampleSha256 (bytes : Bytes) : Except Error Digest := .ok (bytes.map (·.toUInt16))

theorem sampleSha256_injective : Injective sampleSha256 := by
  intro left right digest hleft hright
  have hsame := Except.ok.inj (hleft.trans hright.symm)
  refine List.map_injective_iff.mpr ?_ hsame
  intro x y hxy
  have htoNat := congrArg UInt16.toNat hxy
  simp only [UInt8.toNat_toUInt16] at htoNat
  exact UInt8.toNat_inj.mp htoNat

/-- Under an injective hasher, one digest is of one value. -/
theorem same_of_hashAuditValue (hprints : numbers.Prints) (hinjective : Injective sha256)
    {domain : AuditDigestDomain} {v w : JsonValue D} (hv : v.WellFormed) (hw : w.WellFormed)
    {digest : Digest} (hleft : hashAuditValue numbers sha256 domain v = .ok digest)
    (hright : hashAuditValue numbers sha256 domain w = .ok digest) : Same numbers v w := by
  obtain ⟨text, htext, hdigest⟩ := hashAuditValue_eq_ok.mp hleft
  obtain ⟨text', htext', hdigest'⟩ := hashAuditValue_eq_ok.mp hright
  have hbytes := List.append_cancel_left (hinjective _ _ _ hdigest hdigest')
  exact same_of_encodeUtf8 hprints hv hw htext htext' hbytes

theorem canonicalizeJson_eq_ok (hprints : numbers.Prints) {v : JsonValue D} (hv : v.WellFormed) :
    (∃ text, canonicalizeJson numbers v = .ok text) ↔ Supported numbers v := by
  constructor
  · rintro ⟨text, htext⟩
    exact ((serialize_ok hprints hv _ _).mp htext).1
  · intro hsupported
    exact ⟨_, (serialize_ok hprints hv _ _).mpr ⟨hsupported, rfl⟩⟩

mutual

/-- Whether a value has a canonical text. -/
def isCanonical (numbers : Doubles D) : JsonValue D → Bool
  | .null | .bool _ => true
  | .number x => numbers.isFinite x && !(numbers.isInteger x && !numbers.isSafeInteger x)
  | .string text => !hasLoneSurrogate text
  | .array items => itemsCanonical numbers items
  | .object members => decide (members.map Prod.fst).Nodup && membersCanonical numbers members
  | .refused _ => false

def itemsCanonical (numbers : Doubles D) : List (JsonValue D) → Bool
  | [] => true
  | item :: rest => isCanonical numbers item && itemsCanonical numbers rest

def membersCanonical (numbers : Doubles D) : List (JsString × JsonValue D) → Bool
  | [] => true
  | (name, value) :: rest =>
    !hasLoneSurrogate name && isCanonical numbers value && membersCanonical numbers rest

end

theorem itemsCanonical_iff {items : List (JsonValue D)} :
    itemsCanonical numbers items = true ↔ ∀ item ∈ items, isCanonical numbers item = true := by
  induction items with
  | nil => simp [itemsCanonical]
  | cons item rest ih => simp [itemsCanonical, ih]

theorem membersCanonical_iff {members : List (JsString × JsonValue D)} :
    membersCanonical numbers members = true ↔ ∀ member ∈ members,
      hasLoneSurrogate member.1 = false ∧ isCanonical numbers member.2 = true := by
  induction members with
  | nil => simp [membersCanonical]
  | cons member rest ih => simp [membersCanonical, ih]

theorem canonical_of_isCanonical (value : JsonValue D) (h : isCanonical numbers value = true) :
    value.WellFormed ∧ Supported numbers value := by
  match value with
  | .null => exact ⟨.null, .null⟩
  | .bool b => exact ⟨.bool b, .bool b⟩
  | .number x =>
      simp only [isCanonical, Bool.and_eq_true, Bool.not_eq_true', Bool.and_eq_false_iff,
        Bool.not_eq_false'] at h
      refine ⟨.number x, .number h.1 ?_⟩
      rintro ⟨hinteger, hunsafe⟩
      rcases h.2 with hfraction | hsafe
      · exact Bool.false_ne_true (hfraction.symm.trans hinteger)
      · exact hunsafe hsafe
  | .string text => exact ⟨.string text, .string (by simpa [isCanonical] using h)⟩
  | .array items =>
      have hitems : ∀ item ∈ items, item.WellFormed ∧ Supported numbers item :=
        fun item hitem => canonical_of_isCanonical item (itemsCanonical_iff.mp h item hitem)
      exact ⟨.array fun item hitem => (hitems item hitem).1,
        .array fun item hitem => (hitems item hitem).2⟩
  | .object members =>
      simp only [isCanonical, Bool.and_eq_true, decide_eq_true_eq] at h
      have hcanonical := membersCanonical_iff.mp h.2
      have hmembers : ∀ member ∈ members, member.2.WellFormed ∧ Supported numbers member.2 :=
        fun member hmember => canonical_of_isCanonical member.2 (hcanonical member hmember).2
      exact ⟨.object h.1 fun member hmember => (hmembers member hmember).1,
        .object (fun member hmember => (hcanonical member hmember).1)
          fun member hmember => (hmembers member hmember).2⟩
  | .refused _ => cases h
termination_by sizeOf value
decreasing_by
  · have := List.sizeOf_lt_of_mem hitem
    simp only [JsonValue.array.sizeOf_spec]
    omega
  · obtain ⟨name, value⟩ := member
    have := List.sizeOf_lt_of_mem hmember
    simp only [JsonValue.object.sizeOf_spec, Prod.mk.sizeOf_spec] at this ⊢
    omega

theorem wellFormed_itemsAt {value : JsonValue D} (h : value.WellFormed) (names : List String) :
    ∀ item ∈ itemsAt value names, item.WellFormed := by
  intro item hitem
  rw [itemsAt] at hitem
  split at hitem
  · rename_i items hmember
    have hitems : (JsonValue.array items).WellFormed := h.get? hmember
    cases hitems with
    | array hall => exact hall item hitem
  · cases hitem

theorem wellFormed_partyEvidence {party : Option (PartyRef D)}
    (h : ∀ p, party = some p → p.WellFormed) : ∀ ref ∈ partyEvidence party, ref.WellFormed := by
  intro ref href
  cases party with
  | none => cases href
  | some p =>
      rw [partyEvidence] at href
      split at href
      · exact (h p rfl).get? (Option.mem_toList.mp href)
      · cases href

theorem wellFormed_evidenceManifest {event : AuditProducerEvent D} (h : event.WellFormed) :
    (collectAuditEvidenceManifest event).WellFormed := by
  have hmember : ∀ names : List String, ∀ ref ∈ (memberAt event names).toList, ref.WellFormed :=
    fun names ref href => h.get? (Option.mem_toList.mp href)
  have hparty : ∀ names : List String, ∀ ref ∈ partyEvidence (memberAt event names),
      ref.WellFormed :=
    fun names => wellFormed_partyEvidence fun p hp => h.get? hp
  refine .object (List.nodup_singleton _) ?_
  intro member hmem
  obtain rfl := List.mem_singleton.mp hmem
  refine .array ?_
  intro ref href
  simp only [collectAuditEvidenceRefs, List.mem_append] at href
  obtain (((((((((((href | href) | href) | href) | href) | href) | href) | href) | href) | href)
    | href) | href) := href
  · exact hparty _ ref href
  · exact hparty _ ref href
  · exact hparty _ ref href
  · exact hparty _ ref href
  · exact hparty _ ref href
  · exact hparty _ ref href
  · exact hmember _ ref href
  · exact wellFormed_itemsAt h _ ref href
  · exact hmember _ ref href
  · exact hmember _ ref href
  · exact wellFormed_itemsAt h _ ref href
  · split at href
    · exact wellFormed_itemsAt h _ ref href
    · split at href
      · exact hmember _ ref href
      · cases href

theorem decimalString_injective {m n : Nat} (h : decimalString m = decimalString n) : m = n :=
  js_toString_injective h

theorem notMem_decimalString {unit : UInt16} (h : isDigit unit = false) (n : Nat) :
    unit ∉ decimalString n :=
  notMem_toString h n

theorem hasLoneSurrogate_decimalString (n : Nat) : hasLoneSurrogate (decimalString n) = false := by
  apply hasLoneSurrogate_of_all
  rw [List.all_eq_true]
  intro u hu
  have hdigit := isDigit_iff.mp (List.all_eq_true.mp (all_isDigit_toString n) u hu)
  apply isScalar_of_lt
  omega

/-- A string member of two same objects is one string. -/
theorem same_text {members members' : Members D} {s t : JsString} (name : JsString)
    (h : Same numbers (.object members) (.object members'))
    (hs : members.lookup name = some (.string s)) (ht : members'.lookup name = some (.string t)) :
    s = t := by
  have hmember := same_object_iff.mp h name
  rwa [hs, ht, Option.rel_some_some, same_string] at hmember

theorem same_digestOrNull {left right : Option Digest}
    (h : Same numbers (digestOrNull left) (digestOrNull right)) : left = right := by
  have hnode := Option.rel_some_some.mp (h [])
  cases left with
  | none =>
      cases right with
      | none => rfl
      | some digest => cases hnode
  | some digest =>
      cases right with
      | none => cases hnode
      | some digest' => exact congrArg some (same_string.mp h)

theorem SignatureAlg.text_injective {a b : SignatureAlg} (h : a.text = b.text) : a = b := by
  revert h
  cases a <;> cases b <;> decide

theorem same_signer {left right : SignerRef} (h : Same numbers left.toJson right.toJson) :
    left = right := by
  obtain ⟨did, kid, alg⟩ := left
  obtain ⟨did', kid', alg'⟩ := right
  obtain rfl : did = did' := same_text (js "did") h rfl rfl
  obtain rfl : kid = kid' := same_text (js "kid") h rfl rfl
  obtain rfl : alg = alg' := SignatureAlg.text_injective (same_text (js "alg") h rfl rfl)
  rfl

/-- Two cores agree on everything a later check reads. -/
structure AuditEntryCore.Agrees (numbers : Doubles D) (left right : AuditEntryCore D) : Prop where
  ledger : left.toAuditLedgerRef = right.toAuditLedgerRef
  sequence : left.sequence = right.sequence
  previousEntryDigest : left.previousEntryDigest = right.previousEntryDigest
  recorder : left.recorder = right.recorder
  event : Same numbers left.event right.event
  evidenceManifestDigest : left.evidenceManifestDigest = right.evidenceManifestDigest

theorem AuditEntryCore.agrees_of_same {left right : AuditEntryCore D}
    (h : Same numbers left.toJson right.toJson) : left.Agrees numbers right := by
  have hledgerId : left.ledgerId = right.ledgerId := same_text (js "ledgerId") h rfl rfl
  have hepochId : left.ledgerEpochId = right.ledgerEpochId :=
    same_text (js "ledgerEpochId") h rfl rfl
  refine ⟨?_, ?_, ?_, ?_, ?_, ?_⟩
  · rw [AuditLedgerRef.mk.injEq]
    exact ⟨hledgerId, hepochId⟩
  · exact decimalString_injective (same_text (js "sequence") h rfl rfl)
  · exact same_digestOrNull (Option.rel_some_some.mp (h.child (.key (js "previousEntryDigest"))))
  · exact same_signer (Option.rel_some_some.mp (h.child (.key (js "recorder"))))
  · exact Option.rel_some_some.mp (h.child (.key (js "event")))
  · exact same_text (js "evidenceManifestDigest") h rfl rfl

theorem supported_memberAt {value member : JsonValue D} {names : List String}
    (h : Supported numbers value) (hmember : memberAt value names = some member) :
    Supported numbers member :=
  h.get? hmember

theorem hasLoneSurrogate_textAt {value : JsonValue D} (h : Supported numbers value)
    (names : List String) : hasLoneSurrogate (textAt value names) = false := by
  unfold textAt
  split
  · rename_i hmember
    cases supported_memberAt h hmember with
    | string htext => exact htext
  · rfl

theorem wellFormed_digestOrNull (digest : Option Digest) :
    (digestOrNull digest : JsonValue D).WellFormed := by
  cases digest with
  | none => exact .null
  | some digest => exact .string digest

theorem wellFormed_signer (signer : SignerRef) : (signer.toJson : JsonValue D).WellFormed := by
  apply WellFormed.object
  · simp only [List.map_cons, List.map_nil]
    decide
  · simp only [List.forall_mem_cons, List.not_mem_nil, false_imp_iff, implies_true, and_true]
    exact ⟨.string _, .string _, .string _⟩

theorem wellFormed_core {core : AuditEntryCore D} (hevent : core.event.WellFormed) :
    core.toJson.WellFormed := by
  apply WellFormed.object
  · simp only [List.map_cons, List.map_nil]
    decide
  · simp only [List.forall_mem_cons, List.not_mem_nil, false_imp_iff, implies_true, and_true]
    exact ⟨.string _, .string _, .string _, .string _, wellFormed_digestOrNull _, .number _,
      wellFormed_signer _, .string _, hevent, .string _, .string _⟩

/-- A core whose texts and event are canonical is canonical. -/
theorem supported_core {core : AuditEntryCore D} (hevent : Supported numbers core.event)
    (htexts : ∀ text ∈ [core.schema, core.ledgerId, core.ledgerEpochId,
      decimalString core.sequence, core.eventDigest, core.evidenceManifestDigest,
      core.integritySuite] ++ core.previousEntryDigest.toList, hasLoneSurrogate text = false)
    (hrecordedAt : isCanonical numbers (.number core.recordedAt) = true)
    (hrecorder : isCanonical numbers (core.recorder.toJson) = true) :
    Supported numbers core.toJson := by
  have hprevious : Supported numbers (digestOrNull core.previousEntryDigest) := by
    cases hdigest : core.previousEntryDigest with
    | none => exact .null
    | some digest => exact .string (htexts digest (by simp [hdigest]))
  simp only [List.cons_append, List.nil_append, List.forall_mem_cons] at htexts
  obtain ⟨hschema, hledgerId, hepochId, hsequence, hdigest, hmanifest, hsuite, -⟩ := htexts
  apply Supported.object
  · simp only [List.forall_mem_cons, List.not_mem_nil, false_imp_iff, implies_true, and_true]
    decide
  · simp only [List.forall_mem_cons, List.not_mem_nil, false_imp_iff, implies_true, and_true]
    exact ⟨.string hschema, .string hledgerId, .string hepochId, .string hsequence, hprevious,
      (canonical_of_isCanonical _ hrecordedAt).2, (canonical_of_isCanonical _ hrecorder).2,
      .string hdigest, hevent, .string hmanifest, .string hsuite⟩

theorem wellFormed_receiptCore (core : AuditRecorderReceiptCore D) : core.toJson.WellFormed := by
  apply WellFormed.object
  · simp only [List.map_cons, List.map_nil]
    decide
  · simp only [List.forall_mem_cons, List.not_mem_nil, false_imp_iff, implies_true, and_true]
    exact ⟨.string _, .string _, .string _, .string _, .string _, .string _,
      wellFormed_digestOrNull _, .number _, wellFormed_signer _, .string _⟩

/-- The receipt of a canonical core is canonical. -/
theorem supported_receiptCore {core : AuditEntryCore D} {entryDigest : Digest}
    (hcore : Supported numbers core.toJson) (hdigest : hasLoneSurrogate entryDigest = false) :
    Supported numbers (buildAuditRecorderReceiptCore core entryDigest).toJson := by
  have hmember : ∀ name value, memberAt core.toJson [name] = some value →
      Supported numbers value := fun name value => supported_memberAt hcore
  have hevent : Supported numbers core.event := hmember "event" _ rfl
  have hschema : hasLoneSurrogate auditReceiptSchemaId = false := by decide
  have hsuite : hasLoneSurrogate auditIntegritySuite = false := by decide
  apply Supported.object
  · simp only [List.forall_mem_cons, List.not_mem_nil, false_imp_iff, implies_true, and_true]
    decide
  · simp only [List.forall_mem_cons, List.not_mem_nil, false_imp_iff, implies_true, and_true]
    exact ⟨.string hschema, hmember "ledgerId" _ rfl, hmember "ledgerEpochId" _ rfl,
      hmember "sequence" _ rfl, .string (hasLoneSurrogate_textAt hevent _), .string hdigest,
      hmember "previousEntryDigest" _ rfl, hmember "recordedAt" _ rfl,
      hmember "recorder" _ rfl, .string hsuite⟩

end KyaOs.Audit
