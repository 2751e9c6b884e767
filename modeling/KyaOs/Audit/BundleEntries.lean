import KyaOs.Audit.ReplayBundle
import KyaOs.Audit.TamperEvidence

/-!
# The entries of a replay bundle

What a report with valid entries says of the entries that a bundle carries: each verified, those of
an epoch linked in order, and those of a selection up to its expected head.
-/

namespace KyaOs.Audit

open Js JsonValue

variable {D : Type}

section Groups

variable {α : Type} (key : α → JsString)

/-- One step of `groupBy`. -/
def addToGroup (groups : List (JsString × List α)) (item : α) : List (JsString × List α) :=
  assignMember (key item) (((groups.lookup (key item)).getD []) ++ [item]) groups

theorem groupBy_eq (items : List α) : groupBy key items = items.foldl (addToGroup key) [] := rfl

variable {key}

theorem lookup_foldl_addToGroup (groups : List (JsString × List α)) (items : List α)
    (name : JsString) : ((items.foldl (addToGroup key) groups).lookup name).getD [] =
      (groups.lookup name).getD [] ++ items.filter fun item => key item = name := by
  induction items generalizing groups with
  | nil => simp
  | cons item rest ih =>
      rw [List.foldl_cons, ih, addToGroup, lookup_assignMember]
      by_cases hsame : name = key item
      · subst hsame
        simp
      · simp [hsame, Ne.symm hsame]

/-- The group of a key is what has the key, in order. -/
theorem lookup_groupBy (items : List α) (name : JsString) :
    ((groupBy key items).lookup name).getD [] = items.filter fun item => key item = name := by
  rw [groupBy_eq, lookup_foldl_addToGroup]
  rfl

/-- The groups, one for each key that comes up. -/
theorem mem_groupBy {items : List α} {item : α} (h : item ∈ items) :
    (key item, items.filter fun other => key other = key item) ∈ groupBy key items := by
  have hlookup : ((groupBy key items).lookup (key item)).getD [] =
      items.filter fun other => key other = key item := lookup_groupBy items (key item)
  have hmem : item ∈ items.filter fun other => key other = key item := by simpa using h
  cases hgroup : (groupBy key items).lookup (key item) with
  | none =>
      rw [hgroup, Option.getD_none] at hlookup
      rw [← hlookup] at hmem
      cases hmem
  | some group =>
      rw [hgroup, Option.getD_some] at hlookup
      obtain ⟨before, after, hsplit, -⟩ := List.lookup_eq_some_iff.mp hgroup
      rw [hsplit, ← hlookup]
      exact List.mem_append_right _ List.mem_cons_self

end Groups

/-- The entries of a ledger epoch, in the order carried. -/
def ofEpoch (ledger : AuditLedgerRef) (entries : List (SignedAuditEntry D)) :
    List (SignedAuditEntry D) :=
  entries.filter fun entry => entry.core.toAuditLedgerRef = ledger

/-- Entries in a chain are at the sequences from the first on. -/
theorem map_sequence_of_chained {entries : List (SignedAuditEntry D)}
    (h : entries.IsChain Succeeds) {first : SignedAuditEntry D}
    (hfirst : entries.head? = some first) :
    entries.map (fun entry => entry.core.sequence) =
      List.range' first.core.sequence entries.length := by
  obtain ⟨ledger, base, hat⟩ := consecutive_of_chained h (by rintro rfl; cases hfirst)
  rw [List.head?_eq_getElem?] at hfirst
  apply List.ext_getElem? 
  intro i
  rw [List.getElem?_map]
  cases hentry : entries[i]? with
  | none =>
      have hlen := List.getElem?_eq_none_iff.mp hentry
      simp [hlen]
  | some entry =>
      obtain ⟨hlt, -⟩ := List.getElem?_eq_some_iff.mp hentry
      have hsequence := (hat i entry hentry).2
      have hbase := (hat 0 first hfirst).2
      simp [List.getElem?_range' hlt, hsequence, hbase]

theorem foldl_unique {entries sofar : List (SignedAuditEntry D)}
    (h : (sofar ++ entries).Pairwise fun left right => left.core.sequence < right.core.sequence) :
    entries.foldl (fun unique entry =>
      if unique.any fun other => other.core.sequence = entry.core.sequence then unique
      else unique ++ [entry]) sofar = sofar ++ entries := by
  induction entries generalizing sofar with
  | nil => simp
  | cons entry rest ih =>
      have hnew : (sofar.any fun other => other.core.sequence = entry.core.sequence) = false := by
        rw [List.any_eq_false]
        intro other hother hsame
        have hless := (List.pairwise_append.mp h).2.2 other hother entry List.mem_cons_self
        exact absurd (of_decide_eq_true hsame) hless.ne
      rw [List.foldl_cons, hnew, if_neg Bool.false_ne_true, ih (by simpa using h)]
      simp

theorem uniqueBySequence_of_pairwise {entries : List (SignedAuditEntry D)}
    (h : entries.Pairwise fun left right => left.core.sequence < right.core.sequence) :
    uniqueBySequence entries = entries := by
  have hunique := foldl_unique (show ([] ++ entries).Pairwise _ from h)
  rw [uniqueBySequence, hunique, List.nil_append]
  exact List.mergeSort_of_pairwise (h.imp fun hless => decide_eq_true hless.le)

/-- A selected range is carried completely. -/
structure RangeComplete (selection : AuditBundleSelection) (entries : List (SignedAuditEntry D)) :
    Prop where
  order : selection.firstSequence ≤ selection.lastSequence
  sequences : (ofEpoch selection.toAuditLedgerRef entries).map (fun entry => entry.core.sequence) =
    List.range' selection.firstSequence (selection.lastSequence + 1 - selection.firstSequence)
  head : (ofEpoch selection.toAuditLedgerRef entries).getLast?.map SignedAuditEntry.entryDigest =
    some selection.expectedHeadDigest

theorem rangeComplete_of_isSelectionComplete {selection : AuditBundleSelection}
    {entries : List (SignedAuditEntry D)}
    (hchained : (ofEpoch selection.toAuditLedgerRef entries).IsChain Succeeds)
    (h : isSelectionComplete entries selection = true) : RangeComplete selection entries := by
  have hselected : entries.filter (fun entry =>
      entry.core.toAuditLedgerRef = selection.toAuditLedgerRef) =
        ofEpoch selection.toAuditLedgerRef entries := rfl
  simp only [isSelectionComplete, hselected] at h
  generalize hown : ofEpoch selection.toAuditLedgerRef entries = own at h hchained
  cases own with
  | nil =>
      simp [uniqueBySequence] at h
  | cons first rest =>
      have hsequences := map_sequence_of_chained hchained rfl
      have hpairwise : (first :: rest).Pairwise fun left right =>
          left.core.sequence < right.core.sequence := by
        rw [← List.pairwise_map, hsequences]
        exact List.pairwise_lt_range'
      rw [uniqueBySequence_of_pairwise hpairwise] at h
      simp only [Bool.not_eq_true', Bool.or_eq_false_iff, decide_eq_false_iff_not, not_not,
        not_lt, List.head?_cons, Option.map_some] at h
      obtain ⟨⟨⟨⟨⟨-, hcount⟩, hlength⟩, hstart⟩, -⟩, hhead⟩ := h
      have hfirst : first.core.sequence = selection.firstSequence := by simpa using hstart
      refine ⟨by omega, ?_, hown ▸ hhead⟩
      rw [hown, hsequences, hfirst]
      congr 1
      omega

section Entries

variable {artifacts : AuditArtifactVerifier D} {policy : AuditVerificationPolicy D}

/-- What was found of a bundle's entries with nothing against any group of them. -/
structure EntriesSound (artifacts : AuditArtifactVerifier D) (policy : AuditVerificationPolicy D)
    (entries : List (SignedAuditEntry D)) : Prop where
  verified : ∀ entry ∈ entries, EntryVerified artifacts policy entry
  chained : ∀ ledger, (ofEpoch ledger entries).IsChain Succeeds

/-- The well-formed candidates with one key text are the candidates of its entries. -/
theorem filterMap_group {α β : Type} (schema : α → Option β) (key : β → JsString) (name : JsString)
    (items : List α) :
    ((items.filter fun item => ((schema item).map key).isSome).filter fun item =>
      ((schema item).map key).getD [] = name).filterMap schema =
      (items.filterMap schema).filter fun value => key value = name := by
  induction items with
  | nil => rfl
  | cons item rest ih =>
      cases hitem : schema item with
      | none => simpa [hitem] using ih
      | some value =>
          by_cases hname : key value = name
          · simpa [hitem, hname] using ih
          · simpa [hitem, hname] using ih

theorem EntriesVerified.eq_filterMap {candidates : List (JsonValue D)}
    {entries : List (SignedAuditEntry D)}
    (h : EntriesVerified artifacts policy candidates entries) :
    entries = candidates.filterMap artifacts.schemas.signedAuditEntrySchema := by
  have hparsed := congrArg (List.filterMap id) h.parsed
  simpa [List.filterMap_map, Function.comp_def] using hparsed.symm

/-- Entries that verify under each key text are sound: a text of two ledger epochs would
break the chain of its group. -/
theorem entriesSound_of_groups {candidates : List (JsonValue D)}
    (h : ∀ entry ∈ candidates.filterMap artifacts.schemas.signedAuditEntrySchema,
      ∃ group, EntriesVerified artifacts policy group
        ((candidates.filterMap artifacts.schemas.signedAuditEntrySchema).filter fun other =>
          ledgerEpochKey other.core.toAuditLedgerRef =
            ledgerEpochKey entry.core.toAuditLedgerRef)) :
    EntriesSound artifacts policy
      (candidates.filterMap artifacts.schemas.signedAuditEntrySchema) := by
  generalize candidates.filterMap artifacts.schemas.signedAuditEntrySchema = entries at h ⊢
  refine ⟨?_, ?_⟩
  · intro entry hentry
    obtain ⟨group, hgroup⟩ := h entry hentry
    exact hgroup.verified entry (List.mem_filter.mpr ⟨hentry, by simp⟩)
  · intro ledger
    by_cases hnone : ofEpoch ledger entries = []
    · rw [hnone]
      exact .nil
    · obtain ⟨entry, hentry⟩ := List.exists_mem_of_ne_nil _ hnone
      obtain ⟨hcarried, hledger⟩ := List.mem_filter.mp hentry
      obtain rfl := of_decide_eq_true hledger
      obtain ⟨group, hgroup⟩ := h entry hcarried
      obtain ⟨ledger, first, hat⟩ := consecutive_of_chained hgroup.chained hgroup.nonempty
      have hone : ∀ other ∈ entries,
          ledgerEpochKey other.core.toAuditLedgerRef = ledgerEpochKey entry.core.toAuditLedgerRef →
            other.core.toAuditLedgerRef = ledger := by
        intro other hother hkey
        have hmem : other ∈ entries.filter fun other =>
            ledgerEpochKey other.core.toAuditLedgerRef =
              ledgerEpochKey entry.core.toAuditLedgerRef :=
          List.mem_filter.mpr ⟨hother, decide_eq_true hkey⟩
        obtain ⟨i, hi⟩ := List.mem_iff_getElem?.mp hmem
        exact (hat i other hi).1
      have hsame : ofEpoch entry.core.toAuditLedgerRef entries = entries.filter fun other =>
          ledgerEpochKey other.core.toAuditLedgerRef =
            ledgerEpochKey entry.core.toAuditLedgerRef := by
        refine List.filter_congr ?_
        intro other hother
        refine decide_eq_decide.mpr ⟨congrArg ledgerEpochKey, ?_⟩
        intro hkey
        exact (hone other hother hkey).trans (hone entry hcarried rfl).symm
      rw [hsame]
      exact hgroup.chained

/-- The key text of a candidate's ledger epoch. -/
def candidateKey (artifacts : AuditArtifactVerifier D) (candidate : JsonValue D) :
    Option JsString :=
  (artifacts.schemas.signedAuditEntrySchema candidate).map fun entry =>
    ledgerEpochKey entry.core.toAuditLedgerRef

theorem reports_valid {reports : List (AuditVerificationReport D)}
    {part : AuditVerificationReport D → AuditVerificationDimension}
    (h : (mergeAuditDimensions (reports.map part)).verdict = .valid) :
    ∀ report ∈ reports, (part report).verdict = .valid := by
  intro report hreport
  exact (mergeAuditDimensions_eq_valid.mp h).2 _ (List.mem_map_of_mem hreport)

theorem entriesSound_of_valid {candidates checkpoints : List (JsonValue D)} {value : JsonValue D}
    {report : AuditVerificationReport D}
    (hpolicy : artifacts.schemas.auditVerificationPolicySchema value = some policy)
    (h : verifyEntryGroups artifacts candidates value checkpoints = .ok report)
    (hcrypto : report.cryptographicIntegrity.verdict = .valid)
    (hchain : report.chainIntegrity.verdict = .valid) :
    EntriesSound artifacts policy
      (candidates.filterMap artifacts.schemas.signedAuditEntrySchema) := by
  obtain ⟨reports, hreports, h⟩ := bind_eq_ok.mp h
  refine entriesSound_of_groups ?_
  intro entry hentry
  obtain ⟨candidate, hcandidate, hschema⟩ := List.mem_filterMap.mp hentry
  have hkey : (candidateKey artifacts candidate).getD [] =
      ledgerEpochKey entry.core.toAuditLedgerRef := by
    rw [candidateKey, hschema]
    rfl
  have hmem : candidate ∈ candidates.filter fun other => (candidateKey artifacts other).isSome :=
    List.mem_filter.mpr ⟨hcandidate, by rw [candidateKey, hschema]; rfl⟩
  have hgroup : (_, _) ∈ groupBy (fun other => (candidateKey artifacts other).getD []) _ :=
    mem_groupBy hmem
  obtain ⟨own, hown, hverified⟩ := exists_mem_of_mapM_eq_ok hreports
    (List.mem_append_left _ (List.mem_map_of_mem hgroup))
  have hvalid : own.cryptographicIntegrity.verdict = .valid ∧
      own.chainIntegrity.verdict = .valid := by
    cases reports with
    | nil => cases hown
    | cons first rest =>
        obtain rfl := Except.ok.inj h
        exact ⟨reports_valid hcrypto own hown, reports_valid hchain own hown⟩
  obtain ⟨parsed, entries, hparsed, hentries⟩ :=
    entriesVerified_of_valid hverified hvalid.1 hvalid.2
  obtain rfl := Option.some.inj (hpolicy.symm.trans hparsed)
  obtain rfl := hentries.eq_filterMap
  rw [← filterMap_group, ← hkey]
  exact ⟨_, hentries⟩

end Entries

/-- A checkpoint carries the digest of its own core. -/
def Digested (artifacts : AuditArtifactVerifier D) (checkpoint : SignedAuditCheckpoint D) : Prop :=
  hashAuditValue artifacts.numbers artifacts.sha256 .checkpoint checkpoint.core.toJson =
    .ok checkpoint.checkpointDigest

/-- A hasher that keeps its input, without a NUL. -/
def plainSha256 (bytes : Bytes) : Except Error Digest := .ok (bytes.map fun b => b.toUInt16 + 1)

/-- The digest of a value that has a canonical text. -/
def plainDigest (domain : AuditDigestDomain) (value : JsonValue SampleDouble) : Digest :=
  match hashAuditValue sampleDoubles plainSha256 domain value with
  | .ok digest => digest
  | .error _ => []

/-- The content of a bundle's component, as hashed. -/
def plainContent (content : JsonValue SampleDouble) : Bytes :=
  match canonicalizeJson sampleDoubles content with
  | .ok text => encodeUtf8 text
  | .error _ => []

/-- The selected ledger epoch. -/
def selectedConfig : AuditRecorderServiceConfig SampleDouble :=
  { sampleConfig with ledgerId := js "a\x00b", ledgerEpochId := js "c" }

/-- A ledger epoch that is not selected. -/
def outsideConfig : AuditRecorderServiceConfig SampleDouble :=
  { sampleConfig with ledgerId := js "d", ledgerEpochId := js "e" }

/-- Another ledger epoch, with the key text of the selected one. -/
def otherEpoch : AuditLedgerRef where
  ledgerId := js "a"
  ledgerEpochId := js "b\x00c"

/-- The genesis of an epoch, with some digests. -/
def genesisWith (config : AuditRecorderServiceConfig SampleDouble)
    (eventDigest manifestDigest entryDigest : Digest) : SignedAuditEntry SampleDouble :=
  let core := candidateCore config (genesisEvent config .zero) eventDigest manifestDigest none .zero
  { core
    eventDigest
    entryDigest
    receiptCore := buildAuditRecorderReceiptCore core entryDigest
    jws := js "jws" }

def genesisOf (config : AuditRecorderServiceConfig SampleDouble) :
    SignedAuditEntry SampleDouble :=
  let event := genesisEvent config .zero
  let eventDigest := plainDigest .event event
  let manifestDigest := plainDigest .evidenceManifest (collectAuditEvidenceManifest event)
  genesisWith config eventDigest manifestDigest
    (plainDigest .entry (genesisWith config eventDigest manifestDigest []).core.toJson)

def selectedEntry : SignedAuditEntry SampleDouble := genesisOf selectedConfig

def outsideEntry : SignedAuditEntry SampleDouble := genesisOf outsideConfig

/-- The epochs whose genesis a bundle carries. -/
def carriedConfigs : List (AuditRecorderServiceConfig SampleDouble) :=
  [selectedConfig, outsideConfig]

def otherCheckpoint : SignedAuditCheckpoint SampleDouble :=
  let core : AuditCheckpointCore SampleDouble := {
    toAuditLedgerRef := otherEpoch
    schema := js "checkpoint"
    checkpointId := js "other"
    treeSize := 1
    firstSequence := 0
    lastSequence := 0
    rootDigest := js "root"
    headEntryDigest := js "head"
    previousCheckpointDigest := none
    createdAt := .zero
    issuer := sampleConfig.signer
    integritySuite := auditIntegritySuite }
  { core
    checkpointDigest := plainDigest .checkpoint core.toJson
    jws := js "jws" }

def otherSelection : AuditBundleSelection where
  toAuditLedgerRef := selectedConfig.toAuditLedgerRef
  firstSequence := 0
  lastSequence := 0
  expectedHeadDigest := selectedEntry.entryDigest
  checkpointTreeSizes := [1]

theorem toNat_plainUnit (b : UInt8) : (b.toUInt16 + 1).toNat = b.toNat + 1 := by
  have hsmall := b.toNat_lt
  have hone : (1 : UInt16).toNat = 1 := rfl
  rw [UInt16.toNat_add, UInt8.toNat_toUInt16, hone]
  omega

theorem plainSha256_injective : Injective plainSha256 := by
  intro left right digest hleft hright
  have hsame := Except.ok.inj (hleft.trans hright.symm)
  refine List.map_injective_iff.mpr ?_ hsame
  intro x y hxy
  have htoNat := congrArg UInt16.toNat hxy
  simp only [toNat_plainUnit, Nat.add_right_cancel_iff] at htoNat
  exact UInt8.toNat_inj.mp htoNat

theorem isScalar_plainUnit (b : UInt8) : isScalar (b.toUInt16 + 1) = true := by
  have hsmall := b.toNat_lt
  apply isScalar_of_lt
  rw [toNat_plainUnit]
  omega

theorem hasLoneSurrogate_plain {bytes : Bytes} {digest : Digest}
    (h : plainSha256 bytes = .ok digest) : hasLoneSurrogate digest = false ∧ 0 ∉ digest := by
  cases h
  refine ⟨hasLoneSurrogate_of_all ?_, ?_⟩
  · simp only [List.all_map, List.all_eq_true, Function.comp_apply, isScalar_plainUnit,
      implies_true]
  · intro hzero
    obtain ⟨b, -, hb⟩ := List.mem_map.mp hzero
    have htoNat := congrArg UInt16.toNat hb
    rw [toNat_plainUnit] at htoNat
    exact absurd htoNat (Nat.succ_ne_zero _)

theorem plainDigest_plain (domain : AuditDigestDomain) (value : JsonValue SampleDouble) :
    hasLoneSurrogate (plainDigest domain value) = false ∧ 0 ∉ plainDigest domain value := by
  unfold plainDigest
  split
  · rename_i digest hdigest
    obtain ⟨_, -, hbytes⟩ := hashAuditValue_eq_ok.mp hdigest
    exact hasLoneSurrogate_plain hbytes
  · exact ⟨rfl, List.not_mem_nil⟩

theorem plainDigest_eq {domain : AuditDigestDomain} {value : JsonValue SampleDouble}
    (h : isCanonical sampleDoubles value = true) :
    hashAuditValue sampleDoubles plainSha256 domain value = .ok (plainDigest domain value) := by
  obtain ⟨hwellFormed, hsupported⟩ := canonical_of_isCanonical _ h
  obtain ⟨text, htext⟩ := (canonicalizeJson_eq_ok sampleDoubles_prints hwellFormed).mpr hsupported
  have hhash : hashAuditValue sampleDoubles plainSha256 domain value = .ok _ :=
    hashAuditValue_eq_ok.mpr ⟨text, htext, rfl⟩
  rw [plainDigest, hhash]

/-- An included component. -/
def carriedComponent (path mediaType : JsString) (items : List (JsonValue SampleDouble)) :
    AuditBundleComponent SampleDouble where
  path
  mediaType
  disposition := .included
  digest := some ((plainContent (.array items)).map fun b => b.toUInt16 + 1)
  size := some (plainContent (.array items)).length
  content := some (.array items)

/-- A signed checkpoint, as candidates carry it. -/
def SignedAuditCheckpoint.toJson (checkpoint : SignedAuditCheckpoint D) : JsonValue D :=
  .object [(js "core", checkpoint.core.toJson),
    (js "checkpointDigest", .string checkpoint.checkpointDigest),
    (js "jws", .string checkpoint.jws)]

def entriesComponent (configs : List (AuditRecorderServiceConfig SampleDouble)) :
    AuditBundleComponent SampleDouble :=
  carriedComponent (js "entries.json") entriesMediaType
    (configs.map fun config => (genesisOf config).toJson)

def checkpointsComponent : AuditBundleComponent SampleDouble :=
  carriedComponent (js "checkpoints.json") checkpointsMediaType [otherCheckpoint.toJson]

/-- The genesis of some epochs and a checkpoint of the other, under a selection of one. -/
def bundleOf (configs : List (AuditRecorderServiceConfig SampleDouble)) :
    AuditReplayBundle SampleDouble :=
  let components := [entriesComponent configs, checkpointsComponent]
  let core : AuditBundleManifestCore SampleDouble := {
    schema := bundleSchema
    bundleId := js "bundle"
    formatVersion := js "1.0.0"
    selections := [otherSelection]
    exporter := sampleConfig.signer
    purpose := js "audit"
    exportedAt := .zero
    verificationPolicyDigest := (encodeUtf8
      (js "org.kya-os.audit.verification-policy.v1" ++ [0]) ++
        plainContent samplePolicyValue).map fun b => b.toUInt16 + 1
    inventory := components.map AuditBundleComponent.toAuditBundleInventoryItem
    integritySuite := auditIntegritySuite }
  { core
    manifestDigest := plainDigest .bundleManifest core.toJson
    jws := js "jws"
    components }

/-- The entry of the selected epoch. -/
def otherBundle : AuditReplayBundle SampleDouble := bundleOf [selectedConfig]

/-- The entry of the selected epoch, and one of an epoch that is not selected. -/
def widerBundle : AuditReplayBundle SampleDouble := bundleOf carriedConfigs

/-- The policy that trusts the recorder for every epoch, and lets it export the selected. -/
def bundlePolicy : AuditVerificationPolicy SampleDouble :=
  { samplePolicy with
    trustedLedgerEpochs := [trustedEpoch selectedConfig.toAuditLedgerRef,
      trustedEpoch outsideConfig.toAuditLedgerRef, trustedEpoch otherEpoch]
    authorizedExporters := [{
      signerKeys := [trustedKey]
      allowedLedgerIds := [selectedConfig.ledgerId]
      allowedPurposes := [js "audit"] }] }

/-- A verifier whose schemas read the parts of a bundle as what they are. -/
def bundleVerifier (bundle : AuditReplayBundle SampleDouble) : BundleVerifier SampleDouble where
  sha256 := plainSha256
  verifySignature _ _ _ := .ok true
  numbers := sampleDoubles
  arithmetic := sampleArithmetic
  schemas := {
    auditVerificationPolicySchema := fun _ => some bundlePolicy
    signedAuditEntrySchema := fun value =>
      if textAt value ["core", "ledgerId"] = outsideConfig.ledgerId then some outsideEntry
      else some selectedEntry
    signedAuditCheckpointSchema := fun _ => some otherCheckpoint
    auditObservationReceiptSchema := fun _ => none
    auditReplayBundleSchema := fun _ => some bundle
    auditBundleInclusionProofSchema := fun _ => none
    auditBundleConsistencyProofSchema := fun _ => none
    auditAnchorReceiptSchema := fun _ => none }

theorem plainContent_eq {content : JsonValue SampleDouble}
    (h : isCanonical sampleDoubles content = true) :
    ∃ text, canonicalizeJson sampleDoubles content = .ok text ∧
      plainContent content = encodeUtf8 text := by
  obtain ⟨hwellFormed, hsupported⟩ := canonical_of_isCanonical _ h
  obtain ⟨text, htext⟩ := (canonicalizeJson_eq_ok sampleDoubles_prints hwellFormed).mpr hsupported
  exact ⟨text, htext, by rw [plainContent, htext]⟩

theorem genesisWith_canonical {config : AuditRecorderServiceConfig SampleDouble}
    (hconfig : config ∈ carriedConfigs) {eventDigest manifestDigest entryDigest : Digest}
    (hevent : hasLoneSurrogate eventDigest = false)
    (hmanifest : hasLoneSurrogate manifestDigest = false)
    (hentry : hasLoneSurrogate entryDigest = false) :
    isCanonical sampleDoubles
      (genesisWith config eventDigest manifestDigest entryDigest).toJson = true := by
  simp only [genesisWith, candidateCore, SignedAuditEntry.toJson, AuditEntryCore.toJson,
    AuditRecorderReceiptCore.toJson, buildAuditRecorderReceiptCore, isCanonical, membersCanonical,
    List.map_cons, List.map_nil, hevent, hmanifest, hentry]
  simp only [carriedConfigs, List.mem_cons, List.not_mem_nil, or_false] at hconfig
  obtain rfl | rfl := hconfig
  · decide +kernel
  · decide +kernel

theorem genesisOf_canonical {config : AuditRecorderServiceConfig SampleDouble}
    (hconfig : config ∈ carriedConfigs) :
    isCanonical sampleDoubles (genesisOf config).toJson = true :=
  genesisWith_canonical hconfig (plainDigest_plain _ _).1 (plainDigest_plain _ _).1
    (plainDigest_plain _ _).1

theorem otherCheckpoint_canonical : isCanonical sampleDoubles otherCheckpoint.toJson = true := by
  have hdigest : hasLoneSurrogate otherCheckpoint.checkpointDigest = false :=
    (plainDigest_plain _ _).1
  simp only [SignedAuditCheckpoint.toJson, isCanonical, membersCanonical, List.map_cons,
    List.map_nil, hdigest]
  decide +kernel

/-- The parts of a canonical entry. -/
theorem canonical_parts {entry : SignedAuditEntry SampleDouble}
    (h : isCanonical sampleDoubles entry.toJson = true) :
    isCanonical sampleDoubles entry.core.toJson = true ∧
      isCanonical sampleDoubles entry.receiptCore.toJson = true := by
  simp only [SignedAuditEntry.toJson, isCanonical, membersCanonical, Bool.and_eq_true] at h
  obtain ⟨-, ⟨-, hcore⟩, -, -, ⟨-, -, ⟨-, hreceipt⟩, -⟩, -⟩ := h
  exact ⟨hcore, hreceipt⟩

theorem mem_carriedConfigs {config : AuditRecorderServiceConfig SampleDouble}
    (hconfig : config ∈ carriedConfigs) : config = selectedConfig ∨ config = outsideConfig := by
  simpa [carriedConfigs] using hconfig

section Sample

variable {configs : List (AuditRecorderServiceConfig SampleDouble)}
  {bundle : AuditReplayBundle SampleDouble}

theorem genesisOf_verified {config : AuditRecorderServiceConfig SampleDouble}
    (hconfig : config ∈ carriedConfigs) :
    EntryVerified (bundleVerifier bundle).artifactVerifier bundlePolicy (genesisOf config) where
  event := by
    simp only [carriedConfigs, List.mem_cons, List.not_mem_nil, or_false] at hconfig
    obtain rfl | rfl := hconfig
    · exact plainDigest_eq (by decide +kernel)
    · exact plainDigest_eq (by decide +kernel)
  manifest := by
    simp only [carriedConfigs, List.mem_cons, List.not_mem_nil, or_false] at hconfig
    obtain rfl | rfl := hconfig
    · exact plainDigest_eq (by decide +kernel)
    · exact plainDigest_eq (by decide +kernel)
  digest := plainDigest_eq (canonical_parts (genesisOf_canonical hconfig)).1
  trusted := by
    simp only [carriedConfigs, List.mem_cons, List.not_mem_nil, or_false] at hconfig
    obtain rfl | rfl := hconfig
    · exact ⟨_, List.mem_cons_self, rfl⟩
    · exact ⟨_, List.mem_cons_of_mem _ List.mem_cons_self, rfl⟩

theorem otherCheckpoint_digested :
    Digested (bundleVerifier bundle).artifactVerifier otherCheckpoint := by
  have hcanonical := otherCheckpoint_canonical
  simp only [SignedAuditCheckpoint.toJson, isCanonical, membersCanonical, Bool.and_eq_true]
    at hcanonical
  exact plainDigest_eq hcanonical.2.1.2

theorem boundaries_other :
    (bundleVerifier bundle).artifactVerifier.boundaries [otherCheckpoint.toJson] [] =
      .ok [(otherCheckpoint.checkpointDigest, { otherCheckpoint.core with })] :=
  bind_eq_ok.mpr ⟨_, otherCheckpoint_digested, rfl⟩

theorem carriedEntries_bundleOf (hconfigs : configs ⊆ carriedConfigs) :
    carriedEntries (bundleVerifier bundle) (bundleOf configs) = configs.map genesisOf := by
  have hcarried : includedArrays (bundleOf configs) entriesMediaType =
      configs.map (fun config => (genesisOf config).toJson) ++ [] := rfl
  rw [carriedEntries, hcarried, List.append_nil, List.filterMap_map, ← List.filterMap_eq_map]
  refine List.filterMap_congr ?_
  intro config hconfig
  obtain rfl | rfl := mem_carriedConfigs (hconfigs hconfig)
  · rfl
  · rfl

variable (bundle)

/-- The genesis of a carried epoch verifies on its own. -/
theorem verifyEntries_genesisOf {config : AuditRecorderServiceConfig SampleDouble}
    (hconfig : config ∈ carriedConfigs) :
    ∃ report, (bundleVerifier bundle).artifactVerifier.verifyEntries [(genesisOf config).toJson]
        samplePolicyValue [otherCheckpoint.toJson] = .ok report ∧
      report.cryptographicIntegrity.verdict = .valid ∧ report.chainIntegrity.verdict = .valid := by
  have hverified : ∀ boundaries, (bundleVerifier bundle).artifactVerifier.verifyEntry
      (genesisOf config) bundlePolicy boundaries = .ok [] := by
    intro boundaries
    obtain ⟨receipt, hreceipt, -⟩ :=
      plainContent_eq (canonical_parts (genesisOf_canonical hconfig)).2
    refine verifyEntry_eq_nil (genesisOf_verified hconfig) rfl rfl hreceipt rfl ?_
      (List.mem_singleton_self _) ?_
    · obtain rfl | rfl := mem_carriedConfigs hconfig
      · rfl
      · rfl
    · obtain rfl | rfl := mem_carriedConfigs hconfig
      · exact List.mem_singleton_self _
      · exact List.mem_singleton_self _
  have hfound : (bundleVerifier bundle).artifactVerifier.findEntries bundlePolicy
      [(otherCheckpoint.checkpointDigest, { otherCheckpoint.core with })]
        [(genesisOf config).toJson] { cryptoReasons := [], chainReasons := [] } =
          .ok ⟨[], [], [genesisOf config]⟩ := by
    obtain rfl | rfl := mem_carriedConfigs hconfig
    · exact bind_eq_ok.mpr ⟨[], hverified _, rfl⟩
    · exact bind_eq_ok.mpr ⟨[], hverified _, rfl⟩
  exact ⟨_, bind_eq_ok.mpr ⟨_, boundaries_other, bind_eq_ok.mpr ⟨_, hfound, rfl⟩⟩, rfl, rfl⟩

theorem verifyEntryGroups_other :
    ∃ report, verifyEntryGroups (bundleVerifier bundle).artifactVerifier
        (includedArrays otherBundle entriesMediaType) samplePolicyValue
          [otherCheckpoint.toJson] = .ok report ∧
      report.cryptographicIntegrity.verdict = .valid ∧ report.chainIntegrity.verdict = .valid := by
  have hselected : selectedConfig ∈ carriedConfigs := List.mem_cons_self
  obtain ⟨report, hreport, hcrypto, hchain⟩ := verifyEntries_genesisOf bundle hselected
  have hreports : [[selectedEntry.toJson]].mapM (fun group =>
      (bundleVerifier bundle).artifactVerifier.verifyEntries group samplePolicyValue
        [otherCheckpoint.toJson]) = .ok [report] := by
    rw [List.mapM_cons, selectedEntry, hreport]
    rfl
  refine ⟨_, bind_eq_ok.mpr ⟨[report], hreports, rfl⟩, ?_, ?_⟩
  · exact mergeAuditDimensions_eq_valid.mpr ⟨List.cons_ne_nil _ _, by simpa using hcrypto⟩
  · exact mergeAuditDimensions_eq_valid.mpr ⟨List.cons_ne_nil _ _, by simpa using hchain⟩

/-- Each ledger epoch is verified on its own, the selected one and the other. -/
theorem verifyEntryGroups_wider :
    ∃ report, verifyEntryGroups (bundleVerifier bundle).artifactVerifier
        (includedArrays widerBundle entriesMediaType) samplePolicyValue
          [otherCheckpoint.toJson] = .ok report ∧
      report.cryptographicIntegrity.verdict = .valid ∧ report.chainIntegrity.verdict = .valid := by
  have hselected : selectedConfig ∈ carriedConfigs := List.mem_cons_self
  have houtside : outsideConfig ∈ carriedConfigs := List.mem_cons_of_mem _ List.mem_cons_self
  obtain ⟨selected, hselected, hcrypto, hchain⟩ := verifyEntries_genesisOf bundle hselected
  obtain ⟨outside, houtside, hcrypto', hchain'⟩ := verifyEntries_genesisOf bundle houtside
  have hreports : [[selectedEntry.toJson], [outsideEntry.toJson]].mapM (fun group =>
      (bundleVerifier bundle).artifactVerifier.verifyEntries group samplePolicyValue
        [otherCheckpoint.toJson]) = .ok [selected, outside] := by
    rw [List.mapM_cons, selectedEntry, hselected]
    refine bind_eq_ok.mpr ⟨_, rfl, bind_eq_ok.mpr ⟨[outside], ?_, rfl⟩⟩
    rw [List.mapM_cons, outsideEntry, houtside]
    rfl
  refine ⟨_, bind_eq_ok.mpr ⟨[selected, outside], hreports, rfl⟩, ?_, ?_⟩
  · exact mergeAuditDimensions_eq_valid.mpr
      ⟨List.cons_ne_nil _ _, by simpa using ⟨hcrypto, hcrypto'⟩⟩
  · exact mergeAuditDimensions_eq_valid.mpr
      ⟨List.cons_ne_nil _ _, by simpa using ⟨hchain, hchain'⟩⟩

end Sample

end KyaOs.Audit
