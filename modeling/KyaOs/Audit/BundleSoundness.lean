import KyaOs.Audit.BundleCheckpoints

/-!
# What a valid replay bundle proves

A selection of a bundle reported valid is carried completely: its entries, linked in order
up to the expected head, and its checkpoints, bound to each other and to every entry they
cover. The checkpoints are looked up under the key text of their ledger epoch, so a
checkpoint of another epoch with the same text can stand in for a missing one.
-/

namespace KyaOs.Audit

open Js JsonValue

variable {D : Type}

section Bundles

variable {verifier : BundleVerifier D} {bundle : AuditReplayBundle D}

/-- What a report with valid entries says of the bundle and its policy. -/
structure BundleSound (verifier : BundleVerifier D) (bundle : AuditReplayBundle D)
    (policy : AuditVerificationPolicy D) (policyValue : JsonValue D) : Prop where
  manifest : manifestReasons verifier bundle policy policyValue = .ok []
  entries : EntriesSound verifier.artifactVerifier policy (carriedEntries verifier bundle)

theorem manifestDimension_eq_valid {reasons : List AuditReasonCode} :
    (manifestDimension reasons).verdict = .valid ↔ reasons = [] := by
  rw [manifestDimension, verdict_reasoned]
  split
  · simpa
  · rename_i hreasons
    split <;> simp [hreasons]

theorem isSelectionComplete_of_valid {selections : List AuditBundleSelection}
    {entries : List (SignedAuditEntry D)} {omissions : List (AuditBundleComponent D)}
    (h : (selectionCompleteness selections entries omissions).verdict = .valid) :
    ∀ selection ∈ selections, isSelectionComplete entries selection = true := by
  unfold selectionCompleteness at h
  dsimp only at h
  split at h
  · cases h
  · rename_i hincomplete
    rw [ne_eq, not_not, List.flatMap_eq_nil_iff] at hincomplete
    intro selection hselection
    simpa using ((reasonsOf_cons _ _ _).mp (hincomplete selection hselection)).1

theorem bundleSound_of_valid {value policyValue : JsonValue D} {report : AuditVerificationReport D}
    (hbundle : verifier.schemas.auditReplayBundleSchema value = some bundle)
    (h : verifyAuditBundle verifier value policyValue = .ok report)
    (hcrypto : report.cryptographicIntegrity.verdict = .valid)
    (hchain : report.chainIntegrity.verdict = .valid) :
    ∃ policy, verifier.schemas.auditVerificationPolicySchema policyValue = some policy ∧
      BundleSound verifier bundle policy policyValue ∧
      (report.checkpointIntegrity.verdict = .valid → HistorySound verifier bundle) ∧
      (report.scopeEvidenceCompleteness.verdict = .valid → ∀ selection ∈ bundle.core.selections,
        isSelectionComplete (carriedEntries verifier bundle) selection = true) := by
  unfold verifyAuditBundle at h
  rw [hbundle] at h
  split at h
  · obtain rfl := Except.ok.inj h
    cases hcrypto
  · rename_i hnone
    cases hnone
  · rename_i policy found hpolicy hfound
    obtain rfl := Option.some.inj hfound
    obtain ⟨reasons, hreasons, h⟩ := bind_eq_ok.mp h
    obtain ⟨artifactReport, hartifacts, h⟩ := bind_eq_ok.mp h
    obtain ⟨checkpointIntegrity, hcheckpoints, h⟩ := bind_eq_ok.mp h
    obtain ⟨anchorIntegrity, -, h⟩ := bind_eq_ok.mp h
    obtain rfl := Except.ok.inj h
    have hboth := (mergeAuditDimensions_eq_valid.mp (valid_of_required.1 hcrypto)).2
    have hmanifest := manifestDimension_eq_valid.mp (hboth _ List.mem_cons_self)
    have hartifactCrypto := hboth _ (List.mem_cons_of_mem _ (List.mem_singleton_self _))
    have hartifactChain := valid_of_required.2.1 hchain
    refine ⟨policy, hpolicy, ⟨hmanifest ▸ hreasons, ?_⟩, ?_, ?_⟩
    · exact entriesSound_of_valid hpolicy hartifacts hartifactCrypto hartifactChain
    · intro hvalid
      exact historySound_of_valid hcheckpoints (valid_of_required.2.2.1 hvalid)
    · intro hvalid selection hselection
      rw [valid_of_required.2.2.2] at hvalid
      exact isSelectionComplete_of_valid hvalid selection hselection

/-- The carried checkpoints of a ledger epoch. -/
def checkpointsOf (verifier : BundleVerifier D) (bundle : AuditReplayBundle D)
    (ledger : AuditLedgerRef) : List (SignedAuditCheckpoint D) :=
  (carriedCheckpoints verifier bundle).filter fun checkpoint =>
    checkpoint.core.toAuditLedgerRef = ledger

/-- A selection is carried completely: its entries, linked up to the expected head, and its
checkpoints, each of the listed sizes once, bound to each other and to what they cover. -/
structure SelectionProved (verifier : BundleVerifier D) (bundle : AuditReplayBundle D)
    (selection : AuditBundleSelection) : Prop where
  range : RangeComplete selection (carriedEntries verifier bundle)
  linked : (ofEpoch selection.toAuditLedgerRef (carriedEntries verifier bundle)).IsChain Succeeds
  digested : ∀ entry ∈ ofEpoch selection.toAuditLedgerRef (carriedEntries verifier bundle),
    digestAuditEntry verifier.numbers verifier.artifactVerifier.sha256 entry.core =
      .ok entry.entryDigest
  sizes : ((checkpointsOf verifier bundle selection.toAuditLedgerRef).map fun checkpoint =>
    checkpoint.core.treeSize).Perm selection.checkpointTreeSizes
  distinct : ((checkpointsOf verifier bundle selection.toAuditLedgerRef).map fun checkpoint =>
    checkpoint.core.treeSize).Nodup
  commits : ∀ checkpoint ∈ checkpointsOf verifier bundle selection.toAuditLedgerRef,
    Commits verifier.artifactVerifier verifier.sha256 (carriedEntries verifier bundle) checkpoint
  bound : (bySize (checkpointsOf verifier bundle selection.toAuditLedgerRef)).IsChain
    (BoundTo verifier.sha256)

/-- Under the key text of a selection the bundle carries checkpoints of its epoch only. -/
def KeyedByEpoch (verifier : BundleVerifier D) (bundle : AuditReplayBundle D) : Prop :=
  ∀ selection ∈ bundle.core.selections, ∀ checkpoint ∈ carriedCheckpoints verifier bundle,
    ledgerEpochKey checkpoint.core.toAuditLedgerRef = ledgerEpochKey selection.toAuditLedgerRef →
      checkpoint.core.toAuditLedgerRef = selection.toAuditLedgerRef

theorem named_eq_checkpointsOf (hkeyed : KeyedByEpoch verifier bundle)
    {selection : AuditBundleSelection} (hselection : selection ∈ bundle.core.selections) :
    named (ledgerEpochKey selection.toAuditLedgerRef) (carriedCheckpoints verifier bundle) =
      checkpointsOf verifier bundle selection.toAuditLedgerRef := by
  refine List.filter_congr ?_
  intro checkpoint hcheckpoint
  exact decide_eq_decide.mpr
    ⟨hkeyed selection hselection checkpoint hcheckpoint, congrArg ledgerEpochKey⟩

theorem perm_bySize (checkpoints : List (SignedAuditCheckpoint D)) :
    (bySize checkpoints).Perm checkpoints :=
  List.mergeSort_perm _ _

/-- In order and with different neighbours, the sizes are distinct. -/
theorem nodup_of_bound {checkpoints : List (SignedAuditCheckpoint D)}
    (h : (bySize checkpoints).IsChain fun previous current =>
      current.core.treeSize ≠ previous.core.treeSize) :
    (checkpoints.map fun checkpoint => checkpoint.core.treeSize).Nodup := by
  have hsorted : (bySize checkpoints).Pairwise fun left right =>
      decide (left.core.treeSize ≤ right.core.treeSize) = true :=
    List.pairwise_mergeSort (fun _ _ _ => by simpa using le_trans)
      (fun left right => by simpa using le_total left.core.treeSize right.core.treeSize) checkpoints
  have hchain : ((bySize checkpoints).map fun checkpoint => checkpoint.core.treeSize).IsChain
      (· < ·) := by
    rw [List.isChain_map, List.isChain_iff_getElem]
    intro i hi
    have hle := List.isChain_iff_getElem.mp hsorted.isChain i hi
    have hne := List.isChain_iff_getElem.mp h i hi
    exact lt_of_le_of_ne (of_decide_eq_true hle) (Ne.symm hne)
  have hnodup := (List.isChain_iff_pairwise.mp hchain).nodup
  exact ((perm_bySize checkpoints).map _).nodup_iff.mp hnodup

theorem selectionProved_of_keyed (hprints : verifier.numbers.Prints)
    (hinjective : Injective verifier.artifactVerifier.sha256)
    (hplain : PlainDigests verifier.schemas) {policy : AuditVerificationPolicy D}
    (hentries : EntriesSound verifier.artifactVerifier policy (carriedEntries verifier bundle))
    (hhistory : HistorySound verifier bundle) (hkeyed : KeyedByEpoch verifier bundle)
    {selection : AuditBundleSelection} (hselection : selection ∈ bundle.core.selections)
    (hcomplete : isSelectionComplete (carriedEntries verifier bundle) selection = true) :
    SelectionProved verifier bundle selection := by
  have hbound := hhistory.bound (ledgerEpochKey selection.toAuditLedgerRef)
  have hsizes := hhistory.sizes selection hselection
  rw [named_eq_checkpointsOf hkeyed hselection] at hbound hsizes
  have hcarried : ∀ checkpoint ∈ checkpointsOf verifier bundle selection.toAuditLedgerRef,
      checkpoint ∈ carriedCheckpoints verifier bundle := fun _ => List.mem_of_mem_filter
  have hunrivalled : ∀ checkpoint ∈ carriedCheckpoints verifier bundle,
      Unrivalled (carriedCheckpoints verifier bundle) checkpoint := by
    intro checkpoint hcheckpoint
    obtain ⟨candidate, -, hschema⟩ := List.mem_filterMap.mp hcheckpoint
    refine ⟨hplain.checkpoint candidate checkpoint hschema, ?_⟩
    intro other hother
    exact Digested.agrees hprints hinjective (hhistory.digested other hother)
      (hhistory.digested checkpoint hcheckpoint)
  refine {
    range := rangeComplete_of_isSelectionComplete (hentries.chained _) hcomplete
    linked := hentries.chained _
    digested := fun entry hentry => (hentries.verified entry (List.mem_of_mem_filter hentry)).digest
    sizes := ?_
    distinct := nodup_of_bound (hbound.imp fun _ _ h => h.1)
    commits := ?_
    bound := ?_ }
  · have hsorted := ((perm_bySize _).map _).symm.trans (List.Perm.of_eq hsizes)
    exact hsorted.trans (List.mergeSort_perm _ _)
  · intro checkpoint hcheckpoint
    refine (hhistory.committed checkpoint (hcarried checkpoint hcheckpoint)).imp_right ?_
    intro hkeys entry hentry
    obtain ⟨candidate, -, hschema⟩ := List.mem_filterMap.mp (List.mem_of_mem_filter hentry)
    exact provedLeaf_of_mem hplain (hunrivalled checkpoint (hcarried checkpoint hcheckpoint))
      (hplain.entry candidate entry hschema) (hkeys entry hentry)
  · refine List.IsChain.imp_of_mem_imp ?_ hbound
    intro previous current hprevious hcurrent hadjacent
    have hunrivalledMem : ∀ checkpoint ∈ bySize (checkpointsOf verifier bundle
        selection.toAuditLedgerRef), Unrivalled (carriedCheckpoints verifier bundle) checkpoint :=
      fun checkpoint hmem => hunrivalled checkpoint
        (hcarried checkpoint ((perm_bySize _).mem_iff.mp hmem))
    cases hadjacent.2 with
    | inl hlinked => exact .inl hlinked
    | inr hkey =>
        exact boundTo_of_mem hplain (hunrivalledMem previous hprevious)
          (hunrivalledMem current hcurrent) hkey

/-- As many checkpoints of the epoch as under its key text, so all of these are of it. -/
theorem keyed_of_sizes (hhistory : HistorySound verifier bundle) {selection : AuditBundleSelection}
    (hselection : selection ∈ bundle.core.selections)
    (hsizes : ((checkpointsOf verifier bundle selection.toAuditLedgerRef).map fun checkpoint =>
      checkpoint.core.treeSize).Perm selection.checkpointTreeSizes)
    {checkpoint : SignedAuditCheckpoint D}
    (hcheckpoint : checkpoint ∈ carriedCheckpoints verifier bundle)
    (hkey : ledgerEpochKey checkpoint.core.toAuditLedgerRef =
      ledgerEpochKey selection.toAuditLedgerRef) :
    checkpoint.core.toAuditLedgerRef = selection.toAuditLedgerRef := by
  have hown : checkpointsOf verifier bundle selection.toAuditLedgerRef =
      (named (ledgerEpochKey selection.toAuditLedgerRef)
        (carriedCheckpoints verifier bundle)).filter
        fun checkpoint => checkpoint.core.toAuditLedgerRef = selection.toAuditLedgerRef := by
    rw [named, List.filter_filter, checkpointsOf]
    refine List.filter_congr ?_
    intro other _
    by_cases hledger : other.core.toAuditLedgerRef = selection.toAuditLedgerRef
    · simp [hledger]
    · simp [hledger]
  have hnamed := congrArg List.length (hhistory.sizes selection hselection)
  have hlength := hsizes.length_eq
  rw [List.length_map, (perm_bySize _).length_eq, List.length_mergeSort] at hnamed
  rw [List.length_map, hown, ← hnamed, List.length_filter_eq_length_iff] at hlength
  have hmem : checkpoint ∈ named (ledgerEpochKey selection.toAuditLedgerRef)
      (carriedCheckpoints verifier bundle) :=
    List.mem_filter.mpr ⟨hcheckpoint, decide_eq_true hkey⟩
  exact of_decide_eq_true (hlength checkpoint hmem)

/-- A bundle reported valid proves its selections complete exactly when no checkpoint of
another epoch is carried under the key text of a selection. -/
theorem verifyAuditBundle_proves_selections (hprints : verifier.numbers.Prints)
    (hinjective : Injective verifier.artifactVerifier.sha256)
    (hplain : PlainDigests verifier.schemas) {value policyValue : JsonValue D}
    {report : AuditVerificationReport D}
    (hbundle : verifier.schemas.auditReplayBundleSchema value = some bundle)
    (h : verifyAuditBundle verifier value policyValue = .ok report)
    (hcrypto : report.cryptographicIntegrity.verdict = .valid)
    (hchain : report.chainIntegrity.verdict = .valid)
    (hcheckpoint : report.checkpointIntegrity.verdict = .valid)
    (hscope : report.scopeEvidenceCompleteness.verdict = .valid) :
    (∀ selection ∈ bundle.core.selections, SelectionProved verifier bundle selection) ↔
      KeyedByEpoch verifier bundle := by
  obtain ⟨policy, -, hsound, hhistory, hselections⟩ := bundleSound_of_valid hbundle h hcrypto hchain
  constructor
  · intro hproved selection hselection checkpoint hcarried hkey
    exact keyed_of_sizes (hhistory hcheckpoint) hselection (hproved selection hselection).sizes
      hcarried hkey
  · intro hkeyed selection hselection
    exact selectionProved_of_keyed hprints hinjective hplain hsound.entries (hhistory hcheckpoint)
      hkeyed hselection (hselections hscope selection hselection)

/-- A rule of the policy lets the exporter of a manifest export its selections. -/
structure AllowsExport (arithmetic : Arithmetic D) (policy : AuditVerificationPolicy D)
    (core : AuditBundleManifestCore D) (rule : AuthorizedExporter D) : Prop where
  listed : rule ∈ policy.authorizedExporters
  purpose : core.purpose ∈ rule.allowedPurposes
  ledgers : ∀ selection ∈ core.selections, selection.ledgerId ∈ rule.allowedLedgerIds
  signed : ∃ key ∈ rule.signerKeys, key.signer = core.exporter ∧
    validAt arithmetic key.validFrom key.validUntil core.exportedAt = true ∧
    key.validFromCheckpoint = none ∧ key.validUntilCheckpoint = none

theorem allowsExport_of_authorized {arithmetic : Arithmetic D} {core : AuditBundleManifestCore D}
    {policy : AuditVerificationPolicy D}
    (h : exporterAuthorization arithmetic core policy = .authorized) :
    ∃ rule, AllowsExport arithmetic policy core rule := by
  simp only [exporterAuthorization] at h
  split at h
  · rename_i hkeys
    simp only [List.any_eq_true, List.mem_filter, List.mem_flatMap, Bool.and_eq_true,
      Option.isNone_iff_eq_none, covers, List.all_eq_true, List.contains_iff_mem,
      decide_eq_true_eq] at hkeys
    obtain ⟨key, ⟨⟨rule, ⟨hlisted, hpurpose, hledgers⟩, hkey⟩, hsigner, hvalid⟩, hbounds⟩ := hkeys
    exact ⟨rule, hlisted, hpurpose, hledgers, key, hkey, hsigner, hvalid, hbounds⟩
  · split at h
    · cases h
    · cases h

theorem authorized_of_manifest {policy : AuditVerificationPolicy D} {policyValue : JsonValue D}
    (h : manifestReasons verifier bundle policy policyValue = .ok []) :
    exporterAuthorization verifier.arithmetic bundle.core policy = .authorized := by
  obtain ⟨_, -, h⟩ := bind_eq_ok.mp h
  obtain ⟨_, -, h⟩ := bind_eq_ok.mp h
  obtain ⟨_, -, h⟩ := bind_eq_ok.mp h
  obtain ⟨_, -, h⟩ := bind_eq_ok.mp h
  obtain ⟨_, -, h⟩ := bind_eq_ok.mp h
  have hreasons := (List.append_eq_nil_iff.mp (Except.ok.inj h)).1
  simp only [reasonsOf_cons, decide_eq_false_iff_not] at hreasons
  obtain ⟨-, -, -, hauthorized, hresolved, -⟩ := hreasons
  cases hexporter : exporterAuthorization verifier.arithmetic bundle.core policy with
  | authorized => rfl
  | unresolved => exact absurd hexporter hresolved
  | unauthorized => exact absurd hexporter hauthorized

/-- One rule lets the exporter export every selection, so what a valid bundle carries of the
selected epochs; their entries are the selected ranges, and every other entry is of an epoch
that the policy trusts. -/
theorem verifyAuditBundle_exports_selections {value policyValue : JsonValue D}
    {report : AuditVerificationReport D}
    (hbundle : verifier.schemas.auditReplayBundleSchema value = some bundle)
    (h : verifyAuditBundle verifier value policyValue = .ok report)
    (hcrypto : report.cryptographicIntegrity.verdict = .valid)
    (hchain : report.chainIntegrity.verdict = .valid)
    (hscope : report.scopeEvidenceCompleteness.verdict = .valid) :
    ∃ policy, verifier.schemas.auditVerificationPolicySchema policyValue = some policy ∧
      (∀ entry ∈ carriedEntries verifier bundle, ∃ epoch ∈ policy.trustedLedgerEpochs,
        epoch.toAuditLedgerRef = entry.core.toAuditLedgerRef) ∧
      (∀ selection ∈ bundle.core.selections,
        RangeComplete selection (carriedEntries verifier bundle)) ∧
      ∃ rule, AllowsExport verifier.arithmetic policy bundle.core rule ∧
        ∀ selection ∈ bundle.core.selections,
          (∀ entry ∈ carriedEntries verifier bundle,
            entry.core.toAuditLedgerRef = selection.toAuditLedgerRef →
              entry.core.ledgerId ∈ rule.allowedLedgerIds) ∧
          ∀ checkpoint ∈ carriedCheckpoints verifier bundle,
            checkpoint.core.toAuditLedgerRef = selection.toAuditLedgerRef →
              checkpoint.core.ledgerId ∈ rule.allowedLedgerIds := by
  obtain ⟨policy, hpolicy, hsound, -, hselections⟩ :=
    bundleSound_of_valid hbundle h hcrypto hchain
  obtain ⟨rule, hrule⟩ := allowsExport_of_authorized (authorized_of_manifest hsound.manifest)
  refine ⟨policy, hpolicy, fun entry hentry => (hsound.entries.verified entry hentry).trusted, ?_,
    rule, hrule, ?_⟩
  · intro selection hselection
    exact rangeComplete_of_isSelectionComplete (hsound.entries.chained _)
      (hselections hscope selection hselection)
  · intro selection hselection
    have hallowed := hrule.ledgers selection hselection
    refine ⟨fun entry _ hledger => ?_, fun checkpoint _ hledger => ?_⟩
    · rw [congrArg AuditLedgerRef.ledgerId hledger]
      exact hallowed
    · rw [congrArg AuditLedgerRef.ledgerId hledger]
      exact hallowed

end Bundles

theorem bundleOf_canonical (configs : List (AuditRecorderServiceConfig SampleDouble)) :
    isCanonical sampleDoubles (bundleOf configs).core.toJson = true := by
  have hdigest : ∀ bytes : Bytes, hasLoneSurrogate (bytes.map fun b => b.toUInt16 + 1) = false :=
    fun bytes => (hasLoneSurrogate_plain rfl).1
  have hhead : hasLoneSurrogate selectedEntry.entryDigest = false := (plainDigest_plain _ _).1
  simp only [bundleOf, AuditBundleManifestCore.toJson, AuditBundleInventoryItem.toJson,
    AuditBundleSelection.toJson, otherSelection, entriesComponent, checkpointsComponent,
    carriedComponent, optionalText, isCanonical, membersCanonical, itemsCanonical,
    List.map_cons, List.map_nil, Option.map_some, Option.toList_some, Option.toList_none,
    List.append_nil, List.cons_append, List.nil_append, hdigest, hhead,
    hasLoneSurrogate_decimalString]
  decide +kernel

theorem carriedComponent_canonical (path mediaType : JsString)
    (items : List (JsonValue SampleDouble)) (hpath : hasLoneSurrogate path = false)
    (hmediaType : hasLoneSurrogate mediaType = false) :
    isCanonical sampleDoubles
      (carriedComponent path mediaType items).toAuditBundleInventoryItem.toJson = true := by
  have hdigest : ∀ bytes : Bytes, hasLoneSurrogate (bytes.map fun b => b.toUInt16 + 1) = false :=
    fun bytes => (hasLoneSurrogate_plain rfl).1
  simp only [AuditBundleInventoryItem.toJson, carriedComponent, optionalText, isCanonical,
    membersCanonical, List.map_cons, List.map_nil, Option.map_some, Option.toList_some,
    Option.toList_none, List.append_nil, List.cons_append, List.nil_append,
    hdigest, hpath, hmediaType, hasLoneSurrogate_decimalString]
  decide +kernel

theorem itemsCanonical_eq {items : List (JsonValue SampleDouble)}
    (h : ∀ item ∈ items, isCanonical sampleDoubles item = true) :
    itemsCanonical sampleDoubles items = true := by
  induction items with
  | nil => rfl
  | cons item rest ih =>
      rw [itemsCanonical, h item List.mem_cons_self,
        ih fun other hother => h other (List.mem_cons_of_mem _ hother)]
      rfl

section Sample

variable {configs : List (AuditRecorderServiceConfig SampleDouble)}
  {bundle : AuditReplayBundle SampleDouble}

theorem inventoryReasons_carried {components : List (JsString × AuditBundleComponent SampleDouble)}
    {path mediaType : JsString} {items : List (JsonValue SampleDouble)}
    (hlookup : components.lookup path = some (carriedComponent path mediaType items))
    (hpath : hasLoneSurrogate path = false) (hmediaType : hasLoneSurrogate mediaType = false)
    (hsafe : isSafePath path = true)
    (hitems : isCanonical sampleDoubles (.array items) = true) :
    inventoryReasons (bundleVerifier bundle) components
      (carriedComponent path mediaType items).toAuditBundleInventoryItem = .ok [] := by
  obtain ⟨item, hitem, -⟩ :=
    plainContent_eq (carriedComponent_canonical path mediaType items hpath hmediaType)
  obtain ⟨text, htext, hcontent⟩ := plainContent_eq hitems
  have hlookup' : components.lookup (carriedComponent path mediaType items).path =
      some (carriedComponent path mediaType items) := hlookup
  rw [inventoryReasons, hlookup']
  refine bind_eq_ok.mpr ⟨item, hitem, bind_eq_ok.mpr ⟨item, hitem, ?_⟩⟩
  rw [if_neg (not_not.mpr rfl)]
  have hsize : (carriedComponent path mediaType items).size = some (encodeUtf8 text).length := by
    simp [carriedComponent, hcontent]
  refine bind_eq_ok.mpr ⟨text, htext, ?_⟩
  rw [if_neg (not_not.mpr hsize)]
  refine bind_eq_ok.mpr ⟨_, rfl, congrArg Except.ok ?_⟩
  simp [carriedComponent, hsafe, hcontent]

theorem manifestReasons_bundleOf (hconfigs : configs ⊆ carriedConfigs) :
    manifestReasons (bundleVerifier bundle) (bundleOf configs) bundlePolicy samplePolicyValue =
      .ok [] := by
  obtain ⟨core, hcore, -⟩ := plainContent_eq (bundleOf_canonical configs)
  obtain ⟨policy, hpolicy, hpolicyContent⟩ :=
    plainContent_eq (show isCanonical sampleDoubles samplePolicyValue = true by decide +kernel)
  have hcomponents : (bundleOf configs).components.foldl
      (fun items component => assignMember component.path component items) [] =
        [(js "entries.json", entriesComponent configs),
          (js "checkpoints.json", checkpointsComponent)] := by
    rfl
  have hinventory : (bundleOf configs).core.inventory.foldl
      (fun items item => assignMember item.path item items) [] =
        [(js "entries.json", (entriesComponent configs).toAuditBundleInventoryItem),
          (js "checkpoints.json", checkpointsComponent.toAuditBundleInventoryItem)] := by
    rfl
  have hentries : inventoryReasons (bundleVerifier bundle)
      [(js "entries.json", entriesComponent configs),
        (js "checkpoints.json", checkpointsComponent)]
        (entriesComponent configs).toAuditBundleInventoryItem = .ok [] := by
    refine inventoryReasons_carried rfl (by decide +kernel) (by decide +kernel)
      (by decide +kernel) (itemsCanonical_eq ?_)
    intro item hitem
    obtain ⟨config, hconfig, rfl⟩ := List.mem_map.mp hitem
    exact genesisOf_canonical (hconfigs hconfig)
  have hcheckpoints : inventoryReasons (bundleVerifier bundle)
      [(js "entries.json", entriesComponent configs),
        (js "checkpoints.json", checkpointsComponent)]
        checkpointsComponent.toAuditBundleInventoryItem = .ok [] :=
    inventoryReasons_carried rfl (by decide +kernel) (by decide +kernel) (by decide +kernel)
      (itemsCanonical_eq (by simp [otherCheckpoint_canonical]))
  have hitems : ((bundleOf configs).core.inventory.foldl
      (fun items item => assignMember item.path item items) []).mapM
        (fun item => inventoryReasons (bundleVerifier bundle) ((bundleOf configs).components.foldl
          (fun items component => assignMember component.path component items) []) item.2) =
        .ok [[], []] := by
    rw [hcomponents, hinventory, List.mapM_cons, hentries]
    refine bind_eq_ok.mpr ⟨_, rfl, bind_eq_ok.mpr ⟨[[]], ?_, rfl⟩⟩
    rw [List.mapM_cons, hcheckpoints]
    rfl
  have hdigest : policyDigest (bundleVerifier bundle) samplePolicyValue =
      .ok (bundleOf configs).core.verificationPolicyDigest := by
    refine bind_eq_ok.mpr ⟨policy, hpolicy, ?_⟩
    rw [← hpolicyContent]
    rfl
  have hexporter : exporterAuthorization (bundleVerifier bundle).arithmetic
      (bundleOf configs).core bundlePolicy = .authorized := rfl
  refine bind_eq_ok.mpr ⟨_, plainDigest_eq (bundleOf_canonical configs),
    bind_eq_ok.mpr ⟨_, hdigest, bind_eq_ok.mpr ⟨core, hcore,
      bind_eq_ok.mpr ⟨true, rfl, bind_eq_ok.mpr ⟨_, hitems, ?_⟩⟩⟩⟩⟩
  have hmanifest : plainDigest .bundleManifest (bundleOf configs).core.toJson =
      (bundleOf configs).manifestDigest := rfl
  simp only [hcomponents, hinventory, hexporter, hmanifest, ne_eq, not_true_eq_false, decide_false]
  rfl

variable (bundle)

theorem selectionCompleteness_bundleOf (hconfigs : configs ⊆ carriedConfigs)
    (hselected : (configs.map genesisOf).filter (fun entry =>
      entry.core.toAuditLedgerRef = otherSelection.toAuditLedgerRef) = [selectedEntry]) :
    (selectionCompleteness (bundleOf configs).core.selections
      (carriedEntries (bundleVerifier bundle) (bundleOf configs))
        ((bundleOf configs).components.filter fun component =>
          component.disposition ≠ .included)).verdict = .valid := by
  have hselections : (bundleOf configs).core.selections = [otherSelection] := rfl
  have homissions : ((bundleOf configs).components.filter fun component =>
      component.disposition ≠ .included) = [] := rfl
  have hordered : uniqueBySequence [selectedEntry] = [selectedEntry] := by
    simp [uniqueBySequence]
  have hcomplete : isSelectionComplete (configs.map genesisOf) otherSelection = true := by
    have hfirst : otherSelection.firstSequence = selectedEntry.core.sequence := rfl
    have hlast : otherSelection.lastSequence = selectedEntry.core.sequence := rfl
    have hhead : otherSelection.expectedHeadDigest = selectedEntry.entryDigest := rfl
    simp [isSelectionComplete, hselected, hordered, hfirst, hlast, hhead]
  rw [carriedEntries_bundleOf hconfigs, hselections, homissions, selectionCompleteness]
  simp only [List.flatMap_cons, List.flatMap_nil, hcomplete]
  rfl

/-- A bundle whose entries verify is reported valid in all four dimensions. -/
theorem verifyAuditBundle_bundleOf (hconfigs : configs ⊆ carriedConfigs)
    (hselected : (configs.map genesisOf).filter (fun entry =>
      entry.core.toAuditLedgerRef = otherSelection.toAuditLedgerRef) = [selectedEntry])
    {artifacts : AuditVerificationReport SampleDouble}
    (hartifacts : verifyEntryGroups (bundleVerifier (bundleOf configs)).artifactVerifier
      (includedArrays (bundleOf configs) entriesMediaType) samplePolicyValue
        [otherCheckpoint.toJson] = .ok artifacts)
    (hcrypto : artifacts.cryptographicIntegrity.verdict = .valid)
    (hchain : artifacts.chainIntegrity.verdict = .valid) :
    ∃ report, verifyAuditBundle (bundleVerifier (bundleOf configs)) .null samplePolicyValue =
        .ok report ∧
      report.cryptographicIntegrity.verdict = .valid ∧ report.chainIntegrity.verdict = .valid ∧
      report.checkpointIntegrity.verdict = .valid ∧
      report.scopeEvidenceCompleteness.verdict = .valid := by
  obtain ⟨checkpoint, hcheckpoint, hvalid⟩ :=
    checkpointDimension_bundleOf (bundleOf configs) hconfigs artifacts.checkpointIntegrity
  refine ⟨_, bind_eq_ok.mpr ⟨_, manifestReasons_bundleOf hconfigs, bind_eq_ok.mpr ⟨_, hartifacts,
    bind_eq_ok.mpr ⟨_, hcheckpoint, bind_eq_ok.mpr ⟨artifacts.anchorIntegrity, rfl, rfl⟩⟩⟩⟩,
    ?_, hchain, hvalid, selectionCompleteness_bundleOf _ hconfigs hselected⟩
  refine mergeAuditDimensions_eq_valid.mpr ⟨List.cons_ne_nil _ _, ?_⟩
  intro dimension hdimension
  simp only [List.mem_cons, List.not_mem_nil, or_false] at hdimension
  obtain rfl | rfl := hdimension
  · rfl
  · exact hcrypto

end Sample

theorem plainDigests_bundleVerifier (bundle : AuditReplayBundle SampleDouble) :
    PlainDigests (bundleVerifier bundle).schemas where
  entry candidate entry h := by
    simp only [bundleVerifier] at h
    split at h
    · cases Option.some.inj h
      exact (plainDigest_plain _ _).2
    · cases Option.some.inj h
      exact (plainDigest_plain _ _).2
  checkpoint _ checkpoint h := by
    cases Option.some.inj h
    exact (plainDigest_plain _ _).2
  inclusion _ _ h := (Option.some_ne_none _ h.symm).elim
  consistency _ _ h := (Option.some_ne_none _ h.symm).elim

theorem verifyAuditBundle_other :
    ∃ report, verifyAuditBundle (bundleVerifier otherBundle) .null samplePolicyValue = .ok report ∧
      report.cryptographicIntegrity.verdict = .valid ∧ report.chainIntegrity.verdict = .valid ∧
      report.checkpointIntegrity.verdict = .valid ∧
      report.scopeEvidenceCompleteness.verdict = .valid := by
  obtain ⟨artifacts, hartifacts, hcrypto, hchain⟩ := verifyEntryGroups_other otherBundle
  have hconfigs : [selectedConfig] ⊆ carriedConfigs := by simp [carriedConfigs]
  exact verifyAuditBundle_bundleOf hconfigs rfl hartifacts hcrypto hchain

theorem verifyAuditBundle_wider :
    ∃ report, verifyAuditBundle (bundleVerifier widerBundle) .null samplePolicyValue = .ok report ∧
      report.cryptographicIntegrity.verdict = .valid ∧ report.chainIntegrity.verdict = .valid ∧
      report.checkpointIntegrity.verdict = .valid ∧
      report.scopeEvidenceCompleteness.verdict = .valid := by
  obtain ⟨artifacts, hartifacts, hcrypto, hchain⟩ := verifyEntryGroups_wider widerBundle
  exact verifyAuditBundle_bundleOf (List.Subset.refl _) rfl hartifacts hcrypto hchain

/-- The selection lists a tree size; the bundle carries no checkpoint of its epoch. -/
theorem selectionProved_other_ne :
    ¬ SelectionProved (bundleVerifier otherBundle) otherBundle otherSelection := by
  intro hproved
  have hnone : checkpointsOf (bundleVerifier otherBundle) otherBundle
      otherSelection.toAuditLedgerRef = [] := rfl
  have hsizes := hproved.sizes
  rw [hnone] at hsizes
  exact List.cons_ne_nil _ _ hsizes.nil_eq.symm

theorem verifyAuditBundle_selection_unproved :
    ∃ report, verifyAuditBundle (bundleVerifier otherBundle) .null samplePolicyValue = .ok report ∧
      (bundleVerifier otherBundle).schemas.auditReplayBundleSchema .null = some otherBundle ∧
      report.cryptographicIntegrity.verdict = .valid ∧ report.chainIntegrity.verdict = .valid ∧
      report.checkpointIntegrity.verdict = .valid ∧
      report.scopeEvidenceCompleteness.verdict = .valid ∧
      Injective (bundleVerifier otherBundle).artifactVerifier.sha256 ∧
      otherSelection ∈ otherBundle.core.selections ∧
      otherSelection.checkpointTreeSizes = [1] ∧
      checkpointsOf (bundleVerifier otherBundle) otherBundle otherSelection.toAuditLedgerRef = [] ∧
      ¬ SelectionProved (bundleVerifier otherBundle) otherBundle otherSelection := by
  obtain ⟨report, h, hcrypto, hchain, hcheckpoint, hscope⟩ := verifyAuditBundle_other
  exact ⟨report, h, rfl, hcrypto, hchain, hcheckpoint, hscope, plainSha256_injective,
    List.mem_cons_self, rfl, rfl, selectionProved_other_ne⟩

theorem verifyAuditBundle_proves_selections_sample :
    ¬ KeyedByEpoch (bundleVerifier otherBundle) otherBundle := by
  obtain ⟨report, h, hcrypto, hchain, hcheckpoint, hscope⟩ := verifyAuditBundle_other
  have hinjective : Injective (bundleVerifier otherBundle).artifactVerifier.sha256 :=
    plainSha256_injective
  intro hkeyed
  have hproved := (verifyAuditBundle_proves_selections sampleDoubles_prints hinjective
    (plainDigests_bundleVerifier _) rfl h hcrypto hchain hcheckpoint hscope).mpr hkeyed
  exact selectionProved_other_ne (hproved otherSelection List.mem_cons_self)

/-- An entry and a checkpoint of epochs that are not selected, on ledgers that no rule
allows, are carried by a bundle reported valid. -/
theorem verifyAuditBundle_carries_unselected :
    ∃ report, verifyAuditBundle (bundleVerifier widerBundle) .null samplePolicyValue = .ok report ∧
      (bundleVerifier widerBundle).schemas.auditReplayBundleSchema .null = some widerBundle ∧
      report.cryptographicIntegrity.verdict = .valid ∧ report.chainIntegrity.verdict = .valid ∧
      report.scopeEvidenceCompleteness.verdict = .valid ∧
      outsideEntry ∈ carriedEntries (bundleVerifier widerBundle) widerBundle ∧
      otherCheckpoint ∈ carriedCheckpoints (bundleVerifier widerBundle) widerBundle ∧
      (widerBundle.core.selections.all fun selection =>
        selection.toAuditLedgerRef ≠ outsideEntry.core.toAuditLedgerRef &&
          selection.toAuditLedgerRef ≠ otherCheckpoint.core.toAuditLedgerRef) = true ∧
      (bundlePolicy.authorizedExporters.all fun rule =>
        !rule.allowedLedgerIds.contains outsideEntry.core.ledgerId &&
          !rule.allowedLedgerIds.contains otherCheckpoint.core.ledgerId) = true := by
  obtain ⟨report, h, hcrypto, hchain, -, hscope⟩ := verifyAuditBundle_wider
  refine ⟨report, h, rfl, hcrypto, hchain, hscope, ?_, List.mem_singleton_self _, rfl, rfl⟩
  exact List.mem_cons_of_mem _ List.mem_cons_self

theorem verifyAuditBundle_exports_selections_sample :
    ∃ rule, AllowsExport sampleArithmetic bundlePolicy widerBundle.core rule := by
  obtain ⟨report, h, hcrypto, hchain, -, hscope⟩ := verifyAuditBundle_wider
  obtain ⟨policy, hpolicy, -, -, rule, hrule, -⟩ :=
    verifyAuditBundle_exports_selections rfl h hcrypto hchain hscope
  cases Option.some.inj hpolicy
  exact ⟨rule, hrule⟩

end KyaOs.Audit
