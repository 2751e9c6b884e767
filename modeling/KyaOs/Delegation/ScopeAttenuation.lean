import KyaOs.Delegation.ScopeMatcher
import Mathlib.Data.Finset.Card
import Mathlib.Data.Finset.Range
import Mathlib.Algebra.Order.BigOperators.Group.List
import Mathlib.Algebra.Order.Group.Nat

/-!
# Scope attenuation

Every containment rule but one is sound for the runtime matcher: a `prefix`
pattern below a `path-prefix` base also matches values with a dot segment,
which `path-prefix` refuses. The main theorem says exactly which accepted
re-delegations therefore grant no value their parent does not grant.
-/

namespace KyaOs

open Js

variable {regExp : JsString → Option (JsString → Bool)}

/-- `scope` matches `value` at run time. -/
def CrispScope.Grants (regExp : JsString → Option (JsString → Bool)) (scope : CrispScope)
    (value : JsString) : Prop :=
  matchScope regExp scope.resource scope.matcher value = true

theorem grants_exact_iff {scope : CrispScope} {value : JsString} (h : scope.matcher = .exact) :
    scope.Grants regExp value ↔ scope.resource = value := by
  simp [CrispScope.Grants, matchScope, h]

theorem grants_prefix_iff {scope : CrispScope} {value : JsString}
    (h : scope.matcher = .plainPrefix) :
    scope.Grants regExp value ↔
      prefixBase scope.resource ≠ [] ∧ prefixBase scope.resource <+: value := by
  simp [CrispScope.Grants, matchScope, h]

theorem grants_pathPrefix_iff {scope : CrispScope} {value : JsString}
    (h : scope.matcher = .pathPrefix) :
    scope.Grants regExp value ↔ pathBase scope.resource ≠ [] ∧
      hasDotSegment (pathBase scope.resource) = false ∧ hasDotSegment value = false ∧
      (value = pathBase scope.resource ∨ pathBase scope.resource ++ [slash] <+: value) := by
  simp [CrispScope.Grants, matchScope, h, and_assoc]

/-- A regular expression is only tried on values of at most `maxValueLen` units. -/
theorem length_le_of_grants_regex {scope : CrispScope} {value : JsString}
    (h : scope.matcher = .regex) (hg : scope.Grants regExp value) :
    value.length ≤ maxValueLen := by
  by_contra hlong
  simp [CrispScope.Grants, matchScope, h, Nat.lt_of_not_le hlong] at hg

/-- Climbing out of any path leaves a dot segment in the text. -/
theorem hasDotSegment_append_climb (path : JsString) :
    hasDotSegment (path ++ js "/..") = true := by
  have hsplit : (path ++ js "/..").splitOnP (fun u => u == slash || u == backslash) =
      path.splitOnP (fun u => u == slash || u == backslash) ++ [js ".."] :=
    List.splitOnP_append_cons path (js "..") (by decide)
  simp [hasDotSegment, hsplit]

/-- The key of an entry determines it: no matcher kind contains the separator. -/
theorem scopeKey_injective : Function.Injective scopeKey := by
  rintro ⟨resource, matcher⟩ ⟨resource', matcher'⟩ h
  cases matcher <;> cases matcher' <;>
    simp_all [scopeKey, ScopeMatcher.text, js, units]

/-- A credential satisfies exactly the values some entry of its authority grants. -/
theorem scopeSatisfies_iff {value : JsString} {credential : DelegationCredential} :
    (scopeSatisfies regExp value credential).satisfied = true ↔
      ∃ scope ∈ scopeAuthority credential, scope.Grants regExp value := by
  unfold scopeSatisfies scopeAuthority
  constructor
  · intro h
    split at h
    · rename_i hflat
      refine ⟨⟨value, .exact⟩, ?_, (grants_exact_iff rfl).mpr rfl⟩
      exact List.mem_append_left _ (List.mem_map_of_mem (by simpa using hflat))
    · split at h
      · rename_i cs hfind
        have hmatch := List.find?_some hfind
        exact ⟨cs, List.mem_append_right _ (List.mem_of_find?_eq_some hfind), hmatch⟩
      · cases h
  · rintro ⟨scope, hmem, hgrants⟩
    rcases List.mem_append.mp hmem with hflat | hcrisp
    · obtain ⟨resource, hresource, rfl⟩ := List.mem_map.mp hflat
      obtain rfl := (grants_exact_iff rfl).mp hgrants
      simp [hresource]
    · split
      · rfl
      · split
        · rfl
        · rename_i hnone
          have hmiss := List.find?_eq_none.mp hnone scope hcrisp
          exact absurd hgrants hmiss

/-- What an answer `true` of `matcherContains` rests on. -/
theorem matcherContains_cases {outer inner : CrispScope}
    (h : matcherContains regExp outer inner = true) :
    outer = inner ∨
    (inner.matcher = .exact ∧ outer.Grants regExp inner.resource) ∨
    ∃ rule, containment inner.matcher outer.matcher = some rule ∧
      baseOf inner ≠ [] ∧ baseOf outer ≠ [] ∧ rule (baseOf inner) (baseOf outer) = true ∧
      (outer.matcher = .pathPrefix → hasDotSegment (baseOf outer) = false) := by
  unfold matcherContains at h
  split at h
  · rename_i hsame
    obtain ⟨resource, matcher⟩ := outer
    exact .inl (by simp_all)
  · split at h
    · rename_i hexact
      exact .inr (.inl ⟨hexact, h⟩)
    · split at h
      · cases h
      · rename_i hdots
        split at h
        · rename_i rule hrule
          refine .inr (.inr ⟨rule, hrule, ?_⟩)
          simp only [Bool.and_eq_true, decide_eq_true_eq, List.length_pos_iff] at h
          exact ⟨h.1.1, h.1.2, h.2, by
            intro hpath
            simp [hpath] at hdots
            exact hdots.2⟩
        · cases h

/-- Every containment rule is sound at every value, except that a `prefix`
inside a `path-prefix` is sound only at values without a dot segment. -/
theorem grants_of_matcherContains {outer inner : CrispScope} {value : JsString}
    (h : matcherContains regExp outer inner = true) (hg : inner.Grants regExp value)
    (hdot : inner.matcher = .plainPrefix → outer.matcher = .pathPrefix →
      hasDotSegment value = false) : outer.Grants regExp value := by
  rcases matcherContains_cases h with rfl | ⟨hexact, houter⟩ |
    ⟨rule, hrule, -, houter, happ, hclean⟩
  · exact hg
  · rwa [← (grants_exact_iff hexact).mp hg]
  · cases hi : inner.matcher <;> cases ho : outer.matcher <;>
      simp only [containment, hi, ho, Option.some.injEq, reduceCtorEq] at hrule <;>
      subst hrule <;> simp only [baseOf, hi, ho, reduceIte, reduceCtorEq] at houter happ hclean
    case plainPrefix.plainPrefix =>
      rw [grants_prefix_iff hi] at hg
      exact (grants_prefix_iff ho).mpr ⟨houter, (startsWith_iff.mp happ).trans hg.2⟩
    case plainPrefix.pathPrefix =>
      rw [grants_prefix_iff hi] at hg
      exact (grants_pathPrefix_iff ho).mpr ⟨houter, hclean trivial, hdot hi ho,
        .inr ((startsWith_iff.mp happ).trans hg.2)⟩
    case pathPrefix.plainPrefix =>
      obtain ⟨-, -, -, hvalue⟩ := (grants_pathPrefix_iff hi).mp hg
      refine (grants_prefix_iff ho).mpr ⟨houter, (startsWith_iff.mp happ).trans ?_⟩
      rcases hvalue with rfl | hunder
      · exact List.prefix_rfl
      · exact (List.prefix_append _ _).trans hunder
    case pathPrefix.pathPrefix =>
      obtain ⟨-, -, hvalueDot, hvalue⟩ := (grants_pathPrefix_iff hi).mp hg
      refine (grants_pathPrefix_iff ho).mpr ⟨houter, hclean trivial, hvalueDot, ?_⟩
      simp only [Bool.or_eq_true, beq_iff_eq, startsWith_iff] at happ
      rcases happ with hsame | hbelow
      · rwa [← hsame]
      · right
        rcases hvalue with rfl | hunder
        · exact hbelow
        · exact hbelow.trans ((List.prefix_append _ _).trans hunder)

theorem exists_matcherContains_of_authorityContains {authority : List CrispScope}
    {scope : CrispScope} (h : authorityContains regExp authority scope = true) :
    ∃ outer ∈ authority, matcherContains regExp outer scope = true := by
  rcases Bool.or_eq_true _ _ ▸ h with hkey | hrule
  · obtain ⟨outer, hmem, hsame⟩ := List.mem_map.mp (List.contains_iff_mem.mp hkey)
    obtain rfl := scopeKey_injective hsame
    exact ⟨outer, hmem, by simp [matcherContains]⟩
  · obtain ⟨outer, hmem, hcontains⟩ := List.any_eq_true.mp hrule
    exact ⟨outer, List.mem_of_mem_filter hmem, hcontains⟩

/-- Acceptance under a restricted parent proves every entry of the child inside
the parent's authority. -/
theorem authorityContains_of_validate {parent child : DelegationCredential}
    {result : ScopeValidation} (h : validateScopeAttenuation regExp parent child = .ok result)
    (hvalid : result.valid = true) (hparent : scopeAuthority parent ≠ []) :
    ∀ scope ∈ scopeAuthority child,
      authorityContains regExp (scopeAuthority parent) scope = true := by
  cases hp : parent.delegation with
  | none => simp [validateScopeAttenuation, DelegationCredential.delegation!, hp,
      readOfUndefined, bind, Except.bind] at h
  | some p =>
      cases hc : child.delegation with
      | none => simp [validateScopeAttenuation, DelegationCredential.delegation!, hp, hc,
          readOfUndefined, bind, Except.bind] at h
      | some c =>
          simp only [validateScopeAttenuation, DelegationCredential.delegation!, hp, hc,
            getDelegationScopes, bind, Except.bind, pure, Except.pure] at h
          rw [if_neg (by simpa using hparent)] at h
          split at h
          · cases h
            cases hvalid
          · split at h
            · cases h
              cases hvalid
            · rename_i hmatchers
              split at h
              · cases h
                cases hvalid
              · rename_i hscopes
                intro scope hmem
                rcases List.mem_append.mp hmem with hflat | hcrisp
                · obtain ⟨resource, hresource, rfl⟩ := List.mem_map.mp hflat
                  have hscope : resource ∈ (c.scopes.getD [] ++
                      (c.constraints.bind (·.scopes)).getD []).eraseDups := by
                    simpa [flatScopes, hc] using hresource
                  by_contra hout
                  exact hscopes (List.length_pos_of_mem
                    (List.mem_filter.mpr ⟨hscope, by simpa using hout⟩))
                · by_contra hout
                  exact hmatchers (List.length_pos_of_mem
                    (List.mem_filter.mpr ⟨hcrisp, by simpa using hout⟩))

theorem mem_crispScopes_of_not_exact {credential : DelegationCredential} {scope : CrispScope}
    (h : scope ∈ scopeAuthority credential) (hkind : scope.matcher ≠ .exact) :
    scope ∈ crispScopes credential := by
  rcases List.mem_append.mp h with hflat | hcrisp
  · obtain ⟨resource, -, rfl⟩ := List.mem_map.mp hflat
    exact absurd rfl hkind
  · exact hcrisp

/-- Fewer lists than code units leave some unit that continues none of them
after `n` units. -/
theorem exists_unit_not_continuing (n : Nat) (bases : List JsString)
    (hfew : bases.length < 2 ^ 16) : ∃ u : UInt16, ∀ base ∈ bases, base[n]? ≠ some u := by
  have hcard : ((bases.filterMap (fun base => base[n]?)).map UInt16.toNat).toFinset.card <
      (Finset.range (2 ^ 16)).card := by
    rw [Finset.card_range]
    calc _ ≤ ((bases.filterMap (fun base => base[n]?)).map UInt16.toNat).length :=
          List.toFinset_card_le _
      _ ≤ bases.length := by
          rw [List.length_map]
          exact List.length_filterMap_le _ _
      _ < 2 ^ 16 := hfew
  obtain ⟨k, hk, hfresh⟩ := Finset.exists_mem_notMem_of_card_lt_card hcard
  refine ⟨UInt16.ofNat k, fun base hbase hcontinues => hfresh ?_⟩
  rw [List.mem_toFinset, List.mem_map]
  refine ⟨UInt16.ofNat k, List.mem_filterMap.mpr ⟨base, hbase, hcontinues⟩, ?_⟩
  simpa using Finset.mem_range.mp hk

/-- A parent with fewer matchers than there are code units misses a value with a dot segment below
a `prefix` that none of its own begins. -/
theorem exists_dotted_not_granted {parent : DelegationCredential} {inner : CrispScope}
    (regExp : JsString → Option (JsString → Bool)) (hfew : (crispScopes parent).length < 2 ^ 16)
    (hnone : ∀ outer ∈ crispScopes parent, outer.matcher = .plainPrefix →
      prefixBase outer.resource ≠ [] →
      ¬ prefixBase outer.resource <+: prefixBase inner.resource) :
    ∃ value, prefixBase inner.resource <+: value ∧
      ∀ outer ∈ scopeAuthority parent, ¬ outer.Grants regExp value := by
  let base := prefixBase inner.resource
  obtain ⟨u, hu⟩ := exists_unit_not_continuing base.length
    ((crispScopes parent).map (fun scope => prefixBase scope.resource)) (by simpa using hfew)
  -- longer than any exact scope of the parent and than any value a regex is tried on
  let padding := maxValueLen + ((scopeAuthority parent).map (·.resource.length)).sum
  let value := base ++ u :: List.replicate padding slash ++ js "/.."
  have hlong : padding < value.length := by simp [value]; omega
  have hreach : base <+: value := ⟨_, by simp only [value, List.append_assoc]; rfl⟩
  refine ⟨value, hreach, fun outer houter hgrants => ?_⟩
  cases hm : outer.matcher with
  | pathPrefix =>
      have hclean := ((grants_pathPrefix_iff hm).mp hgrants).2.2.1
      rw [hasDotSegment_append_climb] at hclean
      cases hclean
  | regex =>
      have := length_le_of_grants_regex hm hgrants
      omega
  | exact =>
      have hle : outer.resource.length ≤
          ((scopeAuthority parent).map (·.resource.length)).sum :=
        List.single_le_sum (by simp) _ (List.mem_map_of_mem houter)
      rw [(grants_exact_iff hm).mp hgrants] at hle
      omega
  | plainPrefix =>
      have hcrisp := mem_crispScopes_of_not_exact houter (by simp [hm])
      obtain ⟨hne, hbegins⟩ := (grants_prefix_iff hm).mp hgrants
      rcases List.prefix_or_prefix_of_prefix hbegins hreach with hshort | hbeyond
      · exact hnone outer hcrisp hm hne hshort
      · have hsame : prefixBase outer.resource ≠ base := by
          intro hsame
          exact hnone outer hcrisp hm hne (hsame ▸ List.prefix_rfl)
        have hlt : base.length < (prefixBase outer.resource).length := by
          by_contra hge
          exact hsame (hbeyond.eq_of_length_le (Nat.le_of_not_lt hge)).symm
        refine hu _ (List.mem_map_of_mem hcrisp) ?_
        rw [List.getElem?_eq_getElem hlt, hbegins.getElem hlt]
        simp [value]

/-- Each non-empty `prefix` entry of the child is begun by one of the parent. -/
def PrefixesCovered (parent child : DelegationCredential) : Prop :=
  ∀ inner ∈ crispScopes child, inner.matcher = .plainPrefix → prefixBase inner.resource ≠ [] →
    ∃ outer ∈ crispScopes parent, outer.matcher = .plainPrefix ∧
      prefixBase outer.resource ≠ [] ∧ prefixBase outer.resource <+: prefixBase inner.resource

/-- Every value that the child grants its parent grants. -/
def GrantsWithin (regExp : JsString → Option (JsString → Bool))
    (parent child : DelegationCredential) : Prop :=
  ∀ value, (scopeSatisfies regExp value child).satisfied = true →
    (scopeSatisfies regExp value parent).satisfied = true

/-- Only a `prefix` entry under a `path-prefix` one could grant more, at a dot segment. -/
theorem PrefixesCovered.grantsWithin {parent child : DelegationCredential}
    (hcovered : PrefixesCovered parent child)
    (hcontained : ∀ scope ∈ scopeAuthority child,
      authorityContains regExp (scopeAuthority parent) scope = true) :
    GrantsWithin regExp parent child := by
  simp only [GrantsWithin, scopeSatisfies_iff]
  rintro value ⟨inner, hmem, hgrants⟩
  obtain ⟨outer, houter, hcontains⟩ :=
    exists_matcherContains_of_authorityContains (hcontained inner hmem)
  by_cases hplain : inner.matcher = .plainPrefix
  · obtain ⟨hbase, hreach⟩ := (grants_prefix_iff hplain).mp hgrants
    have hcrisp := mem_crispScopes_of_not_exact hmem (by simp [hplain])
    obtain ⟨wider, hwider, hkind, hne, hbegins⟩ := hcovered inner hcrisp hplain hbase
    exact ⟨wider, List.mem_append_right _ hwider,
      (grants_prefix_iff hkind).mpr ⟨hne, hbegins.trans hreach⟩⟩
  · exact ⟨outer, houter, grants_of_matcherContains hcontains hgrants
      fun hplain' => absurd hplain' hplain⟩

theorem GrantsWithin.prefixesCovered {parent child : DelegationCredential}
    (h : GrantsWithin regExp parent child) (hfew : (crispScopes parent).length < 2 ^ 16) :
    PrefixesCovered parent child := by
  simp only [GrantsWithin, scopeSatisfies_iff] at h
  intro inner hmem hplain hbase
  by_contra hnone
  obtain ⟨value, hreach, hmissed⟩ := @exists_dotted_not_granted parent inner regExp hfew
    fun outer houter hkind hne hbegins => hnone ⟨outer, houter, hkind, hne, hbegins⟩
  obtain ⟨outer, houter, hgranted⟩ := h value ⟨inner, List.mem_append_right _ hmem,
    (grants_prefix_iff hplain).mpr ⟨hbase, hreach⟩⟩
  exact hmissed outer houter hgranted

/-- An accepted re-delegation under a restricted parent grants only values its parent grants when
its `prefix` entries are covered, and, of a parent with fewer matchers than there are code units,
only then. -/
theorem scopeAttenuation_sound_iff (regExp : JsString → Option (JsString → Bool))
    (parent child : DelegationCredential) (result : ScopeValidation)
    (h : validateScopeAttenuation regExp parent child = .ok result)
    (hvalid : result.valid = true) (hparent : scopeAuthority parent ≠ []) :
    (PrefixesCovered parent child → GrantsWithin regExp parent child) ∧
      ((crispScopes parent).length < 2 ^ 16 →
        (GrantsWithin regExp parent child ↔ PrefixesCovered parent child)) := by
  have hcontained := authorityContains_of_validate h hvalid hparent
  refine ⟨fun hcovered => hcovered.grantsWithin hcontained, fun hfew => ?_⟩
  exact ⟨fun hwithin => hwithin.prefixesCovered hfew,
    fun hcovered => hcovered.grantsWithin hcontained⟩

/-- A parent that grants the path `notes` and everything below it. -/
def notesParent : DelegationCredential where
  issuer := .did (js "did:ex:root")
  delegation := some
    { id := js "p", issuerDid := js "did:ex:root", subjectDid := js "did:ex:mid"
      constraints := some { crispScopes := some [⟨js "notes", .pathPrefix⟩] } }

/-- A child that re-delegates the prefix `notes/`. -/
def notesChild : DelegationCredential where
  issuer := .did (js "did:ex:mid")
  delegation := some
    { id := js "c", issuerDid := js "did:ex:mid", subjectDid := js "did:ex:leaf"
      parentId := some (js "p")
      constraints := some { crispScopes := some [⟨js "notes/", .plainPrefix⟩] } }

/-- The accepted child satisfies a path that leaves `notes`, its parent does not. -/
theorem notesChild_escapes :
    validateScopeAttenuation (fun _ => none) notesParent notesChild = .ok { valid := true } ∧
    scopeAuthority notesParent ≠ [] ∧
    (scopeSatisfies (fun _ => none) (js "notes/../secrets/x.md") notesChild).satisfied = true ∧
    (scopeSatisfies (fun _ => none) (js "notes/../secrets/x.md") notesParent).satisfied =
      false := by
  decide

/-- The pair above, and one whose parent has the prefix too. -/
theorem scopeAttenuation_sound_iff_notes :
    (GrantsWithin (fun _ => none) notesParent notesChild ↔
      PrefixesCovered notesParent notesChild) ∧
    GrantsWithin (fun _ => none) notesChild notesChild := by
  have hchild : PrefixesCovered notesChild notesChild := by
    intro inner hmem hplain hbase
    exact ⟨inner, hmem, hplain, hbase, List.prefix_rfl⟩
  exact ⟨(scopeAttenuation_sound_iff (fun _ => none) notesParent notesChild { valid := true }
      (by decide) rfl (by decide)).2 (by decide),
    (scopeAttenuation_sound_iff (fun _ => none) notesChild notesChild { valid := true }
      (by decide) rfl (by decide)).1 hchild⟩

end KyaOs
