import KyaOs.Card.Delegation
import Mathlib.Algebra.Order.Field.Basic
import Mathlib.Data.List.Chain
import Mathlib.Tactic.FieldSimp
import Mathlib.Tactic.Ring

/-!
# Delegated authority narrows along a card chain

Each accepted hop is at least as narrow as the one before it in a transitive
sense, so every hop of an accepted chain is at least as narrow as each of its
ancestors. What the code cannot see is a number beyond the largest double: JSON
text writes it as `null`, so a caveat of an unknown type may change there.
-/

namespace KyaOs.Card

open Js

/-- The number a decimal denotes. -/
def DecimalParts.value (parts : DecimalParts) : ℚ :=
  digitsValue (parts.whole ++ parts.fraction) / 10 ^ parts.fraction.length

theorem digitsValue_append_zeros (digits : JsString) (k : Nat) :
    digitsValue (digits ++ List.replicate k 0x30) = digitsValue digits * 10 ^ k := by
  induction k with
  | zero => simp
  | succ k ih =>
      rw [List.replicate_succ', ← List.append_assoc, digitsValue, List.foldl_append, ← digitsValue,
        ih]
      simp only [List.foldl_cons, List.foldl_nil, digitValue, UInt16.reduceToNat, Nat.sub_self]
      ring

/-- The scaled integer is the decimal at the common scale. -/
theorem scaled_eq (parts : DecimalParts) {scale : Nat} (h : parts.fraction.length ≤ scale) :
    (digitsValue (parts.whole ++ padEnd parts.fraction scale) : ℚ) = parts.value * 10 ^ scale := by
  have hpow : (10 : ℚ) ^ scale =
      10 ^ parts.fraction.length * 10 ^ (scale - parts.fraction.length) := by
    rw [← pow_add, Nat.add_sub_cancel' h]
  rw [padEnd, ← List.append_assoc, digitsValue_append_zeros, DecimalParts.value, hpow]
  push_cast
  field_simp

theorem decimalLte_iff {child parent : JsString} : decimalLte child parent = true ↔
    ∃ c ∈ decimalParts child, ∃ p ∈ decimalParts parent, c.value ≤ p.value := by
  unfold decimalLte
  split
  · rename_i c p hc hp
    have hcompare : digitsValue (c.whole ++
      padEnd c.fraction (max c.fraction.length p.fraction.length)) ≤
        digitsValue (p.whole ++ padEnd p.fraction (max c.fraction.length p.fraction.length)) ↔
        c.value ≤ p.value := by
      rw [← Nat.cast_le (α := ℚ), scaled_eq c (Nat.le_max_left _ _),
        scaled_eq p (Nat.le_max_right _ _), mul_le_mul_iff_left₀ (by positivity)]
    simp [hc, hp, hcompare]
  · rename_i hnone
    constructor
    · intro h
      cases h
    · rintro ⟨c, hc, p, hp, -⟩
      exact absurd hp (hnone c p hc)

/-- A use of the delegated authority. -/
structure Invocation where
  amount : ℚ
  currency : JsString
  time : Int

/-- Whether a caveat's type is one the profile interprets. -/
def Caveat.Interpreted (caveat : Caveat) : Prop :=
  caveat.type = js "ValidUntil" ∨ caveat.type = js "MaxAmount"

/-- A caveat of an interpreted type allows the invocation. -/
def Caveat.Allows (dateParse : JsString → Option Int) (caveat : Caveat) (inv : Invocation) : Prop :=
  (caveat.type = js "ValidUntil" → ∃ date ∈ caveat.date, ∃ t ∈ dateParse date, inv.time ≤ t) ∧
  (caveat.type = js "MaxAmount" →
    (∃ limit ∈ caveat.limit, ∃ parts ∈ decimalParts limit, inv.amount ≤ parts.value) ∧
    ∀ currency ∈ caveat.currency, inv.currency = currency)

/-- The expiry of `ancestor`, if it has one, bounds that of `vc`. -/
def ExpiryBounded (dateParse : JsString → Option Int) (ancestor vc : DelegationCredential) : Prop :=
  ∀ bound ∈ ancestor.validUntil, ∃ validUntil ∈ vc.validUntil,
    ∃ t ∈ dateParse validUntil, ∃ limit ∈ dateParse bound, t ≤ limit

/-- The clock is inside a hop's validity window. -/
def InsideWindow (dateParse : JsString → Option Int) (now : ℚ) (vc : DelegationCredential) : Prop :=
  (∀ validUntil ∈ vc.validUntil, ∃ t ∈ dateParse validUntil, now ≤ t) ∧
  ∀ validFrom ∈ vc.validFrom, ∃ t ∈ dateParse validFrom, (t : ℚ) ≤ now

/-- What end-to-end narrowing means for a chain ending in `leaf`. -/
structure ChainNarrows (dateParse : JsString → Option Int) (now : ℚ)
    (chain : List DelegationCredential) (leaf : DelegationCredential) : Prop where
  hops : chain.Pairwise fun ancestor vc =>
    vc.credentialSubject.allowedAction ⊆ ancestor.credentialSubject.allowedAction ∧
    vc.credentialSubject.invocationTarget = ancestor.credentialSubject.invocationTarget ∧
    ExpiryBounded dateParse ancestor vc
  continuity : chain.IsChain fun parent child =>
    invokerDid parent = some (issuerDid child) ∧
    child.credentialSubject.parentCapability = parent.credentialSubject.id
  window : ∀ vc ∈ chain, InsideWindow dateParse now vc
  invocations : ∀ inv : Invocation, (∀ caveat ∈ leaf.caveats, caveat.Allows dateParse inv) →
    ∀ vc ∈ chain, ∀ caveat ∈ vc.caveats, caveat.Allows dateParse inv
  replicated : ∀ vc ∈ chain, ∀ caveat ∈ vc.caveats, ¬ caveat.Interpreted →
    ∃ kept ∈ leaf.caveats, Json.Same caveat.toJson kept.toJson

/-- Where `deepEqual` finds an uninterpreted caveat in the leaf, it finds one that
holds its overflowed numbers at the same places. -/
def OverflowsKept (chain : List DelegationCredential) (leaf : DelegationCredential) : Prop :=
  ∀ vc ∈ chain, ∀ caveat ∈ vc.caveats, ¬ caveat.Interpreted →
    (∃ kept ∈ leaf.caveats, deepEqual caveat.toJson kept.toJson = true) →
    ∃ kept ∈ leaf.caveats, deepEqual caveat.toJson kept.toJson = true ∧
      ∀ path, caveat.toJson.overflowAt path = kept.toJson.overflowAt path

theorem reasonIf_eq_nil {p : Prop} [Decidable p] {reason : JsString} :
    reasonIf p reason = [] ↔ ¬ p := by
  by_cases h : p <;> simp [reasonIf, h]

variable {dateParse : JsString → Option Int} {numberText : JsNumber → JsString}

theorem dateLte_iff {child parent : JsString} : dateLte dateParse child parent = true ↔
    ∃ t ∈ dateParse child, ∃ limit ∈ dateParse parent, t ≤ limit := by
  unfold dateLte
  split
  · rename_i c p hc hp
    simp [hc, hp]
  · rename_i hnone
    constructor
    · intro h
      cases h
    · rintro ⟨c, hc, p, hp, -⟩
      exact absurd hp (hnone c p hc)

variable (dateParse) in
/-- `child` is at least as narrow a caveat as `parent`. -/
structure Covers (parent child : Caveat) : Prop where
  type : parent.type = child.type
  date : parent.type = js "ValidUntil" → ∃ parentDate ∈ parent.date, ∃ childDate ∈ child.date,
    ∃ t ∈ dateParse childDate, ∃ limit ∈ dateParse parentDate, t ≤ limit
  amount : parent.type = js "MaxAmount" →
    (parent.currency = none ∨ parent.currency = child.currency) ∧
    ∃ parentLimit ∈ parent.limit, ∃ childLimit ∈ child.limit,
      ∃ c ∈ decimalParts childLimit, ∃ p ∈ decimalParts parentLimit, c.value ≤ p.value
  other : ¬ parent.Interpreted → deepEqual parent.toJson child.toJson = true

theorem covers_of_caveatNarrows {parent child : Caveat}
    (h : caveatNarrows dateParse parent child = true) : Covers dateParse parent child := by
  have hkinds : js "ValidUntil" ≠ js "MaxAmount" := by decide
  unfold caveatNarrows at h
  split at h
  · cases h
  rename_i htype
  refine ⟨not_not.mp htype, fun hdate => ?_, fun hamount => ?_, fun hother => ?_⟩
  · rw [if_pos hdate] at h
    split at h
    · rename_i parentDate childDate hparent hchild
      exact ⟨parentDate, hparent, childDate, hchild, dateLte_iff.mp h⟩
    · cases h
  · rw [if_neg (hamount ▸ hkinds.symm), if_pos hamount] at h
    split at h
    · rename_i parentLimit childLimit hparent hchild
      obtain ⟨hcurrency, hlimit⟩ := Bool.and_eq_true_iff.mp h
      exact ⟨by simpa using hcurrency, parentLimit, hparent, childLimit, hchild,
        decimalLte_iff.mp hlimit⟩
    · cases h
  · obtain ⟨hdate, hamount⟩ := not_or.mp hother
    rwa [if_neg hdate, if_neg hamount] at h

theorem Covers.trans {a b c : Caveat} (hab : Covers dateParse a b) (hbc : Covers dateParse b c) :
    Covers dateParse a c where
  type := hab.type.trans hbc.type
  date h := by
    obtain ⟨da, hda, db, hdb, tb, htb, ta, hta, hle⟩ := hab.date h
    obtain ⟨db', hdb', dc, hdc, tc, htc, tb', htb', hle'⟩ := hbc.date (hab.type ▸ h)
    obtain rfl := Option.mem_unique hdb hdb'
    obtain rfl := Option.mem_unique htb htb'
    exact ⟨da, hda, dc, hdc, tc, htc, ta, hta, hle'.trans hle⟩
  amount h := by
    obtain ⟨hcurrency, la, hla, lb, hlb, pb, hpb, pa, hpa, hle⟩ := hab.amount h
    obtain ⟨hcurrency', lb', hlb', lc, hlc, pc, hpc, pb', hpb', hle'⟩ := hbc.amount (hab.type ▸ h)
    obtain rfl := Option.mem_unique hlb hlb'
    obtain rfl := Option.mem_unique hpb hpb'
    refine ⟨?_, la, hla, lc, hlc, pc, hpc, pa, hpa, hle'.trans hle⟩
    grind
  other h := by
    have hab' := hab.other h
    have hbc' := hbc.other (by simpa [Caveat.Interpreted, hab.type] using h)
    simp only [deepEqual, decide_eq_true_eq] at *
    exact hab'.trans hbc'

/-- A covered caveat allows what the covering one allows. -/
theorem Covers.allows {parent child : Caveat} (h : Covers dateParse parent child)
    {inv : Invocation} (hallows : child.Allows dateParse inv) : parent.Allows dateParse inv := by
  constructor
  · intro hdate
    obtain ⟨parentDate, hparentDate, childDate, hchildDate, t, ht, limit, hlimit, hle⟩ :=
      h.date hdate
    obtain ⟨date, hdate', t', ht', hinv⟩ := hallows.1 (h.type ▸ hdate)
    obtain rfl := Option.mem_unique hchildDate hdate'
    obtain rfl := Option.mem_unique ht ht'
    exact ⟨parentDate, hparentDate, limit, hlimit, hinv.trans hle⟩
  · intro hamount
    obtain ⟨hcurrency, parentLimit, hparentLimit, childLimit, hchildLimit, c, hc, p, hp, hle⟩ :=
      h.amount hamount
    obtain ⟨⟨limit, hlimit, parts, hparts, hinv⟩, hpinned⟩ := hallows.2 (h.type ▸ hamount)
    obtain rfl := Option.mem_unique hchildLimit hlimit
    obtain rfl := Option.mem_unique hc hparts
    refine ⟨⟨parentLimit, hparentLimit, p, hp, hinv.trans hle⟩, fun currency hmem => ?_⟩
    rcases hcurrency with hnone | hsame
    · rw [hnone] at hmem
      cases hmem
    · exact hpinned currency (hsame ▸ hmem)

variable (dateParse) in
/-- What a hop keeps of the authority it received, in a form that composes. -/
structure Narrower (ancestor vc : DelegationCredential) : Prop where
  actions : vc.credentialSubject.allowedAction ⊆ ancestor.credentialSubject.allowedAction
  target : vc.credentialSubject.invocationTarget = ancestor.credentialSubject.invocationTarget
  expiry : ExpiryBounded dateParse ancestor vc
  caveats : ∀ caveat ∈ ancestor.caveats, ∃ kept ∈ vc.caveats, Covers dateParse caveat kept

theorem Narrower.trans {a b c : DelegationCredential} (hab : Narrower dateParse a b)
    (hbc : Narrower dateParse b c) : Narrower dateParse a c where
  actions := fun _ hmem => hab.actions (hbc.actions hmem)
  target := hbc.target.trans hab.target
  expiry bound hbound := by
    obtain ⟨ub, hub, tb, htb, ta, hta, hle⟩ := hab.expiry bound hbound
    obtain ⟨uc, huc, tc, htc, tb', htb', hle'⟩ := hbc.expiry ub hub
    obtain rfl := Option.mem_unique htb htb'
    exact ⟨uc, huc, tc, htc, ta, hta, hle'.trans hle⟩
  caveats caveat hmem := by
    obtain ⟨kept, hkept, hcovers⟩ := hab.caveats caveat hmem
    obtain ⟨kept', hkept', hcovers'⟩ := hbc.caveats kept hkept
    exact ⟨kept', hkept', hcovers.trans hcovers'⟩

theorem actionReasons_eq_nil {parent child : List JsString} :
    actionReasons parent child = [] ↔ child ⊆ parent := by
  simp only [actionReasons]
  split
  · rename_i hnone
    have hall : ∀ action ∈ child, action ∈ parent := by
      simpa [List.length_eq_zero_iff, List.filter_eq_nil_iff] using hnone
    exact ⟨fun _ action hmem => hall action hmem, fun _ => rfl⟩
  · rename_i hsome
    refine ⟨fun h => (by cases h), fun hsub => absurd ?_ hsome⟩
    simpa [List.length_eq_zero_iff, List.filter_eq_nil_iff] using fun action hmem => hsub hmem

theorem caveatReasons_eq_nil {parent child : List Caveat} :
    caveatReasons dateParse parent child = [] ↔
      ∀ caveat ∈ parent, ∃ kept ∈ child, caveatNarrows dateParse caveat kept = true := by
  simp [caveatReasons, List.filter_eq_nil_iff]

/-- A hop without reasons narrows, and is delegated by the one before. -/
theorem narrower_of_attenuates {parent child : DelegationCredential}
    (h : attenuates dateParse parent child = []) :
    Narrower dateParse parent child ∧ invokerDid parent = some (issuerDid child) ∧
      child.credentialSubject.parentCapability = parent.credentialSubject.id := by
  simp only [attenuates, List.append_eq_nil_iff, reasonIf_eq_nil, actionReasons_eq_nil,
    caveatReasons_eq_nil, not_not] at h
  obtain ⟨⟨⟨⟨⟨hactions, hcaveats⟩, hexpiry⟩, hdelegate⟩, hparent⟩, htarget⟩ := h
  refine ⟨⟨hactions, htarget, fun bound hbound => ?_, fun caveat hmem => ?_⟩, hdelegate, hparent⟩
  · push Not at hexpiry
    obtain ⟨validUntil, hvalidUntil, hlte⟩ := hexpiry bound hbound
    exact ⟨validUntil, hvalidUntil, dateLte_iff.mp (by simpa using hlte)⟩
  · obtain ⟨kept, hkept, hnarrows⟩ := hcaveats caveat hmem
    exact ⟨kept, hkept, covers_of_caveatNarrows hnarrows⟩

theorem insideWindow_of_hopExpiryReasons {now : ℚ} {vc : DelegationCredential} {i : Nat}
    (h : hopExpiryReasons dateParse now vc i = []) : InsideWindow dateParse now vc := by
  simp only [hopExpiryReasons, List.append_eq_nil_iff] at h
  obtain ⟨⟨huntil, hfrom⟩, -⟩ := h
  constructor
  · intro validUntil hmem
    rw [Option.mem_def.mp hmem] at huntil
    cases ht : dateParse validUntil with
    | none => simp [ht] at huntil
    | some t => exact ⟨t, rfl, by simpa [ht, reasonIf_eq_nil] using huntil⟩
  · intro validFrom hmem
    rw [Option.mem_def.mp hmem] at hfrom
    cases ht : dateParse validFrom with
    | none => simp [ht] at hfrom
    | some t => exact ⟨t, rfl, by simpa [ht, reasonIf_eq_nil] using hfrom⟩

theorem isChain_of_hopReasons {chain : List DelegationCredential}
    (h : hopReasons dateParse chain = []) :
    chain.IsChain fun parent child => attenuates dateParse parent child = [] := by
  induction chain with
  | nil => exact List.isChain_nil
  | cons parent rest ih =>
      match rest with
      | [] => exact List.isChain_singleton _
      | child :: rest =>
          obtain ⟨hhop, hrest⟩ := List.append_eq_nil_iff.mp h
          exact List.isChain_cons_cons.mpr ⟨hhop, ih hrest⟩

/-- The leaf is at least as narrow as every hop before it. -/
theorem narrower_leaf {before : List DelegationCredential} {leaf : DelegationCredential}
    (h : (before ++ [leaf]).Pairwise (Narrower dateParse)) {vc : DelegationCredential}
    (hmem : vc ∈ before) : Narrower dateParse vc leaf :=
  (List.pairwise_append.mp h).2.2 vc hmem leaf (by simp)

theorem Caveat.wellFormed_toJson (caveat : Caveat) : caveat.toJson.WellFormed := by
  obtain ⟨type, date, limit, currency, others, -, hkeys, hdisjoint, hwell⟩ := caveat
  simp only [List.forall_mem_cons] at hdisjoint
  obtain ⟨htype, hdate, hlimit, hcurrency, -⟩ := hdisjoint
  have hnames : [js "type", js "date", js "limit", js "currency"].Nodup := by decide
  refine .object ?_ fun member hmem => ?_
  · rcases date <;> rcases limit <;> rcases currency <;>
      simp_all [List.nodup_cons]
  · rcases date <;> rcases limit <;> rcases currency <;>
      simp at hmem <;> grind [Json.WellFormed.string]

theorem deepEqual_iff {a b : Caveat} :
    deepEqual a.toJson b.toJson = true ↔ Json.SameShown a.toJson b.toJson := by
  rw [deepEqual, decide_eq_true_eq]
  exact Json.sameShown_iff a.wellFormed_toJson b.wellFormed_toJson

theorem chainNarrows_iff {chain : List DelegationCredential} {leaf : DelegationCredential}
    {ctx : DelegationChainContext} (hleaf : chain.getLast? = some leaf)
    (hok : (validateDelegationChain dateParse numberText chain ctx).ok = true) :
    ChainNarrows dateParse ctx.now chain leaf ↔ OverflowsKept chain leaf := by
  obtain ⟨before, rfl⟩ := List.getLast?_eq_some_iff.mp hleaf
  have hreasons : hopReasons dateParse (before ++ [leaf]) = [] ∧
      expiryReasons dateParse (before ++ [leaf]) ctx.now = [] := by
    unfold validateDelegationChain at hok
    split at hok
    · simp only [List.length_eq_zero_iff, List.append_eq_nil_iff, decide_eq_true_eq] at hok
      exact ⟨hok.1.2, hok.2⟩
    · cases hok
  obtain ⟨hhops, hexpiry⟩ := hreasons
  have hattenuates := (isChain_of_hopReasons hhops).imp fun _ _ h => narrower_of_attenuates h
  have hpairs : (before ++ [leaf]).Pairwise (Narrower dateParse) := by
    have : Trans (Narrower dateParse) (Narrower dateParse) (Narrower dateParse) :=
      ⟨Narrower.trans⟩
    exact List.isChain_iff_pairwise.mp (hattenuates.imp fun _ _ h => h.1)
  -- every caveat of the chain is covered in the leaf, its own ones by themselves
  have hcovered : ∀ vc ∈ before, ∀ caveat ∈ vc.caveats, ∃ kept ∈ leaf.caveats,
      Covers dateParse caveat kept := fun vc hmem => (narrower_leaf hpairs hmem).caveats
  constructor
  · intro hnarrows vc hmem caveat hcaveat hother _
    obtain ⟨kept, hkept, hsame⟩ := hnarrows.replicated vc hmem caveat hcaveat hother
    obtain ⟨hshown, hoverflow⟩ := Json.same_iff_sameShown.mp hsame
    exact ⟨kept, hkept, deepEqual_iff.mpr hshown, hoverflow⟩
  · intro hkeeps
    constructor
    · exact hpairs.imp fun h => ⟨h.actions, h.target, h.expiry⟩
    · exact hattenuates.imp fun _ _ h => h.2
    · intro vc hmem
      obtain ⟨i, hi, rfl⟩ := List.mem_iff_getElem.mp hmem
      refine insideWindow_of_hopExpiryReasons (i := i) ?_
      simp only [expiryReasons, List.flatMap_eq_nil_iff] at hexpiry
      exact hexpiry (_, i) (List.mk_mem_zipIdx_iff_getElem?.mpr (List.getElem?_eq_getElem hi))
    · intro inv hallows vc hmem caveat hcaveat
      rcases List.mem_append.mp hmem with hbefore | hlast
      · obtain ⟨kept, hkept, hcovers⟩ := hcovered vc hbefore caveat hcaveat
        exact hcovers.allows (hallows kept hkept)
      · rw [List.mem_singleton.mp hlast] at hcaveat
        exact hallows caveat hcaveat
    · intro vc hmem caveat hcaveat hother
      have hfound : ∃ kept ∈ leaf.caveats, deepEqual caveat.toJson kept.toJson = true := by
        rcases List.mem_append.mp hmem with hbefore | hlast
        · obtain ⟨kept, hkept, hcovers⟩ := hcovered vc hbefore caveat hcaveat
          exact ⟨kept, hkept, hcovers.other hother⟩
        · rw [List.mem_singleton.mp hlast] at hcaveat
          exact ⟨caveat, hcaveat, deepEqual_iff.mpr fun _ => rfl⟩
      obtain ⟨kept, hkept, hequal, hoverflow⟩ := hkeeps vc hmem caveat hcaveat hother hfound
      exact ⟨kept, hkept, Json.same_iff_sameShown.mpr ⟨deepEqual_iff.mp hequal, hoverflow⟩⟩

/-- Where no caveat of the chain holds an overflowed number, none is lost. -/
theorem overflowsKept_of_none {chain : List DelegationCredential} {leaf : DelegationCredential}
    (hleaf : chain.getLast? = some leaf)
    (h : ∀ vc ∈ chain, ∀ caveat ∈ vc.caveats, ∀ path, caveat.toJson.overflowAt path = none) :
    OverflowsKept chain leaf := by
  rintro vc hmem caveat hcaveat - ⟨kept, hkept, hequal⟩
  refine ⟨kept, hkept, hequal, fun path => ?_⟩
  rw [h vc hmem caveat hcaveat, h leaf (List.mem_of_getLast? hleaf) kept hkept]

/-- An accepted chain narrows end to end exactly when no uninterpreted caveat loses an overflowed
number on the way to the leaf, so always where no caveat holds such a number. -/
theorem validateDelegationChain_narrows_iff (dateParse : JsString → Option Int)
    (numberText : JsNumber → JsString) (chain : List DelegationCredential)
    (leaf : DelegationCredential) (ctx : DelegationChainContext)
    (hleaf : chain.getLast? = some leaf)
    (hok : (validateDelegationChain dateParse numberText chain ctx).ok = true) :
    (ChainNarrows dateParse ctx.now chain leaf ↔ OverflowsKept chain leaf) ∧
      ((∀ vc ∈ chain, ∀ caveat ∈ vc.caveats, ∀ path, caveat.toJson.overflowAt path = none) →
        ChainNarrows dateParse ctx.now chain leaf) :=
  ⟨chainNarrows_iff hleaf hok,
    fun hnone => (chainNarrows_iff hleaf hok).mpr (overflowsKept_of_none hleaf hnone)⟩

/-- `{ type: 'RateLimit', max }`. -/
def rateLimit (max : Json) (h : max.WellFormed) : Caveat :=
  { type := js "RateLimit"
    others := [(js "max", max)]
    others_keys := List.nodup_singleton _
    others_disjoint := by simp only [List.map_cons, List.map_nil]; decide
    others_wellFormed := by simpa using h }

/-- The resource owner grants without a limit: `1e400` is beyond every double. -/
def overflowRoot : DelegationCredential :=
  { issuer := .did (js "did:web:owner")
    credentialSubject :=
      { id := js "urn:cap:1", invoker := some (js "did:web:agent")
        parentCapability := js "https://api.example", invocationTarget := js "https://api.example"
        allowedAction := [js "read"]
        caveats := some [rateLimit (.number (.infinity false)) (.number _)] } }

/-- The agent re-delegates with `max: null`. -/
def nullLeaf : DelegationCredential :=
  { issuer := .did (js "did:web:agent")
    credentialSubject :=
      { id := js "urn:cap:2", invoker := some (js "did:web:sub")
        parentCapability := js "urn:cap:1", invocationTarget := js "https://api.example"
        allowedAction := [js "read"]
        caveats := some [rateLimit .null .null] } }

theorem nullLeaf_ok (dateParse : JsString → Option Int) (numberText : JsNumber → JsString) :
    (validateDelegationChain dateParse numberText [overflowRoot, nullLeaf] { now := 0 }).ok =
      true := by
  have hequal : deepEqual (rateLimit (.number (.infinity false)) (.number _)).toJson
      (rateLimit .null .null).toJson = true :=
    deepEqual_iff.mpr (Json.sameShown_of_shown rfl)
  have hcaveats : caveatReasons dateParse overflowRoot.caveats nullLeaf.caveats = [] := by
    refine caveatReasons_eq_nil.mpr fun caveat hmem => ?_
    obtain rfl : caveat = rateLimit (.number (.infinity false)) (.number _) := by
      simpa [overflowRoot, DelegationCredential.caveats] using hmem
    exact ⟨rateLimit .null .null, by simp [nullLeaf, DelegationCredential.caveats], hequal⟩
  have hhops : hopReasons dateParse [overflowRoot, nullLeaf] = [] := by
    simp only [hopReasons, attenuates, hcaveats]
    rfl
  simp only [validateDelegationChain, hhops]
  rfl

/-- The chain is accepted although the leaf does not replicate the root's caveat. -/
theorem nullLeaf_accepted :
    (validateDelegationChain (fun _ => none) (fun _ => []) [overflowRoot, nullLeaf]
      { now := 0 }).ok = true ∧
    ¬ ChainNarrows (fun _ => none) 0 [overflowRoot, nullLeaf] nullLeaf := by
  refine ⟨nullLeaf_ok _ _, fun hnarrows => ?_⟩
  obtain ⟨kept, hkept, hsame⟩ := hnarrows.replicated overflowRoot (by simp)
    (rateLimit (.number (.infinity false)) (.number _)) (by simp [overflowRoot,
      DelegationCredential.caveats]) (by rintro (h | h) <;> revert h <;> decide)
  obtain rfl : kept = rateLimit .null .null := by
    simpa [nullLeaf, DelegationCredential.caveats] using hkept
  have hmax := hsame [.key (js "max")]
  revert hmax
  decide

theorem validateDelegationChain_narrows_iff_nullLeaf :
    ChainNarrows (fun _ => none) 0 [overflowRoot, nullLeaf] nullLeaf ↔
      OverflowsKept [overflowRoot, nullLeaf] nullLeaf :=
  (validateDelegationChain_narrows_iff (fun _ => none) (fun _ => []) [overflowRoot, nullLeaf]
    nullLeaf { now := 0 } rfl (nullLeaf_ok _ _)).1

end KyaOs.Card
