import KyaOs.Middleware.ScrubFound

/-!
# The two paths of scrubbing agree

Where one serialization shows neither a private name nor the stamp, only the root's own `_meta`
has anything private, and the fast path makes of the root what the walk does. It throws on a
`_meta` that is null, also where the first scrubbing has taken away what it showed, and a stamp
that JSON escapes is hidden from it.
-/

namespace KyaOs.Middleware

open Js Untyped JsonValue

section Agreement

variable {numbers : Doubles JsNumber} {root : JsonValue JsNumber} {stamp : Option JsString}
  {keepEmptyMeta : Bool} {members : Members JsNumber}

/-- The value is an object that the fast path would take but whose `_meta` is null. -/
def ShallowNullMeta (numbers : Doubles JsNumber) (value : JsonValue JsNumber)
    (stamp : Option JsString) : Prop :=
  ∃ members, value = .object members ∧ isShallow numbers stamp members = true ∧
    members.lookup (js "_meta") = some .null

/-- The fast path takes no root with a null `_meta`, before and after scrubbing. Where the
serialization shows neither a private name nor the stamp, no string holds the stamp. -/
structure ShallowShows (numbers : Doubles JsNumber) (root : JsonValue JsNumber)
    (stamp : Option JsString) (keepEmptyMeta : Bool) : Prop where
  first : ¬ ShallowNullMeta numbers root stamp
  second : ¬ ShallowNullMeta numbers (scrubRoot keepEmptyMeta root) stamp
  strings : ∀ members, root = .object members → isShallow numbers stamp members = true →
    ∀ sought ∈ stamp, ∀ text ∈ stringsIn (shallowOf members), ¬ sought <:+: text

/-- What is said of scrubbing one root. -/
structure ScrubsAlike (numbers : Doubles JsNumber) (root : JsonValue JsNumber)
    (stamp : Option JsString) (keepEmptyMeta : Bool) : Prop where
  returns : ∃ found, scrubPrivateMeta numbers root stamp keepEmptyMeta = .ok found
  agrees : ∀ found, scrubShallow numbers root stamp keepEmptyMeta = .ok (some found) →
    FullWalk root stamp keepEmptyMeta found
  clean : ∀ found, scrubPrivateMeta numbers root stamp keepEmptyMeta = .ok found →
    NoPrivateMeta found.value ∧ Removed keepEmptyMeta root found.value
  /-- Scrubbing the value again changes nothing. -/
  again : ∀ found, scrubPrivateMeta numbers root stamp keepEmptyMeta = .ok found →
    ∃ found', scrubPrivateMeta numbers found.value stamp keepEmptyMeta = .ok found' ∧
      found'.value = found.value

theorem scrubShallow_null (hshallow : isShallow numbers stamp members = true)
    (hnull : members.lookup (js "_meta") = some .null) :
    scrubPrivateMeta numbers (.object members) stamp keepEmptyMeta = .error cannotReadMeta := by
  rw [scrubPrivateMeta, scrubShallow, if_pos hshallow, tryWithoutMetaKeys, Untyped.member?, hnull]
  rfl

theorem ShallowNullMeta.throws (h : ShallowNullMeta numbers root stamp) :
    scrubPrivateMeta numbers root stamp keepEmptyMeta = .error cannotReadMeta := by
  obtain ⟨members, rfl, hshallow, hnull⟩ := h
  exact scrubShallow_null hshallow hnull

theorem clean_shallowOf (hshallow : isShallow numbers stamp members = true) :
    NoPrivateMeta (shallowOf members) :=
  noPrivateMeta_of_text (unnamed_of_isShallow hshallow)

/-- The only id in such a root is that of its own `_meta`. -/
theorem idsIn_shallow {sought : JsString} {metadata : Members JsNumber}
    (hnodup : (members.map Prod.fst).Nodup)
    (hlookup : members.lookup (js "_meta") = some (.object metadata))
    (h : NoPrivateMeta (shallowOf members)) :
    idsIn sought false (.object members) = (stampedId sought metadata).toList := by
  rw [shallowOf, hlookup] at h
  cases h with
  | object _ hmembers =>
  have hself := hmembers (js "_meta", .object (withoutKeys metadata isPrivate))
    (mem_of_lookup (by rw [lookup_assignMember, if_pos rfl]))
  have hothers : ∀ member ∈ members, member.1 ≠ js "_meta" →
      idsIn sought (member.1 = js "_meta") member.2 = [] := by
    intro member hmem hname
    rw [decide_eq_false hname]
    exact idsIn_clean _ ⟨hmembers member (mem_assignMember_of_ne hmem hname),
      fun hmeta => by cases hmeta⟩
  have hmeta : idsIn sought true (.object metadata) = (stampedId sought metadata).toList := by
    have hclean : CleanAt true (.object (withoutKeys metadata isPrivate)) := by
      refine ⟨hself, ?_⟩
      rintro - metadata' hsame member hmem
      cases hsame
      exact (mem_withoutKeys.mp hmem).2
    have hbelow : idsInMembers sought true metadata = [] := by
      rw [idsInMembers_walked, walkedMembers, if_pos rfl, List.flatMap_eq_nil_iff]
      intro member hmem
      exact idsIn_clean _ (hclean.member (List.mem_reverse.mp hmem))
    rw [idsIn, if_pos rfl, hbelow, List.append_nil]
  obtain ⟨before, after, rfl, -⟩ := List.lookup_eq_some_iff.mp hlookup
  rw [List.map_append, List.map_cons, List.nodup_append, List.nodup_cons] at hnodup
  obtain ⟨-, ⟨hafter, -⟩, hbefore⟩ := hnodup
  have hnone : ∀ members' : Members JsNumber, (∀ member ∈ members', member ∈ before ++
      (js "_meta", .object metadata) :: after) → (∀ member ∈ members', member.1 ≠ js "_meta") →
        (members'.reverse.flatMap fun member => idsIn sought (member.1 = js "_meta") member.2) =
          [] := by
    intro members' hsub hname
    rw [List.flatMap_eq_nil_iff]
    intro member hmem
    have hmem := List.mem_reverse.mp hmem
    exact hothers member (hsub member hmem) (hname member hmem)
  have hbeforeNone := hnone before (fun member hmem => List.mem_append_left _ hmem)
    fun member hmem => hbefore _ (List.mem_map_of_mem hmem) _ List.mem_cons_self
  have hafterNone := hnone after
    (fun member hmem => List.mem_append_right _ (List.mem_cons_of_mem _ hmem)) (by
      intro member hmem hname
      have hlisted : member.1 ∈ after.map Prod.fst := List.mem_map_of_mem hmem
      rw [hname] at hlisted
      exact hafter hlisted)
  rw [idsIn, idsInMembers_walked, walkedMembers, if_neg Bool.false_ne_true,
    if_neg Bool.false_ne_true, List.reverse_append, List.reverse_cons, List.flatMap_append,
    List.flatMap_append, hbeforeNone, hafterNone]
  simp [hmeta]

/-- What the fast path finds and makes. -/
theorem scrubShallow_object (hnodup : (members.map Prod.fst).Nodup)
    (hshallow : isShallow numbers stamp members = true)
    (hnull : members.lookup (js "_meta") ≠ some .null) :
    scrubShallow numbers (.object members) stamp keepEmptyMeta = .ok (some
      { value := scrubRoot keepEmptyMeta (.object members), leaked := []
        ids := (scrubDeep (.object members) stamp keepEmptyMeta).ids }) := by
  have hclean := clean_shallowOf hshallow
  have hvalue : tryWithoutMetaKeys (.object members) privateMetaKeys keepEmptyMeta =
      .ok (scrubRoot keepEmptyMeta (.object members)) := by
    rw [← withoutMetaKeys_eq_scrubRoot hnodup hclean, tryWithoutMetaKeys, Untyped.member?]
    split
    · rename_i hmeta
      exact absurd hmeta hnull
    · rfl
  rw [scrubShallow, if_pos hshallow, hvalue]
  cases stamp with
  | none => rfl
  | some sought =>
      refine congrArg (fun ids => Except.ok (some (Scrubbed.mk _ [] ids))) ?_
      have hplain : shallowOf members = .object members →
          idsIn sought false (.object members) = [] := by
        intro hsame
        rw [hsame] at hclean
        exact idsIn_clean _ ⟨hclean, fun hmeta => by cases hmeta⟩
      rw [metaOf, Untyped.member?]
      cases hlookup : members.lookup (js "_meta") with
      | none => exact (hplain (by rw [shallowOf, hlookup])).symm
      | some value =>
          cases value with
          | object metadata => exact (idsIn_shallow hnodup hlookup hclean).symm
          | _ => exact (hplain (by rw [shallowOf, hlookup])).symm

/-- Either path makes what the recursion over the value does. -/
theorem scrubPrivateMeta_eq
    (hnodup : ∀ members, root = .object members → (members.map Prod.fst).Nodup)
    (hnull : ¬ ShallowNullMeta numbers root stamp) : ∃ found,
      scrubPrivateMeta numbers root stamp keepEmptyMeta = .ok found ∧
        found.value = scrubRoot keepEmptyMeta root := by
  have hdeep : scrubShallow numbers root stamp keepEmptyMeta = .ok none → ∃ found,
      scrubPrivateMeta numbers root stamp keepEmptyMeta = .ok found ∧
        found.value = scrubRoot keepEmptyMeta root := by
    intro hshallow
    rw [scrubPrivateMeta, hshallow]
    exact ⟨_, rfl, rfl⟩
  cases root with
  | object members =>
      cases hshallow : isShallow numbers stamp members with
      | false => exact hdeep (by rw [scrubShallow, hshallow, if_neg Bool.false_ne_true]; rfl)
      | true =>
          rw [scrubPrivateMeta, scrubShallow_object (hnodup members rfl) hshallow fun h =>
            hnull ⟨members, rfl, hshallow, h⟩]
          exact ⟨_, rfl, rfl⟩
  | _ => exact hdeep rfl

theorem nodup_of_wellFormed (h : root.WellFormed) :
    ∀ members, root = .object members → (members.map Prod.fst).Nodup := by
  rintro members rfl
  cases h with
  | object hnodup _ => exact hnodup

theorem nodup_scrubRoot (h : root.WellFormed) :
    ∀ members, scrubRoot keepEmptyMeta root = .object members →
      (members.map Prod.fst).Nodup := by
  intro members' hvalue
  cases root with
  | object members =>
      cases hvalue
      exact (nodup_of_wellFormed h members rfl).sublist (names_scrubRoot members)
  | _ => cases hvalue

/-- What scrubbing is to do, it does of a root with enough shown, and of no other. -/
theorem scrubsAlike_iff_shows (hroot : root.WellFormed) :
    ScrubsAlike numbers root stamp keepEmptyMeta ↔
      ShallowShows numbers root stamp keepEmptyMeta := by
  constructor
  · intro h
    obtain ⟨made, hmade⟩ := h.returns
    have hfirst : ¬ ShallowNullMeta numbers root stamp := by
      intro hnull
      rw [hnull.throws] at hmade
      cases hmade
    refine ⟨hfirst, ?_, ?_⟩
    · intro hnull
      obtain ⟨found, hfound, hvalue⟩ :=
        @scrubPrivateMeta_eq numbers root stamp keepEmptyMeta (nodup_of_wellFormed hroot) hfirst
      obtain ⟨found', hfound', -⟩ := h.again found hfound
      rw [hvalue, hnull.throws] at hfound'
      cases hfound'
    · rintro members rfl hshallow sought hstamp
      obtain rfl := Option.mem_def.mp hstamp
      have hwalk := fullWalk_iff.mp (h.agrees _ (scrubShallow_object
        (nodup_of_wellFormed hroot members rfl) hshallow fun hmeta =>
          hfirst ⟨members, rfl, hshallow, hmeta⟩))
      have hleaked : leakedIn sought false (shallowOf members) = [] := by
        rw [leakedIn_shallowOf]
        exact (congrArg Scrubbed.leaked hwalk).symm
      have hclean : CleanAt false (shallowOf members) :=
        ⟨clean_shallowOf hshallow, fun hmeta => by cases hmeta⟩
      refine (noneLeaked_iff _ hclean).mp ⟨?_, hleaked⟩
      rw [shallowOf]
      split <;> rfl
  · intro h
    obtain ⟨made, hmade, hvalue⟩ :=
      @scrubPrivateMeta_eq numbers root stamp keepEmptyMeta (nodup_of_wellFormed hroot) h.first
    refine ⟨⟨made, hmade⟩, ?_, ?_, ?_⟩
    · intro found hfound
      rw [fullWalk_iff]
      cases root with
      | object members =>
          cases hshallow : isShallow numbers stamp members with
          | false =>
              rw [scrubShallow, hshallow, if_neg Bool.false_ne_true] at hfound
              cases hfound
          | true =>
              rw [scrubShallow_object (nodup_of_wellFormed hroot members rfl) hshallow
                fun hmeta => h.first ⟨members, rfl, hshallow, hmeta⟩] at hfound
              cases hfound
              cases stamp with
              | none => rfl
              | some sought =>
                  have hclean : CleanAt false (shallowOf members) :=
                    ⟨clean_shallowOf hshallow, fun hmeta => by cases hmeta⟩
                  have hnone := ((noneLeaked_iff _ hclean).mpr
                    (h.strings members rfl hshallow sought rfl)).2
                  rw [leakedIn_shallowOf] at hnone
                  refine congrArg (fun leaked => Scrubbed.mk _ leaked _) ?_
                  exact hnone.symm
      | _ => cases hfound
    · intro found hfound
      rw [hmade] at hfound
      cases hfound
      rw [hvalue]
      exact ⟨noPrivateMeta_scrubRoot keepEmptyMeta root, removed_scrubRoot root⟩
    · intro found hfound
      rw [hmade] at hfound
      cases hfound
      have hclean := noPrivateMeta_scrubRoot keepEmptyMeta root
      rw [hvalue]
      obtain ⟨remade, hremade, hsame⟩ :=
        @scrubPrivateMeta_eq numbers _ stamp keepEmptyMeta (nodup_scrubRoot hroot) h.second
      exact ⟨remade, hremade, hsame.trans (scrubRoot_clean hclean)⟩

end Agreement

section Plain

variable {numbers : Doubles JsNumber} {stamp : JsString}

/-- A unit that no string has escaped, such as those of base64url. -/
def isPlain (u : UInt16) : Bool :=
  !Json.isLeadSurrogate u && !Json.isTrailSurrogate u && (Json.quoteUnit u == [u])

theorem quoteUnits_plain {u : UInt16} (h : isPlain u = true) (rest : JsString) :
    Json.quoteUnits (u :: rest) = u :: Json.quoteUnits rest := by
  simp only [isPlain, Bool.and_eq_true, Bool.not_eq_true', beq_iff_eq] at h
  cases rest with
  | nil => exact h.2
  | cons v rest =>
      rw [Json.quoteUnits, if_neg (by simp [h.1.1]), h.2]
      rfl

theorem quoteUnits_append_plain (h : ∀ u ∈ stamp, isPlain u = true) (after : JsString) :
    Json.quoteUnits (stamp ++ after) = stamp ++ Json.quoteUnits after := by
  induction stamp with
  | nil => rfl
  | cons u rest ih =>
      rw [List.cons_append, quoteUnits_plain (h u List.mem_cons_self),
        ih fun u hmem => h u (List.mem_cons_of_mem _ hmem), List.cons_append]

/-- A plain text is quoted as it is, wherever it stands. -/
theorem infix_quoteUnits (h : ∀ u ∈ stamp, isPlain u = true) (before after : JsString) :
    stamp <:+: Json.quoteUnits (before ++ (stamp ++ after)) := by
  induction before using Json.quoteUnits.induct with
  | case1 =>
      rw [List.nil_append, quoteUnits_append_plain h]
      exact (List.prefix_append _ _).isInfix
  | case2 u =>
      cases stamp with
      | nil => exact List.nil_infix
      | cons v rest =>
          have htrail : Json.isTrailSurrogate v = false := by
            have hplain := h v List.mem_cons_self
            simp only [isPlain, Bool.and_eq_true, Bool.not_eq_true'] at hplain
            exact hplain.1.2
          have hquoted := quoteUnits_append_plain h after
          rw [List.cons_append] at hquoted
          rw [List.cons_append, List.nil_append, List.cons_append, Json.quoteUnits,
            if_neg (by simp [htrail]), hquoted]
          exact (List.prefix_append _ _).isInfix.trans (List.suffix_append _ _).isInfix
  | case3 u v rest hpair ih =>
      rw [List.cons_append, List.cons_append, Json.quoteUnits, if_pos hpair]
      exact ih.trans ((List.suffix_cons _ _).trans (List.suffix_cons _ _)).isInfix
  | case4 u v rest hpair ih =>
      rw [List.cons_append, List.cons_append, Json.quoteUnits, if_neg hpair]
      exact ih.trans (List.suffix_append _ _).isInfix

/-- The serialization of a value shows a plain text that one of its strings holds. -/
theorem infix_jsonText (h : ∀ u ∈ stamp, isPlain u = true) (value : JsonValue JsNumber) :
    ∀ text ∈ stringsIn value, stamp <:+: text → stamp <:+: jsonText numbers value := by
  induction value using value_induction with
  | scalar value hscalar =>
      intro text htext hpart
      cases value with
      | string held =>
          obtain rfl := List.mem_singleton.mp htext
          obtain ⟨before, after, rfl⟩ := hpart
          rw [List.append_assoc]
          exact (infix_quoteUnits h before after).trans
            ((List.prefix_append _ _).isInfix.trans (List.suffix_cons _ _).isInfix)
      | array items => cases hscalar
      | object members => cases hscalar
      | _ => cases htext
  | array items ih =>
      intro text htext hpart
      rw [stringsIn, stringsInItems_eq] at htext
      obtain ⟨item, hmem, hinner⟩ := List.mem_flatMap.mp htext
      exact (ih item hmem text hinner hpart).trans (infix_of_item hmem)
  | object members ih =>
      intro text htext hpart
      rw [stringsIn, stringsInMembers_eq] at htext
      obtain ⟨member, hmem, hinner⟩ := List.mem_flatMap.mp htext
      exact (ih member hmem text hinner hpart).trans (infix_of_member hmem).2

/-- With a plain stamp, or none, only a null `_meta` is in the way. -/
theorem shallowShows_plain {root : JsonValue JsNumber} {stamp : Option JsString}
    {keepEmptyMeta : Bool} (h : ∀ sought ∈ stamp, ∀ u ∈ sought, isPlain u = true) :
    ShallowShows numbers root stamp keepEmptyMeta ↔ ¬ ShallowNullMeta numbers root stamp ∧
      ¬ ShallowNullMeta numbers (scrubRoot keepEmptyMeta root) stamp := by
  constructor
  · exact fun hshows => ⟨hshows.first, hshows.second⟩
  · rintro ⟨hfirst, hsecond⟩
    refine ⟨hfirst, hsecond, ?_⟩
    rintro members rfl hshallow sought hstamp text htext hpart
    have hshown := @infix_jsonText numbers sought (h sought hstamp) _ text htext hpart
    simp only [isShallow, Bool.not_eq_true', Bool.or_eq_false_iff] at hshallow
    obtain rfl := Option.mem_def.mp hstamp
    simp [includes, hshown] at hshallow

/-- A stamp that the middleware mints is plain. -/
theorem isPlain_stamp (bytes : List UInt8) :
    ∀ u ∈ base64urlEncodeFromBytes bytes, isPlain u = true := by
  have hunits : ∀ n < 64, isPlain (toUrlUnit (sextetUnit n)) = true := by decide +kernel
  intro u hmem
  rw [base64urlEncodeFromBytes_eq] at hmem
  obtain ⟨n, hn, rfl⟩ := List.mem_map.mp hmem
  exact hunits n (sextets_lt bytes n hn)

/-- Scrubbing does what is said of it exactly for the roots of which the serialization shows
enough; where the stamp is minted, or none, for those without a null `_meta` that the fast path
takes. -/
theorem scrubsAlike_iff {root : JsonValue JsNumber} {stamp : Option JsString}
    {keepEmptyMeta : Bool} (hroot : root.WellFormed) :
    (ScrubsAlike numbers root stamp keepEmptyMeta ↔
      ShallowShows numbers root stamp keepEmptyMeta) ∧
    ((∀ sought ∈ stamp, ∃ bytes, sought = base64urlEncodeFromBytes bytes) →
      (ScrubsAlike numbers root stamp keepEmptyMeta ↔ ¬ ShallowNullMeta numbers root stamp ∧
        ¬ ShallowNullMeta numbers (scrubRoot keepEmptyMeta root) stamp)) := by
  refine ⟨scrubsAlike_iff_shows hroot, fun hminted => ?_⟩
  rw [scrubsAlike_iff_shows hroot, shallowShows_plain]
  intro sought hstamp
  obtain ⟨bytes, rfl⟩ := hminted sought hstamp
  exact isPlain_stamp bytes

end Plain

section Sample

def nullMeta : JsonValue JsNumber := .object [(js "_meta", .null)]

/-- A null `_meta` beside a private member. -/
def nullMetaBeside : JsonValue JsNumber :=
  .object [(js "_meta", .null),
    (js "x", .object [(js "_meta", .object [(pendingProofMetaKey, .string (js "p"))])])]

/-- A `_meta` that is null cannot be read, whether nothing private was in the root or it has been
taken away. -/
theorem nullMeta_throws :
    scrubPrivateMeta sampleRuntime.numbers nullMeta none false = .error cannotReadMeta ∧
      ∃ found, scrubPrivateMeta sampleRuntime.numbers nullMetaBeside none false = .ok found ∧
        scrubPrivateMeta sampleRuntime.numbers found.value none false = .error cannotReadMeta := by
  refine ⟨scrubShallow_null (by decide +kernel) rfl, scrubDeep nullMetaBeside none false, ?_, ?_⟩
  · have hdeep : scrubShallow sampleRuntime.numbers nullMetaBeside none false = .ok none := by
      rw [nullMetaBeside, scrubShallow, if_neg (by decide +kernel)]
      rfl
    rw [scrubPrivateMeta, hdeep]
    rfl
  · exact scrubShallow_null (by decide +kernel) rfl

def mintedStamp : JsString := base64urlEncodeFromBytes [0, 0, 0]

/-- Private members in the root's own `_meta`, and in that of a content item. -/
def stampedMeta : JsonValue JsNumber :=
  .object [(js "content", .array [.object [(js "_meta", .object [(js "k", .bool true),
      (pendingProofMetaKey, .string (js "p"))])]]),
    (js "_meta", .object [(lifecycleStampMetaKey, .string mintedStamp),
      (pendingProofMetaKey, .string (js "id"))])]

theorem ShallowNullMeta.meta_null {numbers : Doubles JsNumber} {value : JsonValue JsNumber}
    {stamp : Option JsString} (h : ShallowNullMeta numbers value stamp) :
    metaOf value = some .null := by
  obtain ⟨members, rfl, -, hnull⟩ := h
  exact hnull

theorem scrubsAlike_iff_sample :
    ScrubsAlike sampleRuntime.numbers stampedMeta (some mintedStamp) false := by
  have hcanonical : Audit.isCanonical sampleRuntime.numbers stampedMeta = true := by
    decide +kernel
  refine ((scrubsAlike_iff (Audit.canonical_of_isCanonical _ hcanonical).1).2 ?_).mpr ⟨?_, ?_⟩
  · intro sought hstamp
    cases hstamp
    exact ⟨[0, 0, 0], rfl⟩
  · intro hnull
    cases hnull.meta_null
  · intro hnull
    have hnone : metaOf (scrubRoot false stampedMeta) = none := rfl
    cases hnone.symm.trans hnull.meta_null

end Sample

end KyaOs.Middleware
