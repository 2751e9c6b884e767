import KyaOs.Middleware.ScrubWalk

/-!
# What scrubbing finds and removes

What the walk removes of a value, what the fast path makes of the root's own `_meta`, and
that a value whose text shows neither a private name nor the stamp has nothing private within.
-/

namespace KyaOs.Middleware

open Js Untyped JsonValue

/-- One `_meta` record loses its private members, and goes when that leaves it empty, unless it is
the root's own and an empty one is kept. Records inside it come first. -/
inductive Removal : Bool → JsonValue JsNumber → JsonValue JsNumber → Prop
  | item {keepEmptyMeta : Bool} {before after : List (JsonValue JsNumber)}
      {item item' : JsonValue JsNumber} : Removal false item item' →
      Removal keepEmptyMeta (.array (before ++ item :: after)) (.array (before ++ item' :: after))
  | member {keepEmptyMeta : Bool} {before after : Members JsNumber} {name : JsString}
      {value value' : JsonValue JsNumber} : Removal false value value' →
      Removal keepEmptyMeta (.object (before ++ (name, value) :: after))
        (.object (before ++ (name, value') :: after))
  | strip {keepEmptyMeta : Bool} {before after metadata : Members JsNumber} :
      (metadata.any fun member => isPrivate member.1) = true →
      NoPrivateMeta (.object (withoutKeys metadata isPrivate)) →
      (withoutKeys metadata isPrivate = [] → keepEmptyMeta = true) →
      Removal keepEmptyMeta (.object (before ++ (js "_meta", .object metadata) :: after))
        (.object (before ++ (js "_meta", .object (withoutKeys metadata isPrivate)) :: after))
  | drop {before after metadata : Members JsNumber} :
      (metadata.any fun member => isPrivate member.1) = true →
      withoutKeys metadata isPrivate = [] →
      Removal false (.object (before ++ (js "_meta", .object metadata) :: after))
        (.object (before ++ after))

/-- One value comes of another by removals. -/
def Removed (keepEmptyMeta : Bool) : JsonValue JsNumber → JsonValue JsNumber → Prop :=
  Relation.ReflTransGen (Removal keepEmptyMeta)

section Removed

variable {keepEmptyMeta : Bool}

theorem scrubItems_eq (items : List (JsonValue JsNumber)) : scrubItems items = items.map scrub := by
  induction items with
  | nil => rfl
  | cons item rest ih => rw [scrubItems, ih, List.map_cons]

theorem scrubMembers_eq (members : Members JsNumber) : scrubMembers members =
    members.flatMap fun member => scrubMember false member.1 (scrub member.2) := by
  induction members with
  | nil => rfl
  | cons member rest ih => rw [scrubMembers, ih, List.flatMap_cons]

theorem Removed.items {items : List (JsonValue JsNumber)}
    (h : ∀ item ∈ items, Removed false item (scrub item)) (before : List (JsonValue JsNumber)) :
    Removed keepEmptyMeta (.array (before ++ items)) (.array (before ++ items.map scrub)) := by
  induction items generalizing before with
  | nil => exact .refl
  | cons item rest ih =>
      have hfirst : Removed keepEmptyMeta (.array (before ++ item :: rest))
          (.array (before ++ scrub item :: rest)) :=
        (h item List.mem_cons_self).lift (fun item => JsonValue.array (before ++ item :: rest))
          fun _ _ hitem => .item hitem
      have hrest := ih (fun item hmem => h item (List.mem_cons_of_mem _ hmem))
        (before ++ [scrub item])
      simp only [List.append_assoc, List.singleton_append] at hrest
      exact hfirst.trans hrest

/-- A scrubbed member is cleaned where it is. -/
theorem Removed.scrubMember {name : JsString} {value : JsonValue JsNumber}
    (h : NoPrivateMeta value) (before after : Members JsNumber) :
    Removed keepEmptyMeta (.object (before ++ (name, value) :: after))
      (.object (before ++ (scrubMember keepEmptyMeta name value ++ after))) := by
  cases value with
  | object metadata =>
      rw [Middleware.scrubMember]
      split_ifs with hprivate
      · obtain ⟨rfl, hany⟩ := hprivate
        dsimp only
        split_ifs with hempty
        · obtain ⟨hnone, hdrop⟩ := (Bool.and_eq_true _ _).mp hempty
          cases keepEmptyMeta with
          | true => cases hdrop
          | false => exact .single (.drop hany (List.isEmpty_iff.mp hnone))
        · refine .single (.strip hany (noPrivateMeta_withoutKeys h _) ?_)
          intro hnone
          simpa [hnone] using hempty
      · exact .refl
  | _ => exact .refl

theorem Removed.members {members : Members JsNumber}
    (h : ∀ member ∈ members, Removed false member.2 (scrub member.2))
    (before : Members JsNumber) :
    Removed keepEmptyMeta (.object (before ++ members)) (.object (before ++
      members.flatMap fun member => Middleware.scrubMember keepEmptyMeta member.1
        (scrub member.2))) := by
  induction members generalizing before with
  | nil => exact .refl
  | cons member rest ih =>
      obtain ⟨name, value⟩ := member
      have hbelow : Removed keepEmptyMeta (.object (before ++ (name, value) :: rest))
          (.object (before ++ (name, scrub value) :: rest)) :=
        (h (name, value) List.mem_cons_self).lift
          (fun value => JsonValue.object (before ++ (name, value) :: rest))
          fun _ _ hvalue => .member hvalue
      have hfirst := @Removed.scrubMember keepEmptyMeta name _ (noPrivateMeta_scrub value) before
        rest
      have hrest := ih (fun member hmem => h member (List.mem_cons_of_mem _ hmem))
        (before ++ Middleware.scrubMember keepEmptyMeta name (scrub value))
      rw [List.append_assoc, List.append_assoc] at hrest
      exact (hbelow.trans hfirst).trans hrest

theorem removed_scrub (value : JsonValue JsNumber) : Removed false value (scrub value) := by
  induction value using value_induction with
  | scalar value hscalar =>
      cases value with
      | array items => cases hscalar
      | object members => cases hscalar
      | _ => exact .refl
  | array items ih =>
      rw [scrub, scrubItems_eq]
      exact Removed.items ih []
  | object members ih =>
      rw [scrub, scrubMembers_eq]
      exact Removed.members ih []

/-- The walk makes nothing but removals. -/
theorem removed_scrubRoot (root : JsonValue JsNumber) :
    Removed keepEmptyMeta root (scrubRoot keepEmptyMeta root) := by
  cases root with
  | array items =>
      rw [scrubRoot, scrub, scrubItems_eq]
      · exact Removed.items (fun item _ => removed_scrub item) []
      · intro members h
        cases h
  | object members => exact Removed.members (fun member _ => removed_scrub member.2) []
  | _ => exact .refl

end Removed

section Root

variable {keepEmptyMeta : Bool} {members metadata : Members JsNumber}

theorem scrubRoot_clean {root : JsonValue JsNumber} (h : NoPrivateMeta root) :
    scrubRoot keepEmptyMeta root = root := by
  cases root with
  | object members =>
      cases h with
      | object hmeta hmembers =>
          have hsame : ∀ member ∈ members,
              scrubMember keepEmptyMeta member.1 (scrub member.2) = [member] := by
            intro member hmem
            rw [scrub_clean (hmembers member hmem)]
            refine scrubMember_clean ?_ keepEmptyMeta
            rintro metadata rfl inner hinner
            exact hmeta metadata hmem inner hinner
          rw [scrubRoot, List.flatMap_congr hsame, List.flatMap_singleton']
  | array items => exact scrub_clean h
  | _ => rfl

/-- Private names are neither removed nor added where members are scrubbed. -/
theorem any_private_scrubMembers (members : Members JsNumber) :
    ((scrubMembers members).any fun member => isPrivate member.1) =
      members.any fun member => isPrivate member.1 := by
  induction members with
  | nil => rfl
  | cons member rest ih =>
      obtain ⟨name, value⟩ := member
      rw [scrubMembers, List.any_append, List.any_cons, ih]
      congr 1
      cases hprivate : isPrivate name with
      | true => simp [scrubMember_of_ne (ne_meta_of_isPrivate hprivate), hprivate]
      | false =>
          rw [List.any_eq_false]
          intro member hmem
          have hname := (names_scrubMember (scrub value)).subset (List.mem_map_of_mem hmem)
          simp [List.mem_singleton.mp hname, hprivate]

theorem withoutKeys_scrubMembers (members : Members JsNumber) :
    withoutKeys (scrubMembers members) isPrivate =
      scrubMembers (withoutKeys members isPrivate) := by
  induction members with
  | nil => rfl
  | cons member rest ih =>
      obtain ⟨name, value⟩ := member
      rw [withoutKeys] at ih
      rw [scrubMembers, withoutKeys, withoutKeys, List.filter_append, ih, List.filter_cons]
      cases hprivate : isPrivate name with
      | true => simp [scrubMember_of_ne (ne_meta_of_isPrivate hprivate), hprivate, withoutKeys]
      | false =>
          have hkept : (scrubMember false name (scrub value)).filter
              (fun member => !isPrivate member.1) = scrubMember false name (scrub value) := by
            rw [List.filter_eq_self]
            intro member hmem
            have hname := (names_scrubMember (scrub value)).subset (List.mem_map_of_mem hmem)
            simp [List.mem_singleton.mp hname, hprivate]
          simp [hkept, scrubMembers, withoutKeys]

/-- A `_meta` whose members are clean apart from the private ones needs no scrubbing below. -/
theorem scrubMember_meta (h : NoPrivateMeta (.object (withoutKeys metadata isPrivate))) :
    scrubMember keepEmptyMeta (js "_meta") (scrub (.object metadata)) =
      scrubMember keepEmptyMeta (js "_meta") (.object metadata) := by
  rw [scrub]
  refine scrubMember_congr ?_ (any_private_scrubMembers metadata) _ rfl
  rw [withoutKeys_scrubMembers]
  cases h with
  | object hmeta hmembers => exact scrubMembers_clean hmembers hmeta

/-- A fresh name is in no copy. -/
theorem flatMap_scrubMember_fresh (h : js "_meta" ∉ members.map Prod.fst) :
    (members.flatMap fun member => scrubMember keepEmptyMeta member.1 member.2) = members := by
  have hsame : ∀ member ∈ members, scrubMember keepEmptyMeta member.1 member.2 = [member] := by
    intro member hmem
    refine scrubMember_of_ne ?_
    intro hname
    exact h (hname ▸ List.mem_map_of_mem hmem)
  rw [List.flatMap_congr hsame, List.flatMap_singleton']

/-- Only the root's `_meta` is rewritten, where it is. -/
theorem flatMap_scrubMember (hnodup : (members.map Prod.fst).Nodup)
    (hlookup : members.lookup (js "_meta") = some (.object metadata)) :
    (members.flatMap fun member => scrubMember keepEmptyMeta member.1 member.2) =
      if metadata.any fun member => isPrivate member.1 then
        if (withoutKeys metadata isPrivate).isEmpty && !keepEmptyMeta then
          withoutKeys members fun key => key = js "_meta"
        else assignMember (js "_meta") (.object (withoutKeys metadata isPrivate)) members
      else members := by
  induction members with
  | nil => cases hlookup
  | cons member rest ih =>
      obtain ⟨name, value⟩ := member
      obtain ⟨hfresh, hrest⟩ := List.nodup_cons.mp hnodup
      rw [List.flatMap_cons]
      by_cases hname : name = js "_meta"
      · subst hname
        rw [List.lookup_cons_self] at hlookup
        cases hlookup
        have hkept : withoutKeys rest (fun key => key = js "_meta") = rest := by
          rw [withoutKeys, List.filter_eq_self]
          intro member hmem
          have hne : member.1 ≠ js "_meta" := by
            intro hsame
            have hlisted : member.1 ∈ rest.map Prod.fst := List.mem_map_of_mem hmem
            rw [hsame] at hlisted
            exact hfresh hlisted
          simp [hne]
        rw [flatMap_scrubMember_fresh hfresh]
        cases hany : metadata.any fun member => isPrivate member.1 with
        | true =>
            rw [scrubMember, if_pos ⟨rfl, hany⟩, if_pos rfl]
            dsimp only
            split_ifs with hempty
            · rw [withoutKeys, List.filter_cons_of_neg (by simp)]
              exact hkept.symm
            · rw [assignMember, if_pos rfl]
              rfl
        | false =>
            rw [scrubMember, if_neg (by simp [hany]), if_neg Bool.false_ne_true]
            rfl
      · rw [List.lookup_cons, beq_false_of_ne (Ne.symm hname)] at hlookup
        rw [scrubMember_of_ne hname, ih hrest hlookup]
        split_ifs
        · simp [withoutKeys, hname]
        · simp [assignMember, hname]
        · rfl

/-- The fast path and the walk make one value of a root whose own `_meta` alone has private
members. -/
theorem withoutMetaKeys_eq_scrubRoot (hnodup : (members.map Prod.fst).Nodup)
    (h : NoPrivateMeta (shallowOf members)) :
    withoutMetaKeys (.object members) privateMetaKeys keepEmptyMeta =
      scrubRoot keepEmptyMeta (.object members) := by
  cases hlookup : members.lookup (js "_meta") with
  | none =>
      rw [shallowOf, hlookup] at h
      rw [scrubRoot_clean h, withoutMetaKeys, hlookup]
  | some value =>
      cases value with
      | object metadata =>
          rw [shallowOf, hlookup] at h
          cases h with
          | object _ hmembers =>
          have hself := hmembers (js "_meta", .object (withoutKeys metadata isPrivate))
            (mem_of_lookup (by rw [lookup_assignMember, if_pos rfl]))
          -- Below the root's own `_meta` nothing changes.
          have hsame : ∀ member ∈ members, scrubMember keepEmptyMeta member.1 (scrub member.2) =
              scrubMember keepEmptyMeta member.1 member.2 := by
            intro member hmem
            by_cases hname : member.1 = js "_meta"
            · have hmeta : member = (js "_meta", .object metadata) :=
                List.inj_on_of_nodup_map hnodup hmem (mem_of_lookup hlookup) hname
              rw [hmeta]
              exact scrubMember_meta hself
            · rw [scrub_clean (hmembers member (mem_assignMember_of_ne hmem hname))]
          have hany : (privateMetaKeys.any fun key => (metadata.map Prod.fst).contains key) =
              metadata.any fun member => isPrivate member.1 := by
            rw [Bool.eq_iff_iff, List.any_eq_true, List.any_eq_true]
            constructor
            · rintro ⟨key, hkey, hlisted⟩
              obtain ⟨member, hmem, rfl⟩ := List.mem_map.mp (List.contains_iff_mem.mp hlisted)
              exact ⟨member, hmem, List.contains_iff_mem.mpr hkey⟩
            · rintro ⟨member, hmem, hprivate⟩
              exact ⟨member.1, List.contains_iff_mem.mp hprivate,
                List.contains_iff_mem.mpr (List.mem_map_of_mem hmem)⟩
          rw [scrubRoot, List.flatMap_congr hsame, flatMap_scrubMember hnodup hlookup,
            withoutMetaKeys, hlookup]
          dsimp only
          rw [hany]
          rw [show privateMetaKeys.contains = isPrivate from rfl]
          cases metadata.any fun member => isPrivate member.1 with
          | false => rfl
          | true =>
              rw [if_pos rfl, if_pos rfl]
              cases (withoutKeys metadata isPrivate).isEmpty <;> cases keepEmptyMeta <;> rfl
      | _ =>
          rw [shallowOf, hlookup] at h
          rw [scrubRoot_clean h, withoutMetaKeys, hlookup]

end Root

mutual

/-- The strings in a value, the names of members apart. -/
def stringsIn : JsonValue JsNumber → List JsString
  | .string text => [text]
  | .array items => stringsInItems items
  | .object members => stringsInMembers members
  | _ => []

def stringsInItems : List (JsonValue JsNumber) → List JsString
  | [] => []
  | item :: rest => stringsIn item ++ stringsInItems rest

def stringsInMembers : Members JsNumber → List JsString
  | [] => []
  | (_, member) :: rest => stringsIn member ++ stringsInMembers rest

end

section Found

variable {stamp : JsString} {value : JsonValue JsNumber} {members metadata : Members JsNumber}

/-- A clean `_meta` is walked as a whole. -/
theorem walkedMembers_clean {isMeta : Bool}
    (h : isMeta = true → ∀ member ∈ members, isPrivate member.1 = false) :
    walkedMembers isMeta members = members := by
  rw [walkedMembers]
  split_ifs with hmeta
  · rw [withoutKeys, List.filter_eq_self]
    intro member hmem
    simp [h hmeta member hmem]
  · rfl

/-- A value with nothing private, which may itself be a `_meta`. -/
structure CleanAt (isMeta : Bool) (value : JsonValue JsNumber) : Prop where
  below : NoPrivateMeta value
  own : isMeta = true → ∀ metadata, value = .object metadata →
    ∀ member ∈ metadata, isPrivate member.1 = false

theorem CleanAt.member {isMeta : Bool} (h : CleanAt isMeta (.object members))
    {member : JsString × JsonValue JsNumber} (hmem : member ∈ members) :
    CleanAt (member.1 = js "_meta") member.2 := by
  cases h.below with
  | object hmeta hmembers =>
      refine ⟨hmembers member hmem, ?_⟩
      rintro hname metadata hvalue
      exact hmeta metadata (by rw [← of_decide_eq_true hname, ← hvalue]; exact hmem)

theorem CleanAt.item {isMeta : Bool} {items : List (JsonValue JsNumber)}
    (h : CleanAt isMeta (.array items)) {item : JsonValue JsNumber} (hmem : item ∈ items) :
    CleanAt false item := by
  cases h.below with
  | array hitems => exact ⟨hitems item hmem, fun hmeta => by cases hmeta⟩

/-- No id is beside a stamp where nothing is private. -/
theorem idsIn_clean (value : JsonValue JsNumber) : ∀ {isMeta : Bool}, CleanAt isMeta value →
    idsIn stamp isMeta value = [] := by
  induction value using value_induction with
  | scalar value hscalar =>
      intro isMeta _
      cases value with
      | array items => cases hscalar
      | object members => cases hscalar
      | _ => rfl
  | array items ih =>
      intro isMeta h
      rw [idsIn, idsInItems_eq, List.flatMap_eq_nil_iff]
      intro item hmem
      exact ih item (List.mem_reverse.mp hmem) (h.item (List.mem_reverse.mp hmem))
  | object members ih =>
      intro isMeta h
      have hown := fun hmeta => h.own hmeta members rfl
      rw [idsIn, idsInMembers_walked, walkedMembers_clean hown, List.append_eq_nil_iff]
      constructor
      · split_ifs with hmeta
        · have hnone : members.lookup lifecycleStampMetaKey = none := by
            rw [List.lookup_eq_none_iff]
            intro member hmem
            refine bne_iff_ne.mpr ?_
            rintro hsame
            have hclean := hown hmeta member hmem
            rw [← hsame] at hclean
            exact absurd hclean (by decide)
          rw [stampedId, hnone]
          rfl
        · rfl
      · rw [List.flatMap_eq_nil_iff]
        intro member hmem
        exact ih member (List.mem_reverse.mp hmem) (h.member (List.mem_reverse.mp hmem))

/-- No string is found that holds the stamp. -/
def NoneLeaked (stamp : JsString) (isMeta : Bool) (value : JsonValue JsNumber) : Prop :=
  leakedAmong stamp [value] = [] ∧ leakedIn stamp isMeta value = []

theorem leakedAmong_eq_nil {values : List (JsonValue JsNumber)} :
    leakedAmong stamp values = [] ↔ ∀ value ∈ values, leakedAmong stamp [value] = [] := by
  simp only [leakedAmong, List.filterMap_eq_nil_iff, List.mem_singleton, forall_eq]

theorem stringsInItems_eq (items : List (JsonValue JsNumber)) :
    stringsInItems items = items.flatMap stringsIn := by
  induction items with
  | nil => rfl
  | cons item rest ih => rw [stringsInItems, ih, List.flatMap_cons]

theorem stringsInMembers_eq (members : Members JsNumber) :
    stringsInMembers members = members.flatMap fun member => stringsIn member.2 := by
  induction members with
  | nil => rfl
  | cons member rest ih => rw [stringsInMembers, ih, List.flatMap_cons]

theorem noneLeaked_iff (value : JsonValue JsNumber) : ∀ {isMeta : Bool}, CleanAt isMeta value →
    (NoneLeaked stamp isMeta value ↔ ∀ text ∈ stringsIn value, ¬ stamp <:+: text) := by
  induction value using value_induction with
  | scalar value hscalar =>
      intro isMeta _
      cases value with
      | array items => cases hscalar
      | object members => cases hscalar
      | string text =>
          by_cases hpart : stamp <:+: text
          · simp [NoneLeaked, leakedAmong, includes, stringsIn, hpart]
          · simp [NoneLeaked, leakedAmong, includes, stringsIn, leakedIn, hpart]
      | _ => simp [NoneLeaked, leakedAmong, stringsIn, leakedIn]
  | array items ih =>
      intro isMeta h
      have hitems : NoneLeaked stamp isMeta (.array items) ↔
          ∀ item ∈ items, NoneLeaked stamp false item := by
        rw [NoneLeaked, leakedIn, List.append_eq_nil_iff, @leakedAmong_eq_nil stamp items,
          leakedInItems_eq, List.flatMap_eq_nil_iff]
        constructor
        · rintro ⟨-, hamong, hbelow⟩ item hmem
          exact ⟨hamong item hmem, hbelow item (List.mem_reverse.mpr hmem)⟩
        · intro hall
          exact ⟨rfl, fun item hmem => (hall item hmem).1,
            fun item hmem => (hall item (List.mem_reverse.mp hmem)).2⟩
      rw [hitems, stringsIn, stringsInItems_eq]
      constructor
      · intro hall text htext
        obtain ⟨item, hmem, hinner⟩ := List.mem_flatMap.mp htext
        exact (ih item hmem (h.item hmem)).mp (hall item hmem) text hinner
      · intro hall item hmem
        exact (ih item hmem (h.item hmem)).mpr fun text htext =>
          hall text (List.mem_flatMap.mpr ⟨item, hmem, htext⟩)
  | object members ih =>
      intro isMeta h
      have hmembers : NoneLeaked stamp isMeta (.object members) ↔
          ∀ member ∈ members, NoneLeaked stamp (member.1 = js "_meta") member.2 := by
        have hown := walkedMembers_clean fun hmeta => h.own hmeta members rfl
        rw [NoneLeaked, leakedIn, leakedInMembers_walked, hown, List.append_eq_nil_iff,
          @leakedAmong_eq_nil stamp (members.map Prod.snd), List.flatMap_eq_nil_iff]
        constructor
        · rintro ⟨-, hamong, hbelow⟩ member hmem
          exact ⟨hamong member.2 (List.mem_map_of_mem hmem),
            hbelow member (List.mem_reverse.mpr hmem)⟩
        · intro hall
          refine ⟨rfl, ?_, fun member hmem => (hall member (List.mem_reverse.mp hmem)).2⟩
          intro value hvalue
          obtain ⟨member, hmem, rfl⟩ := List.mem_map.mp hvalue
          exact (hall member hmem).1
      rw [hmembers, stringsIn, stringsInMembers_eq]
      constructor
      · intro hall text htext
        obtain ⟨member, hmem, hinner⟩ := List.mem_flatMap.mp htext
        exact (ih member hmem (h.member hmem)).mp (hall member hmem) text hinner
      · intro hall member hmem
        exact (ih member hmem (h.member hmem)).mpr fun text htext =>
          hall text (List.mem_flatMap.mpr ⟨member, hmem, htext⟩)

/-- A `_meta` is searched without its private members. -/
theorem leakedIn_withoutKeys : leakedIn stamp true (.object (withoutKeys metadata isPrivate)) =
    leakedIn stamp true (.object metadata) := by
  have hidem : walkedMembers true (withoutKeys metadata isPrivate) = walkedMembers true metadata :=
    withoutKeys_idem metadata isPrivate
  rw [leakedIn, leakedIn, leakedInMembers_walked, leakedInMembers_walked stamp true metadata, hidem]

/-- The strings found in a root are those in what the fast path serializes. -/
theorem leakedIn_shallowOf : leakedIn stamp false (shallowOf members) =
    leakedIn stamp false (.object members) := by
  rw [shallowOf]
  split
  · rename_i metadata hlookup
    rw [leakedIn, leakedIn]
    have hamong : leakedAmong stamp ((assignMember (js "_meta")
        (.object (withoutKeys metadata isPrivate)) members).map Prod.snd) =
          leakedAmong stamp (members.map Prod.snd) ∧
        leakedInMembers stamp false (assignMember (js "_meta")
          (.object (withoutKeys metadata isPrivate)) members) =
            leakedInMembers stamp false members := by
      induction members with
      | nil => cases hlookup
      | cons member rest ih =>
          obtain ⟨name, value⟩ := member
          by_cases hname : name = js "_meta"
          · subst hname
            rw [List.lookup_cons_self] at hlookup
            cases hlookup
            rw [assignMember, if_pos rfl]
            refine ⟨rfl, ?_⟩
            rw [leakedInMembers, leakedInMembers, decide_eq_true rfl, leakedIn_withoutKeys]
          · rw [List.lookup_cons, beq_false_of_ne (Ne.symm hname)] at hlookup
            obtain ⟨hamong, hbelow⟩ := ih hlookup
            rw [assignMember, if_neg hname, leakedInMembers, leakedInMembers, hbelow]
            refine ⟨?_, rfl⟩
            rw [List.map_cons, List.map_cons, leakedAmong, leakedAmong, List.filterMap_cons,
              List.filterMap_cons]
            rw [leakedAmong, leakedAmong] at hamong
            rw [hamong]
    rw [walkedMembers, walkedMembers, if_neg Bool.false_ne_true, if_neg Bool.false_ne_true,
      hamong.1, hamong.2]
  · rfl

end Found

end KyaOs.Middleware
