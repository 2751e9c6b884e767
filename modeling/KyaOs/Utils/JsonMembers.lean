import KyaOs.Utils.Utf8

/-!
# Members of JSON objects

Objects are compared member by member. A copy of an object with members left out or
assigned is described by what it answers to a lookup.
-/

open Js

namespace KyaOs

abbrev Members (D : Type) := List (JsString × JsonValue D)

section Lists

variable {α : Type}

/-- `Object.fromEntries` of the entries whose key is not dropped. -/
def withoutKeys (value : List (JsString × α)) (drop : JsString → Bool) : List (JsString × α) :=
  value.filter fun member => !drop member.1

/-- `object[name] = value` for a name that is, or becomes, a data property. -/
def assignMember (name : JsString) (value : α) : List (JsString × α) → List (JsString × α)
  | [] => [(name, value)]
  | member :: rest =>
    if member.1 = name then (name, value) :: rest else member :: assignMember name value rest

attribute [grind =] withoutKeys assignMember

theorem lookup_withoutKeys (members : List (JsString × α)) (drop : JsString → Bool)
    (name : JsString) :
    (withoutKeys members drop).lookup name = if drop name then none else members.lookup name := by
  induction members with
  | nil => simp [withoutKeys]
  | cons member rest ih =>
      obtain ⟨name', value⟩ := member
      rw [withoutKeys] at ih
      rw [withoutKeys, List.filter_cons]
      by_cases hsame : name = name'
      · subst hsame
        cases hdrop : drop name with
        | false => simp
        | true => simpa [hdrop] using ih
      · cases hdrop : drop name' with
        | false => simp [List.lookup_cons, beq_false_of_ne hsame, ih]
        | true => simp [List.lookup_cons, beq_false_of_ne hsame, ih]

theorem withoutKeys_idem (members : List (JsString × α)) (drop : JsString → Bool) :
    withoutKeys (withoutKeys members drop) drop = withoutKeys members drop := by
  rw [withoutKeys, withoutKeys, List.filter_filter]
  simp only [Bool.and_self]

theorem lookup_assignMember (members : List (JsString × α)) (name name' : JsString) (value : α) :
    (assignMember name value members).lookup name' =
      if name' = name then some value else members.lookup name' := by
  induction members with
  | nil =>
      by_cases hsame : name' = name
      · simp [assignMember, hsame]
      · simp [assignMember, List.lookup_cons, hsame, beq_false_of_ne hsame]
  | cons member rest ih =>
      obtain ⟨key, old⟩ := member
      rw [assignMember]
      by_cases hkey : key = name
      · subst hkey
        by_cases hsame : name' = key
        · simp [hsame]
        · simp [List.lookup_cons, hsame, beq_false_of_ne hsame]
      · simp only [hkey, if_false, List.lookup_cons, ih]
        by_cases hsame : name' = name
        · subst hsame
          simp [beq_false_of_ne (Ne.symm hkey)]
        · simp [hsame]

theorem map_fst_assignMember (members : List (JsString × α)) (name : JsString) (value : α) :
    (assignMember name value members).map Prod.fst =
      if name ∈ members.map Prod.fst then members.map Prod.fst
      else members.map Prod.fst ++ [name] := by
  induction members with
  | nil => simp [assignMember]
  | cons member rest ih =>
      rw [assignMember]
      by_cases hsame : member.1 = name
      · simp [hsame]
      · simp only [hsame, if_false, List.map_cons, ih, List.mem_cons, Ne.symm hsame, false_or]
        split <;> rfl

/-- A member assigned as it was. -/
theorem assignMember_self {members : List (JsString × α)} {name : JsString} {value : α}
    (h : members.lookup name = some value) : assignMember name value members = members := by
  induction members with
  | nil => cases h
  | cons member rest ih =>
      obtain ⟨key, first⟩ := member
      rw [assignMember]
      by_cases hsame : key = name
      · subst hsame
        rw [List.lookup_cons_self] at h
        cases h
        simp
      · rw [List.lookup_cons, beq_false_of_ne (Ne.symm hsame)] at h
        rw [if_neg hsame, ih h]

theorem mem_assignMember_of_ne {members : List (JsString × α)} {name : JsString} {value : α}
    {member : JsString × α} (h : member ∈ members) (hne : member.1 ≠ name) :
    member ∈ assignMember name value members := by
  induction members with
  | nil => cases h
  | cons first rest ih =>
      rw [assignMember]
      split_ifs with hsame
      · cases List.mem_cons.mp h with
        | inl hfirst => exact absurd (hfirst ▸ hsame) hne
        | inr hrest => exact List.mem_cons_of_mem _ hrest
      · cases List.mem_cons.mp h with
        | inl hfirst => exact hfirst ▸ List.mem_cons_self
        | inr hrest => exact List.mem_cons_of_mem _ (ih hrest)

/-- A new name comes last. -/
theorem assignMember_new {members : List (JsString × α)} {name : JsString} (value : α)
    (h : name ∉ members.map Prod.fst) :
    assignMember name value members = members ++ [(name, value)] := by
  induction members with
  | nil => rfl
  | cons member rest ih =>
      rw [List.map_cons, List.mem_cons, not_or] at h
      rw [assignMember, if_neg (Ne.symm h.1), ih h.2, List.cons_append]

/-- The one member of a name, before the others. -/
theorem perm_withoutKeys {members : List (JsString × α)} {name : JsString} {value : α}
    (hkeys : (members.map Prod.fst).Nodup) (h : members.lookup name = some value) :
    members.Perm ((name, value) :: withoutKeys members fun key => key = name) := by
  induction members with
  | nil => cases h
  | cons member rest ih =>
      obtain ⟨key, first⟩ := member
      obtain ⟨hfresh, hrest⟩ := List.nodup_cons.mp hkeys
      rw [withoutKeys, List.filter_cons]
      by_cases hsame : key = name
      · subst hsame
        rw [List.lookup_cons_self] at h
        cases h
        have hkept : rest.filter (fun member => !decide (member.1 = key)) = rest := by
          rw [List.filter_eq_self]
          intro member hmember
          simpa using fun heq => hfresh (List.mem_map.mpr ⟨member, hmember, heq⟩)
        simp [hkept]
      · rw [List.lookup_cons, beq_false_of_ne (Ne.symm hsame)] at h
        simp only [hsame, decide_false, Bool.not_false, if_true]
        exact ((ih hrest h).cons _).trans (List.Perm.swap _ _ _)

theorem nodup_assignMember {members : List (JsString × α)} (name : JsString) (value : α)
    (h : (members.map Prod.fst).Nodup) :
    ((assignMember name value members).map Prod.fst).Nodup := by
  rw [map_fst_assignMember]
  split
  · exact h
  · rename_i hfresh
    simpa [List.nodup_append, h] using fun name' value hmem heq =>
      hfresh (List.mem_map.mpr ⟨(name', value), hmem, heq⟩)

theorem mem_assignMember {members : List (JsString × α)} {name : JsString} {value : α}
    {member : JsString × α} (h : member ∈ assignMember name value members) :
    member = (name, value) ∨ member ∈ members := by
  induction members with
  | nil => exact .inl (List.mem_singleton.mp h)
  | cons first rest ih =>
      rw [assignMember] at h
      split at h
      · exact (List.mem_cons.mp h).imp_right (List.mem_cons_of_mem _)
      · cases List.mem_cons.mp h with
        | inl hfirst => exact .inr (hfirst ▸ List.mem_cons_self)
        | inr hrest => exact (ih hrest).imp_right (List.mem_cons_of_mem _)

end Lists

section Objects

open JsonValue

variable {D : Type} {numbers : Doubles D}

theorem wellFormed_withoutKeys {members : Members D} (h : (JsonValue.object members).WellFormed)
    (drop : JsString → Bool) : (JsonValue.object (withoutKeys members drop)).WellFormed := by
  cases h with
  | object hkeys hmembers =>
  refine .object (hkeys.sublist (List.Sublist.map _ List.filter_sublist)) ?_
  intro member hmember
  exact hmembers member (List.mem_of_mem_filter hmember)

theorem wellFormed_assignMember {members : Members D} (h : (JsonValue.object members).WellFormed)
    {value : JsonValue D} (hvalue : value.WellFormed) (name : JsString) :
    (JsonValue.object (assignMember name value members)).WellFormed := by
  cases h with
  | object hkeys hmembers =>
  refine .object (nodup_assignMember name value hkeys) ?_
  intro member hmember
  cases mem_assignMember hmember with
  | inl hassigned => exact hassigned ▸ hvalue
  | inr hold => exact hmembers member hold

theorem wellFormed_lookup {members : Members D} (h : (JsonValue.object members).WellFormed)
    {name : JsString} {value : JsonValue D} (hlookup : members.lookup name = some value) :
    value.WellFormed := by
  cases h with
  | object hkeys hmembers =>
  obtain ⟨before, after, hlisted, -⟩ := List.lookup_eq_some_iff.mp hlookup
  exact hmembers (name, value) (by simp [hlisted])

theorem JsonValue.WellFormed.get? {v w : JsonValue D} {path : List Json.Step}
    (hv : v.WellFormed) (h : v.get? path = some w) : w.WellFormed := by
  induction path generalizing v with
  | nil => exact Option.some.inj h ▸ hv
  | cons step path ih =>
      obtain ⟨u, hchild, hpath⟩ := Option.bind_eq_some_iff.mp h
      refine ih ?_ hpath
      cases v with
      | array items =>
          cases hv with
          | array hitems =>
          cases step with
          | index i => exact hitems u (List.mem_of_getElem? hchild)
          | key name => cases hchild
      | object members =>
          cases step with
          | index i => cases hchild
          | key name => exact wellFormed_lookup hv hchild
      | _ => cases hchild

/-- Values that are the same are the same below every step. -/
theorem JsonValue.Same.child {v w : JsonValue D} (h : Same numbers v w) (step : Json.Step) :
    Option.Rel (Same numbers) (v.child step) (w.child step) := by
  have hpath : ∀ path, Option.Rel (NodeSame numbers) ((v.child step).bind (get? · path))
      ((w.child step).bind (get? · path)) := fun path => h (step :: path)
  cases hv : v.child step with
  | none =>
      cases hw : w.child step with
      | none => exact .none
      | some w' => simpa [hv, hw, get?] using hpath []
  | some v' =>
      cases hw : w.child step with
      | none => simpa [hv, hw, get?] using hpath []
      | some w' => exact .some fun path => by simpa [hv, hw] using hpath path

/-- Objects are the same exactly when each name has the same member. -/
theorem same_object_iff {members members' : Members D} :
    Same numbers (.object members) (.object members') ↔
      ∀ name, Option.Rel (Same numbers) (members.lookup name) (members'.lookup name) := by
  constructor
  · intro h name
    exact h.child (.key name)
  · intro h path
    cases path with
    | nil => exact .some (.object members members')
    | cons step path =>
        cases step with
        | index i => exact .none
        | key name =>
            have hname := h name
            rw [get?, get?, child, child]
            revert hname
            cases members.lookup name with
            | none =>
                cases members'.lookup name with
                | none => exact fun _ => .none
                | some w => exact fun hname => by cases hname
            | some v =>
                cases members'.lookup name with
                | none => exact fun hname => by cases hname
                | some w =>
                    intro hname
                    exact Option.rel_some_some.mp hname path

theorem JsonValue.Same.withoutKeys {members members' : Members D}
    (h : Same numbers (.object members) (.object members')) (drop : JsString → Bool) :
    Same numbers (.object (withoutKeys members drop)) (.object (withoutKeys members' drop)) := by
  rw [same_object_iff] at h ⊢
  intro name
  rw [lookup_withoutKeys, lookup_withoutKeys]
  split
  · exact .none
  · exact h name

@[simp] theorem same_string {s t : JsString} :
    Same numbers (.string s) (.string t) ↔ s = t := by
  constructor
  · intro h
    have hnode := h []
    simp only [get?, Option.rel_some_some] at hnode
    cases hnode
    rfl
  · rintro rfl path
    cases path with
    | nil => exact .some (.string s)
    | cons step path => exact .none

/-- One canonical UTF-8 text is of one value. -/
theorem same_of_encodeUtf8 (hprints : numbers.Prints) {v w : JsonValue D} (hv : v.WellFormed)
    (hw : w.WellFormed) {text text' : JsString} (htext : canonicalizeJson numbers v = .ok text)
    (htext' : canonicalizeJson numbers w = .ok text')
    (hbytes : encodeUtf8 text = encodeUtf8 text') : Same numbers v w := by
  obtain ⟨hsupported, rfl⟩ := (serialize_ok hprints hv _ _).mp htext
  obtain ⟨hsupported', rfl⟩ := (serialize_ok hprints hw _ _).mp htext'
  rw [← canonicalText_eq_iff hprints hv hw hsupported hsupported']
  exact encodeUtf8_injective (hasLoneSurrogate_canonicalText hprints hsupported)
    (hasLoneSurrogate_canonicalText hprints hsupported') hbytes

end Objects

end KyaOs
