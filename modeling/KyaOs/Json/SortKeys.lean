import KyaOs.Json.RoundTrip
import Mathlib.Data.List.Sort

/-!
# Text with sorted member names

`sortKeys` rebuilds a value with its member names sorted by code units, and
`sameShown_iff` says what the text of the result decides: whether two values are
the same up to the order of members, as far as JSON text shows them.
-/

open Js

namespace Json

/-- The number of an array-index name, which a property order puts first. -/
def arrayIndex? (name : JsString) : Option Nat :=
  if name ≠ [] ∧ name.all isDigit = true ∧ (name.head? = some 0x30 → name.length = 1) then
    let index := name.foldl (fun n u => 10 * n + digitValue u) 0
    if index < 2 ^ 32 - 1 then some index else none
  else none

section Order

variable {α β : Type}

/-- `Object.keys(record).sort()`, with the members. -/
def byName (members : List (JsString × α)) : List (JsString × α) :=
  members.mergeSort fun m n => decide (m.1 ≤ n.1)

/-- The property order of an object given its members in this order. -/
def propertyOrder (members : List (JsString × α)) : List (JsString × α) :=
  ((members.filter fun m => (arrayIndex? m.1).isSome).mergeSort
      fun m n => decide ((arrayIndex? m.1).getD 0 ≤ (arrayIndex? n.1).getD 0)) ++
    members.filter fun m => !(arrayIndex? m.1).isSome

theorem propertyOrder_perm (members : List (JsString × α)) :
    (propertyOrder members).Perm members :=
  ((List.mergeSort_perm _ _).append_right _).trans (List.filter_append_perm _ _)

theorem byName_perm (members : List (JsString × α)) : (byName members).Perm members :=
  List.mergeSort_perm _ _

/-- Sorting looks at names only. -/
theorem map_byName (f : JsString × α → β) (members : List (JsString × α)) :
    (byName members).map (fun m => (m.1, f m)) = byName (members.map fun m => (m.1, f m)) :=
  List.map_mergeSort fun _ _ _ _ => rfl

theorem map_propertyOrder (f : α → β) (members : List (JsString × α)) :
    (propertyOrder members).map (fun m => (m.1, f m.2)) =
      propertyOrder (members.map fun m => (m.1, f m.2)) := by
  have hsort : ∀ l : List (JsString × α),
      (l.mergeSort fun m n =>
        decide ((arrayIndex? m.1).getD 0 ≤ (arrayIndex? n.1).getD 0)).map (fun m => (m.1, f m.2)) =
      (l.map fun m => (m.1, f m.2)).mergeSort fun m n =>
        decide ((arrayIndex? m.1).getD 0 ≤ (arrayIndex? n.1).getD 0) :=
    fun _ => List.map_mergeSort fun _ _ _ _ => rfl
  rw [propertyOrder, List.map_append, hsort, propertyOrder, List.filter_map, List.filter_map]
  rfl

/-- Members with distinct names have one sorted order. -/
theorem byName_eq_of_perm {members members' : List (JsString × α)}
    (hkeys : (members.map Prod.fst).Nodup) (h : members.Perm members') :
    byName members = byName members' := by
  have hperm : (byName members).Perm (byName members') :=
    (byName_perm members).trans (h.trans (byName_perm members').symm)
  have hsorted : ∀ l : List (JsString × α), (byName l).Pairwise fun m n => m.1 ≤ n.1 := fun l =>
    (List.pairwise_mergeSort
      (fun a b c hab hbc => by
        simp only [decide_eq_true_eq] at *
        exact List.le_trans hab hbc)
      (fun a b => by simpa using List.le_total a.1 b.1) l).imp fun h => by simpa using h
  refine hperm.eq_of_pairwise ?_ (hsorted _) (hsorted _)
  intro m n hm hn hle hge
  have hm' : m ∈ members := (byName_perm members).mem_iff.mp hm
  have hn' : n ∈ members := h.mem_iff.mpr ((byName_perm members').mem_iff.mp hn)
  exact List.inj_on_of_nodup_map hkeys hm' hn' (List.le_antisymm hle hge)

end Order

mutual

/-- The value rebuilt with sorted member names. -/
def sortKeys : Json → Json
  | .array items => .array (sortItems items)
  | .object members => .object (propertyOrder (byName (sortMembers members)))
  | v => v

def sortItems : List Json → List Json
  | [] => []
  | item :: rest => sortKeys item :: sortItems rest

def sortMembers : List (JsString × Json) → List (JsString × Json)
  | [] => []
  | (name, v) :: rest => (name, sortKeys v) :: sortMembers rest

end

theorem sortItems_eq (items : List Json) : sortItems items = items.map sortKeys := by
  induction items with
  | nil => rfl
  | cons item rest ih => rw [sortItems, ih, List.map_cons]

theorem sortMembers_eq (members : List (JsString × Json)) :
    sortMembers members = members.map fun m => (m.1, sortKeys m.2) := by
  induction members with
  | nil => rfl
  | cons member rest ih => rw [sortMembers, ih, List.map_cons]

theorem sorted_perm (members : List (JsString × Json)) :
    (propertyOrder (byName (sortMembers members))).Perm
      (members.map fun m => (m.1, sortKeys m.2)) := by
  rw [← sortMembers_eq]
  exact (propertyOrder_perm _).trans (byName_perm _)

theorem wellFormed_sortKeys {v : Json} (hv : v.WellFormed) : (sortKeys v).WellFormed := by
  induction hv with
  | null => exact .null
  | bool b => exact .bool b
  | number n => exact .number n
  | string s => exact .string s
  | array h ih =>
      rw [sortKeys, sortItems_eq]
      refine .array fun item hmem => ?_
      obtain ⟨item', hmem', rfl⟩ := List.mem_map.mp hmem
      exact ih item' hmem'
  | @object members hkeys h ih =>
      have hperm := sorted_perm members
      rw [sortKeys]
      refine .object ?_ fun member hmem => ?_
      · rw [(hperm.map Prod.fst).nodup_iff, List.map_map]
        exact hkeys
      · obtain ⟨member', hmem', rfl⟩ := List.mem_map.mp (hperm.mem_iff.mp hmem)
        exact ih member' hmem'

theorem lookup_map_snd (f : Json → Json) (members : List (JsString × Json)) (name : JsString) :
    (members.map fun m => (m.1, f m.2)).lookup name = (members.lookup name).map f := by
  induction members with
  | nil => rfl
  | cons member rest ih =>
      obtain ⟨name', v⟩ := member
      simp only [List.map_cons, List.lookup_cons, ih]
      split <;> rfl

theorem child_sortKeys {v : Json} (hv : v.WellFormed) (step : Step) :
    (sortKeys v).child step = (v.child step).map sortKeys := by
  cases hv with
  | @array items h =>
      cases step with
      | index i => simp [sortKeys, child, sortItems_eq]
      | key name => rfl
  | @object members hkeys h =>
      cases step with
      | index i => rfl
      | key name =>
          rw [sortKeys, child, child, ← lookup_map_snd]
          exact (lookup_perm (by rw [List.map_map]; exact hkeys)
            (sorted_perm members).symm name).symm
  | _ => rfl

theorem wellFormed_child {v w : Json} {step : Step} (hv : v.WellFormed)
    (h : v.child step = some w) : w.WellFormed := by
  cases hv with
  | array hitems =>
      cases step with
      | index i => exact hitems w (List.mem_of_getElem? h)
      | key name => cases h
  | object hkeys hmembers =>
      cases step with
      | index i => cases h
      | key name => exact hmembers _ ((lookup_eq_some_iff hkeys).mp h)
  | _ => cases h

/-- Sorting the names changes only the order of members. -/
theorem same_sortKeys {v : Json} (hv : v.WellFormed) : Same (sortKeys v) v := by
  intro path
  induction path generalizing v with
  | nil => cases v <;> rfl
  | cons step path ih =>
      rw [nodeAt_cons, nodeAt_cons, child_sortKeys hv]
      cases hchild : v.child step with
      | none => rfl
      | some w => exact ih (wellFormed_child hv hchild)

theorem stringifyItems_congr {items items' : List Json}
    (h : items.map stringify = items'.map stringify) :
    stringifyItems items = stringifyItems items' := by
  induction items generalizing items' with
  | nil =>
      obtain rfl := List.map_eq_nil_iff.mp h.symm
      rfl
  | cons item rest ih =>
      obtain ⟨item', rest', rfl, hitem, hrest⟩ := List.map_eq_cons_iff.mp h.symm
      have htail := ih hrest.symm
      match rest, rest' with
      | [], [] => exact hitem.symm
      | [], _ :: _ => simp at hrest
      | _ :: _, [] => simp at hrest
      | next :: rest, next' :: rest' => rw [stringifyItems, stringifyItems, hitem, htail]

theorem stringifyMembers_congr {members members' : List (JsString × Json)}
    (h : members.map (fun m => (m.1, stringify m.2)) =
      members'.map fun m => (m.1, stringify m.2)) :
    stringifyMembers members = stringifyMembers members' := by
  induction members generalizing members' with
  | nil =>
      obtain rfl := List.map_eq_nil_iff.mp h.symm
      rfl
  | cons member rest ih =>
      obtain ⟨member', rest', rfl, hmember, hrest⟩ := List.map_eq_cons_iff.mp h.symm
      obtain ⟨name, v⟩ := member
      obtain ⟨name', v'⟩ := member'
      obtain ⟨rfl, hv⟩ := Prod.mk.injEq _ _ _ _ ▸ hmember
      have htail := ih hrest.symm
      match rest, rest' with
      | [], [] => rw [stringifyMembers, stringifyMembers, hv]
      | [], _ :: _ => simp at hrest
      | _ :: _, [] => simp at hrest
      | next :: rest, next' :: rest' => rw [stringifyMembers, stringifyMembers, hv, htail]

theorem SameShown.child {v w : Json} (h : SameShown v w) (step : Step) {v' : Json}
    (hchild : v.child step = some v') : ∃ w', w.child step = some w' ∧ SameShown v' w' := by
  have hpath : ∀ path, ((v.nodeAt (step :: path)).map Node.shown) =
      (w.nodeAt (step :: path)).map Node.shown := fun path => h (step :: path)
  simp only [nodeAt_cons, hchild, Option.bind_some] at hpath
  cases hw : w.child step with
  | none => simpa [hw] using hpath []
  | some w' => exact ⟨w', rfl, fun path => by simpa [hw] using hpath path⟩

theorem SameShown.symm {v w : Json} (h : SameShown v w) : SameShown w v := fun path => (h path).symm

/-- A leaf's text is that of every leaf that shows the same. -/
theorem stringify_sortKeys_leaf {v w : Json} (harray : v.node ≠ .array) (hobject : v.node ≠ .object)
    (h : v.node.shown = w.node.shown) : stringify (sortKeys v) = stringify (sortKeys w) := by
  cases v with
  | array items => exact absurd rfl harray
  | object members => exact absurd rfl hobject
  | null => cases w with
    | number n => cases n with
      | infinity negative => rfl
      | finite text => cases h
    | null => rfl
    | _ => cases h
  | bool b => cases w with
    | number n => cases n <;> cases h
    | bool b' => cases h; rfl
    | _ => cases h
  | string s => cases w with
    | number n => cases n <;> cases h
    | string s' => cases h; rfl
    | _ => cases h
  | number n => cases n with
    | infinity negative => cases w with
      | number n' => cases n' with
        | infinity negative' => rfl
        | finite text => cases h
      | null => rfl
      | _ => cases h
    | finite text => cases w with
      | number n' => cases n' with
        | infinity negative => cases h
        | finite text' => cases h; rfl
      | _ => cases h

theorem eq_array_of_shown {w : Json} (h : w.node.shown = .array) : ∃ items, w = .array items := by
  cases w with
  | array items => exact ⟨items, rfl⟩
  | number n => cases n <;> cases h
  | _ => cases h

theorem eq_object_of_shown {w : Json} (h : w.node.shown = .object) :
    ∃ members, w = .object members := by
  cases w with
  | object members => exact ⟨members, rfl⟩
  | number n => cases n <;> cases h
  | _ => cases h

/-- Distinctly named members with the same images under the same names are a
reordering of each other. -/
theorem images_perm {β : Type} (f : Json → β) {members members' : List (JsString × Json)}
    (hkeys : (members.map Prod.fst).Nodup) (hkeys' : (members'.map Prod.fst).Nodup)
    (h : ∀ name, (members.lookup name).map f = (members'.lookup name).map f) :
    (members.map fun m => (m.1, f m.2)).Perm (members'.map fun m => (m.1, f m.2)) := by
  have hnodup : ∀ {ms : List (JsString × Json)}, (ms.map Prod.fst).Nodup →
      (ms.map fun m => (m.1, f m.2)).Nodup := fun hk =>
    List.Nodup.of_map Prod.fst (by rw [List.map_map]; exact hk)
  have hmem : ∀ {ms : List (JsString × Json)}, (ms.map Prod.fst).Nodup → ∀ name image,
      (name, image) ∈ ms.map (fun m => (m.1, f m.2)) ↔ (ms.lookup name).map f = some image := by
    intro ms hk name image
    rw [List.mem_map, Option.map_eq_some_iff]
    constructor
    · rintro ⟨⟨name', v⟩, hin, hsame⟩
      cases hsame
      exact ⟨v, (lookup_eq_some_iff hk).mpr hin, rfl⟩
    · rintro ⟨v, hin, rfl⟩
      exact ⟨(name, v), (lookup_eq_some_iff hk).mp hin, rfl⟩
  refine (List.perm_ext_iff_of_nodup (hnodup hkeys) (hnodup hkeys')).mpr ?_
  rintro ⟨name, image⟩
  rw [hmem hkeys, hmem hkeys', h]

theorem stringify_sortKeys_of_sameShown {v w : Json} (hv : v.WellFormed) (hw : w.WellFormed)
    (h : SameShown v w) : stringify (sortKeys v) = stringify (sortKeys w) := by
  have hnode : v.node.shown = w.node.shown := by simpa using h []
  induction hv generalizing w with
  | @array items hitems ih =>
      obtain ⟨items', rfl⟩ := eq_array_of_shown hnode.symm
      cases hw with
      | array hitems' =>
      rw [sortKeys, sortKeys, stringify, stringify, sortItems_eq, sortItems_eq]
      refine congrArg (fun text => 0x5B :: text ++ [0x5D]) (stringifyItems_congr ?_)
      refine List.ext_getElem? fun i => ?_
      simp only [List.getElem?_map]
      cases hi : items[i]? with
      | none =>
          cases hi' : items'[i]? with
          | none => rfl
          | some item' =>
              obtain ⟨item, hitem, -⟩ := h.symm.child (.index i) hi'
              rw [child, hi] at hitem
              cases hitem
      | some item =>
          obtain ⟨item', hitem', hsame⟩ := h.child (.index i) hi
          rw [child] at hitem'
          have := ih item (List.mem_of_getElem? hi) (hitems' item' (List.mem_of_getElem? hitem'))
            hsame (by simpa using hsame [])
          simp [hitem', this]
  | @object members hkeys hmembers ih =>
      obtain ⟨members', rfl⟩ := eq_object_of_shown hnode.symm
      cases hw with
      | object hkeys' hmembers' =>
      rw [sortKeys, sortKeys, stringify, stringify]
      refine congrArg (fun text => 0x7B :: text ++ [0x7D]) (stringifyMembers_congr ?_)
      have htexts := images_perm (fun v => stringify (sortKeys v)) hkeys hkeys' fun name => ?_
      · rw [map_propertyOrder, map_propertyOrder, map_byName, map_byName, sortMembers_eq,
          sortMembers_eq, List.map_map, List.map_map]
        refine congrArg propertyOrder (byName_eq_of_perm ?_ htexts)
        rw [List.map_map]
        exact hkeys
      · cases hname : members.lookup name with
        | none =>
            cases hname' : members'.lookup name with
            | none => rfl
            | some v' =>
                obtain ⟨v, hlookup, -⟩ := h.symm.child (.key name) hname'
                rw [child, hname] at hlookup
                cases hlookup
        | some v =>
            obtain ⟨v', hname', hsame⟩ := h.child (.key name) hname
            rw [child] at hname'
            have := ih (name, v) ((lookup_eq_some_iff hkeys).mp hname)
              (hmembers' (name, v') ((lookup_eq_some_iff hkeys').mp hname')) hsame
              (by simpa using hsame [])
            simp [hname', this]
  | _ => exact stringify_sortKeys_leaf (by simp [node]) (by simp [node]) hnode

/-- The sorted text decides sameness, as far as text shows it. -/
theorem sameShown_iff {v w : Json} (hv : v.WellFormed) (hw : w.WellFormed) :
    stringify (sortKeys v) = stringify (sortKeys w) ↔ SameShown v w := by
  refine ⟨fun h path => ?_, stringify_sortKeys_of_sameShown hv hw⟩
  have hshown := sameShown_of_stringify (wellFormed_sortKeys hv) (wellFormed_sortKeys hw) h path
  rwa [same_sortKeys hv, same_sortKeys hw] at hshown

end Json
