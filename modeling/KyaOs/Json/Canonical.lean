import KyaOs.Json.SortKeys

/-!
# Canonical form

`canon` lists the members of every object in the order of their names' code
units. Two values with distinct member names have one canonical form exactly
when they are the same, so a canonical form's text is injective up to the order
of members.
-/

open Js

namespace Json

mutual

/-- The value with the members of every object in name order. -/
def canon : Json → Json
  | .array items => .array (canonItems items)
  | .object members => .object (byName (canonMembers members))
  | v => v

def canonItems : List Json → List Json
  | [] => []
  | item :: rest => canon item :: canonItems rest

def canonMembers : List (JsString × Json) → List (JsString × Json)
  | [] => []
  | (name, v) :: rest => (name, canon v) :: canonMembers rest

end

theorem canonItems_eq (items : List Json) : canonItems items = items.map canon := by
  induction items with
  | nil => rfl
  | cons item rest ih => rw [canonItems, ih, List.map_cons]

theorem canonMembers_eq (members : List (JsString × Json)) :
    canonMembers members = members.map fun m => (m.1, canon m.2) := by
  induction members with
  | nil => rfl
  | cons member rest ih => rw [canonMembers, ih, List.map_cons]

theorem canon_perm (members : List (JsString × Json)) :
    (byName (canonMembers members)).Perm (members.map fun m => (m.1, canon m.2)) := by
  rw [← canonMembers_eq]
  exact byName_perm _

theorem wellFormed_canon {v : Json} (hv : v.WellFormed) : (canon v).WellFormed := by
  induction hv with
  | null => exact .null
  | bool b => exact .bool b
  | number n => exact .number n
  | string s => exact .string s
  | array h ih =>
      rw [canon, canonItems_eq]
      apply WellFormed.array
      intro item hmem
      obtain ⟨item', hmem', rfl⟩ := List.mem_map.mp hmem
      exact ih item' hmem'
  | @object members hkeys h ih =>
      rw [canon]
      apply WellFormed.object
      · rw [((canon_perm members).map Prod.fst).nodup_iff, List.map_map]
        exact hkeys
      · intro member hmem
        obtain ⟨member', hmem', rfl⟩ := List.mem_map.mp ((canon_perm members).mem_iff.mp hmem)
        exact ih member' hmem'

theorem child_canon {v : Json} (hv : v.WellFormed) (step : Step) :
    (canon v).child step = (v.child step).map canon := by
  cases hv with
  | @array items h =>
      cases step with
      | index i => simp [canon, child, canonItems_eq]
      | key name => rfl
  | @object members hkeys h =>
      cases step with
      | index i => rfl
      | key name =>
          rw [canon, child, child, ← lookup_map_snd]
          exact (lookup_perm (by rw [List.map_map]; exact hkeys) (canon_perm members).symm
            name).symm
  | _ => rfl

/-- The canonical form changes only the order of members. -/
theorem same_canon {v : Json} (hv : v.WellFormed) : Same (canon v) v := by
  intro path
  induction path generalizing v with
  | nil => cases v <;> rfl
  | cons step path ih =>
      rw [nodeAt_cons, nodeAt_cons, child_canon hv]
      cases hchild : v.child step with
      | none => rfl
      | some w => exact ih (wellFormed_child hv hchild)

theorem Same.child {v w : Json} (h : Same v w) (step : Step) {v' : Json}
    (hchild : v.child step = some v') : ∃ w', w.child step = some w' ∧ Same v' w' := by
  have hpath : ∀ path, v.nodeAt (step :: path) = w.nodeAt (step :: path) :=
    fun path => h (step :: path)
  simp only [nodeAt_cons, hchild, Option.bind_some] at hpath
  cases hw : w.child step with
  | none => simpa [hw] using hpath []
  | some w' => exact ⟨w', rfl, fun path => by simpa [hw] using hpath path⟩

/-- Same values have the same canonical children. -/
theorem Same.map_canon_child {v w : Json} (h : Same v w) (step : Step)
    (hchildren : ∀ v' w', v.child step = some v' → w.child step = some w' → Same v' w' →
      canon v' = canon w') :
    (v.child step).map canon = (w.child step).map canon := by
  cases hv : v.child step with
  | none =>
      cases hw : w.child step with
      | none => rfl
      | some w' =>
          obtain ⟨v', hv', -⟩ := Same.child (fun path => (h path).symm) step hw
          rw [hv] at hv'
          cases hv'
  | some v' =>
      obtain ⟨w', hw, hsame⟩ := h.child step hv
      rw [hw, Option.map_some, Option.map_some, hchildren v' w' hv hw hsame]

theorem canon_eq_of_same {v w : Json} (hv : v.WellFormed) (hw : w.WellFormed) (h : Same v w) :
    canon v = canon w := by
  have hnode : v.node = w.node := by simpa using h []
  induction hv generalizing w with
  | @array items hitems ih =>
      obtain ⟨items', rfl⟩ : ∃ items', w = .array items' := by cases w <;> simp_all [node]
      cases hw with
      | array hitems' =>
      rw [canon, canon, canonItems_eq, canonItems_eq, array.injEq]
      apply List.ext_getElem?
      intro i
      rw [List.getElem?_map, List.getElem?_map]
      apply h.map_canon_child (.index i)
      intro item item' hitem hitem' hsame
      exact ih item (List.mem_of_getElem? hitem) (hitems' item' (List.mem_of_getElem? hitem'))
        hsame (by simpa using hsame [])
  | @object members hkeys hmembers ih =>
      obtain ⟨members', rfl⟩ : ∃ members', w = .object members' := by cases w <;> simp_all [node]
      cases hw with
      | object hkeys' hmembers' =>
      rw [canon, canon, canonMembers_eq, canonMembers_eq, object.injEq]
      apply byName_eq_of_perm
      · rw [List.map_map]
        exact hkeys
      · apply images_perm canon hkeys hkeys'
        intro name
        apply h.map_canon_child (.key name)
        intro v v' hname hname' hsame
        exact ih (name, v) ((lookup_eq_some_iff hkeys).mp hname)
          (hmembers' (name, v') ((lookup_eq_some_iff hkeys').mp hname')) hsame
          (by simpa using hsame [])
  | _ => cases w <;> simp_all [node]

/-- Two values have one canonical form exactly when they are the same. -/
theorem canon_eq_iff {v w : Json} (hv : v.WellFormed) (hw : w.WellFormed) :
    canon v = canon w ↔ Same v w := by
  constructor
  · intro h path
    rw [← same_canon hv path, h, same_canon hw path]
  · exact canon_eq_of_same hv hw

/-- What a canonical text shows is the canonical form of what the value shows. -/
theorem shown_canon {v : Json} (hv : v.WellFormed) : shown (canon v) = canon (shown v) := by
  induction hv with
  | number n => cases n <;> rfl
  | @array items h ih =>
      simp only [canon, shown, canonItems_eq, shownItems_eq, List.map_map, array.injEq]
      exact List.map_congr_left ih
  | @object members hkeys h ih =>
      have hshown : ∀ ms : List (JsString × Json),
          shownMembers ms = ms.map fun m => (m.1, shown m.2) := by
        intro ms
        induction ms with
        | nil => rfl
        | cons m rest ih => rw [shownMembers, ih, List.map_cons]
      simp only [canon, shown, canonMembers_eq, hshown, object.injEq]
      rw [map_byName (fun m : JsString × Json => shown m.2), List.map_map, List.map_map]
      apply congrArg byName
      apply List.map_congr_left
      intro member hmem
      simp [ih member hmem]
  | _ => rfl

/-- `stringifyItems` is the texts of the items, joined. -/
theorem stringifyItems_eq (items : List Json) :
    stringifyItems items = (js ",").intercalate (items.map stringify) := by
  induction items with
  | nil => rfl
  | cons item rest ih =>
      cases rest with
      | nil => simp [stringifyItems]
      | cons next rest =>
          rw [stringifyItems, ih]
          rfl

theorem stringifyMembers_eq (members : List (JsString × Json)) :
    stringifyMembers members =
      (js ",").intercalate (members.map fun m => quote m.1 ++ 0x3A :: stringify m.2) := by
  induction members with
  | nil => rfl
  | cons member rest ih =>
      cases rest with
      | nil => simp [stringifyMembers]
      | cons next rest =>
          rw [stringifyMembers, ih]
          simp [js, units]

end Json
