import KyaOs.Utils.CanonicalJson

/-!
# Canonical JSON is injective

`serialize` accepts exactly the supported values, and what it writes is the text of
the canonical form of the value with its numbers as texts. So two accepted values
have one text exactly when they are the same, a text reads back as the value, and
the order of members does not matter.
-/

open Js

namespace KyaOs

section Canonical

variable {D : Type} {numbers : Doubles D}

/-- What `serialize` accepts. -/
inductive JsonValue.Supported (numbers : Doubles D) : JsonValue D → Prop
  | null : Supported numbers .null
  | bool (value : Bool) : Supported numbers (.bool value)
  | number {value : D} (hfinite : numbers.isFinite value = true)
      (hsafe : ¬ (numbers.isInteger value = true ∧ ¬ numbers.isSafeInteger value = true)) :
      Supported numbers (.number value)
  | string {value : JsString} (h : hasLoneSurrogate value = false) :
      Supported numbers (.string value)
  | array {items : List (JsonValue D)} (h : ∀ item ∈ items, Supported numbers item) :
      Supported numbers (.array items)
  | object {members : List (JsString × JsonValue D)}
      (hnames : ∀ member ∈ members, hasLoneSurrogate member.1 = false)
      (h : ∀ member ∈ members, Supported numbers member.2) : Supported numbers (.object members)

namespace JsonValue

/-- A number as its text; one without a number text, which is never written, as an
infinity. -/
def toNumber (numbers : Doubles D) (x : D) : Json.Number :=
  if h : Json.isNumberText (numbers.text x) = true then .finite ⟨numbers.text x, h⟩
  else .infinity false

mutual

/-- The value with its numbers as texts. -/
def toJson (numbers : Doubles D) : JsonValue D → Json
  | .null => .null
  | .bool value => .bool value
  | .number x => .number (toNumber numbers x)
  | .string value => .string value
  | .array items => .array (toJsonItems numbers items)
  | .object members => .object (toJsonMembers numbers members)
  | .refused _ => .null

def toJsonItems (numbers : Doubles D) : List (JsonValue D) → List Json
  | [] => []
  | item :: rest => toJson numbers item :: toJsonItems numbers rest

def toJsonMembers (numbers : Doubles D) :
    List (JsString × JsonValue D) → List (JsString × Json)
  | [] => []
  | (name, v) :: rest => (name, toJson numbers v) :: toJsonMembers numbers rest

end

theorem toJsonItems_eq (items : List (JsonValue D)) :
    toJsonItems numbers items = items.map (toJson numbers) := by
  induction items with
  | nil => rfl
  | cons item rest ih => rw [toJsonItems, ih, List.map_cons]

theorem toJsonMembers_eq (members : List (JsString × JsonValue D)) :
    toJsonMembers numbers members = members.map fun m => (m.1, toJson numbers m.2) := by
  induction members with
  | nil => rfl
  | cons member rest ih => rw [toJsonMembers, ih, List.map_cons]

theorem ofJsonItems_eq (items : List Json) :
    ofJsonItems numbers items = items.map (ofJson numbers) := by
  induction items with
  | nil => rfl
  | cons item rest ih => rw [ofJsonItems, ih, List.map_cons]

theorem lookup_ofJsonMembers (members : List (JsString × Json)) (name : JsString) :
    (ofJsonMembers numbers members).lookup name = (members.lookup name).map (ofJson numbers) := by
  induction members with
  | nil => rfl
  | cons member rest ih =>
      obtain ⟨name', v⟩ := member
      simp only [ofJsonMembers, List.lookup_cons, ih]
      split <;> rfl

theorem lookup_toJsonMembers (members : List (JsString × JsonValue D)) (name : JsString) :
    (toJsonMembers numbers members).lookup name = (members.lookup name).map (toJson numbers) := by
  induction members with
  | nil => rfl
  | cons member rest ih =>
      obtain ⟨name', v⟩ := member
      simp only [toJsonMembers, List.lookup_cons, ih]
      split <;> rfl

theorem wellFormed_toJson {v : JsonValue D} (hv : v.WellFormed) :
    (toJson numbers v).WellFormed := by
  induction hv with
  | null => exact .null
  | bool value => exact .bool value
  | number x => exact .number _
  | string value => exact .string value
  | refused problem => exact .null
  | array h ih =>
      rw [toJson, toJsonItems_eq]
      apply Json.WellFormed.array
      intro item hmem
      obtain ⟨item', hmem', rfl⟩ := List.mem_map.mp hmem
      exact ih item' hmem'
  | object hkeys h ih =>
      rw [toJson, toJsonMembers_eq]
      apply Json.WellFormed.object
      · rw [List.map_map]
        exact hkeys
      · intro member hmem
        obtain ⟨member', hmem', rfl⟩ := List.mem_map.mp hmem
        exact ih member' hmem'

/-- The text of a canonical form. -/
def canonicalText (numbers : Doubles D) (v : JsonValue D) : JsString :=
  Json.stringify (Json.canon (toJson numbers v))

end JsonValue

open JsonValue

theorem mapM_ok {α β : Type} {f : α → Except Error β} {g : α → β} {p : α → Prop} {l : List α}
    (hf : ∀ a ∈ l, ∀ b, f a = .ok b ↔ p a ∧ b = g a) (bs : List β) :
    l.mapM f = .ok bs ↔ (∀ a ∈ l, p a) ∧ bs = l.map g := by
  induction l generalizing bs with
  | nil => simp [pure, Except.pure, eq_comm]
  | cons a l ih =>
      rw [List.forall_mem_cons] at hf
      rw [List.mapM_cons, bind_eq_ok, List.forall_mem_cons, List.map_cons]
      constructor
      · rintro ⟨b, hb, hrest⟩
        obtain ⟨bs', hbs', hcons⟩ := bind_eq_ok.mp hrest
        obtain ⟨hp, rfl⟩ := (hf.1 b).mp hb
        obtain ⟨hps, rfl⟩ := (ih hf.2 bs').mp hbs'
        cases hcons
        exact ⟨⟨hp, hps⟩, rfl⟩
      · rintro ⟨⟨hp, hps⟩, rfl⟩
        refine ⟨g a, (hf.1 _).mpr ⟨hp, rfl⟩, bind_eq_ok.mpr ⟨_, (ih hf.2 _).mpr ⟨hps, rfl⟩, rfl⟩⟩

theorem objectMembers_eq (path : JsString) (members : List (JsString × JsonValue D)) :
    objectMembers numbers path members =
      members.map fun m => (m.1, serialize numbers (path ++ js "." ++ m.1) m.2) := by
  induction members with
  | nil => rfl
  | cons member rest ih => rw [objectMembers, ih, List.map_cons]

theorem arrayElements_ok {items : List (JsonValue D)}
    (h : ∀ item ∈ items, ∀ path text, serialize numbers path item = .ok text ↔
      Supported numbers item ∧ text = canonicalText numbers item)
    (path : JsString) (index : Nat) (texts : List JsString) :
    arrayElements numbers path index items = .ok texts ↔
      (∀ item ∈ items, Supported numbers item) ∧ texts = items.map (canonicalText numbers) := by
  induction items generalizing index texts with
  | nil => simp [arrayElements, eq_comm]
  | cons item rest ih =>
      rw [List.forall_mem_cons] at h
      rw [arrayElements, bind_eq_ok, List.forall_mem_cons, List.map_cons]
      constructor
      · rintro ⟨text, htext, hrest⟩
        obtain ⟨texts', htexts', hcons⟩ := bind_eq_ok.mp hrest
        obtain ⟨hitem, rfl⟩ := (h.1 _ _).mp htext
        obtain ⟨hitems, rfl⟩ := (ih h.2 _ _).mp htexts'
        cases hcons
        exact ⟨⟨hitem, hitems⟩, rfl⟩
      · rintro ⟨⟨hitem, hitems⟩, rfl⟩
        exact ⟨_, (h.1 _ _).mpr ⟨hitem, rfl⟩,
          bind_eq_ok.mpr ⟨_, (ih h.2 _ _).mpr ⟨hitems, rfl⟩, rfl⟩⟩

theorem canonicalText_array (items : List (JsonValue D)) :
    canonicalText numbers (.array items) =
      0x5B :: (js ",").intercalate (items.map (canonicalText numbers)) ++ [0x5D] := by
  simp only [canonicalText, toJson, Json.canon, Json.stringify, Json.stringifyItems_eq,
    Json.canonItems_eq, toJsonItems_eq, List.map_map]
  rfl

theorem canonicalText_object (members : List (JsString × JsonValue D)) :
    canonicalText numbers (.object members) =
      0x7B :: (js ",").intercalate ((Json.byName members).map fun m =>
        Json.quote m.1 ++ 0x3A :: canonicalText numbers m.2) ++ [0x7D] := by
  simp only [canonicalText, toJson, Json.canon, Json.stringify, Json.stringifyMembers_eq,
    Json.canonMembers_eq, toJsonMembers_eq, List.map_map, Function.comp_def]
  rw [← Json.map_byName (fun m : JsString × JsonValue D => Json.canon (toJson numbers m.2)),
    List.map_map]
  rfl

theorem objectTexts_ok {members : List (JsString × JsonValue D)}
    (h : ∀ m ∈ members, ∀ path text, serialize numbers path m.2 = .ok text ↔
      Supported numbers m.2 ∧ text = canonicalText numbers m.2)
    (path : JsString) (texts : List JsString) :
    (Json.byName (objectMembers numbers path members)).mapM
        (fun member => do return Json.quote member.1 ++ 0x3A :: (← member.2)) = .ok texts ↔
      (∀ m ∈ Json.byName members, Supported numbers m.2) ∧
        texts = (Json.byName members).map fun m =>
          Json.quote m.1 ++ 0x3A :: canonicalText numbers m.2 := by
  rw [objectMembers_eq, ← Json.map_byName
    (fun m : JsString × JsonValue D => serialize numbers (path ++ js "." ++ m.1) m.2),
    List.mapM_map]
  apply mapM_ok
  intro m hin text
  have hmember := h m ((Json.byName_perm members).mem_iff.mp hin)
  rw [Function.comp_apply, bind_eq_ok]
  constructor
  · rintro ⟨value, hvalue, hout⟩
    obtain ⟨hsupported, rfl⟩ := (hmember _ _).mp hvalue
    cases hout
    exact ⟨hsupported, rfl⟩
  · rintro ⟨hsupported, rfl⟩
    exact ⟨_, (hmember _ _).mpr ⟨hsupported, rfl⟩, rfl⟩

/-- `serialize` accepts the supported values and writes their canonical text. -/
theorem serialize_ok (hprints : numbers.Prints) {v : JsonValue D} (hv : v.WellFormed)
    (path text : JsString) : serialize numbers path v = .ok text ↔
      Supported numbers v ∧ text = canonicalText numbers v := by
  induction hv generalizing path text with
  | null =>
      rw [serialize, Except.ok.injEq]
      exact ⟨fun h => ⟨.null, h.symm⟩, fun h => h.2.symm⟩
  | bool value =>
      cases value <;> rw [serialize, Except.ok.injEq] <;>
        exact ⟨fun h => ⟨.bool _, h.symm⟩, fun h => h.2.symm⟩
  | refused problem =>
      rw [serialize]
      constructor
      · intro h
        cases h
      · rintro ⟨h, -⟩
        cases h
  | string value =>
      rw [serialize]
      split
      · rename_i hlone
        constructor
        · intro h
          cases h
        · rintro ⟨h, -⟩
          cases h with
          | string hpaired => simp [hpaired] at hlone
      · rename_i hlone
        rw [Except.ok.injEq]
        exact ⟨fun h => ⟨.string (by simpa using hlone), h.symm⟩, fun h => h.2.symm⟩
  | number x =>
      rw [serialize]
      split
      · rename_i hinfinite
        constructor
        · intro h
          cases h
        · rintro ⟨h, -⟩
          cases h with
          | number hfinite _ => exact absurd hfinite hinfinite
      · rename_i hfinite
        have htext : canonicalText numbers (.number x) = numbers.text x := by
          simp [canonicalText, toJson, Json.canon, Json.stringify, toNumber,
            hprints.isText x (not_not.mp hfinite), Json.numberText]
        split
        · rename_i hunsafe
          constructor
          · intro h
            cases h
          · rintro ⟨h, -⟩
            cases h with
            | number _ hsafe => exact absurd hunsafe hsafe
        · rename_i hsafe
          rw [htext, Except.ok.injEq]
          exact ⟨fun h => ⟨.number (not_not.mp hfinite) hsafe, h.symm⟩, fun h => h.2.symm⟩
  | @array items hitems ih =>
      rw [serialize, bind_eq_ok, canonicalText_array]
      constructor
      · rintro ⟨texts, htexts, hout⟩
        obtain ⟨hsupported, rfl⟩ := (arrayElements_ok ih path 0 texts).mp htexts
        cases hout
        exact ⟨.array hsupported, rfl⟩
      · rintro ⟨hsupported, rfl⟩
        cases hsupported with
        | array hsupported =>
            exact ⟨_, (arrayElements_ok ih path 0 _).mpr ⟨hsupported, rfl⟩, rfl⟩
  | @object members hkeys hmembers ih =>
      have hmem : ∀ m, m ∈ Json.byName members ↔ m ∈ members :=
        fun m => (Json.byName_perm members).mem_iff
      rw [serialize, canonicalText_object]
      split
      · rename_i hlone
        obtain ⟨m, hm, hlone⟩ := List.any_eq_true.mp hlone
        constructor
        · intro h
          cases h
        · rintro ⟨h, -⟩
          cases h with
          | object hnames _ => simp [hnames m hm] at hlone
      · rename_i hlone
        rw [bind_eq_ok]
        constructor
        · rintro ⟨texts, htexts, hout⟩
          obtain ⟨hsupported, rfl⟩ := (objectTexts_ok ih path texts).mp htexts
          cases hout
          refine ⟨.object ?_ fun m hm => hsupported m ((hmem m).mpr hm), rfl⟩
          intro m hm
          by_contra hname
          exact hlone (List.any_eq_true.mpr ⟨m, hm, by simpa using hname⟩)
        · rintro ⟨h, rfl⟩
          cases h with
          | object _ hsupported =>
              exact ⟨_, (objectTexts_ok ih path _).mpr
                ⟨fun m hm => hsupported m ((hmem m).mp hm), rfl⟩, rfl⟩

theorem child_toJson (v : JsonValue D) (step : Json.Step) :
    (toJson numbers v).child step = (v.child step).map (toJson numbers) := by
  cases v with
  | array items =>
      cases step with
      | index i => simp [toJson, child, Json.child, toJsonItems_eq]
      | key name => rfl
  | object members =>
      cases step with
      | index i => rfl
      | key name => exact lookup_toJsonMembers members name
  | _ => rfl

theorem get?_toJson (v : JsonValue D) (path : List Json.Step) :
    (toJson numbers v).get? path = (v.get? path).map (toJson numbers) := by
  induction path generalizing v with
  | nil => rfl
  | cons step path ih =>
      rw [Json.get?, get?, child_toJson]
      cases v.child step with
      | none => rfl
      | some w => exact ih w

theorem child_ofJson (v : Json) (step : Json.Step) :
    (ofJson numbers v).child step = (v.child step).map (ofJson numbers) := by
  cases v with
  | array items =>
      cases step with
      | index i => simp [ofJson, child, Json.child, ofJsonItems_eq]
      | key name => rfl
  | object members =>
      cases step with
      | index i => rfl
      | key name => exact lookup_ofJsonMembers members name
  | _ => rfl

theorem get?_ofJson (v : Json) (path : List Json.Step) :
    (ofJson numbers v).get? path = (v.get? path).map (ofJson numbers) := by
  induction path generalizing v with
  | nil => rfl
  | cons step path ih =>
      rw [Json.get?, get?, child_ofJson]
      cases v.child step with
      | none => rfl
      | some w => exact ih w

theorem JsonValue.Supported.get? {v w : JsonValue D} {path : List Json.Step}
    (hv : Supported numbers v) (h : v.get? path = some w) : Supported numbers w := by
  induction path generalizing v with
  | nil => exact Option.some.inj h ▸ hv
  | cons step path ih =>
      obtain ⟨u, hchild, hpath⟩ := Option.bind_eq_some_iff.mp h
      refine ih ?_ hpath
      cases hv with
      | array hitems =>
          cases step with
          | index i => exact hitems u (List.mem_of_getElem? hchild)
          | key name => cases hchild
      | object hnames hmembers =>
          cases step with
          | index i => cases hchild
          | key name =>
              obtain ⟨before, after, hlisted, -⟩ := List.lookup_eq_some_iff.mp hchild
              exact hmembers (name, u) (by simp [hlisted])
      | _ => cases hchild

theorem shown_toJson (hprints : numbers.Prints) {v : JsonValue D} (hv : Supported numbers v) :
    Json.shown (toJson numbers v) = toJson numbers v := by
  induction hv with
  | number hfinite hsafe => simp [toJson, toNumber, hprints.isText _ hfinite, Json.shown]
  | array h ih =>
      simp only [toJson, Json.shown, Json.shownItems_eq, toJsonItems_eq, List.map_map,
        Json.array.injEq]
      exact List.map_congr_left ih
  | @object members hnames h ih =>
      simp only [toJson, Json.shown, Json.object.injEq]
      induction members with
      | nil => rfl
      | cons member rest ihrest =>
          rw [List.forall_mem_cons] at hnames h ih
          simp only [toJsonMembers, Json.shownMembers, ih.1, ihrest hnames.2 h.2 ih.2]
  | _ => rfl

/-- Two supported nodes are the same when their texts' nodes are. -/
theorem nodeSame_iff (hprints : numbers.Prints) {v w : JsonValue D} (hv : Supported numbers v)
    (hw : Supported numbers w) :
    NodeSame numbers v w ↔ (toJson numbers v).node = (toJson numbers w).node := by
  constructor
  · intro h
    cases h with
    | number h =>
        cases hv with
        | number hx _ =>
        cases hw with
        | number hy _ =>
            simp [toJson, toNumber, Json.node, (hprints.injective _ _ hx hy).mpr h]
    | _ => rfl
  · intro h
    cases hv with
    | number hx _ =>
        cases hw with
        | number hy _ =>
            simp only [toJson, toNumber, hprints.isText _ hx, hprints.isText _ hy, dif_pos,
              Json.node, Json.Node.number.injEq, Json.Number.finite.injEq, Subtype.mk.injEq] at h
            exact .number ((hprints.injective _ _ hx hy).mp h)
        | _ => cases h
    | null =>
        cases hw <;> cases h
        constructor
    | bool value =>
        cases hw <;> cases h
        constructor
    | string _ =>
        cases hw <;> cases h
        constructor
    | array _ =>
        cases hw <;> cases h
        constructor
    | object _ _ =>
        cases hw <;> cases h
        constructor

theorem same_iff (hprints : numbers.Prints) {v w : JsonValue D} (hv : Supported numbers v)
    (hw : Supported numbers w) :
    Same numbers v w ↔ Json.Same (toJson numbers v) (toJson numbers w) := by
  apply forall_congr'
  intro path
  rw [Json.nodeAt, Json.nodeAt, get?_toJson, get?_toJson]
  cases hnode : v.get? path with
  | none => cases w.get? path <;> simp
  | some u =>
      cases hnode' : w.get? path with
      | none => simp
      | some u' =>
          simp [nodeSame_iff hprints (hv.get? hnode) (hw.get? hnode')]

theorem parse_canonicalText (hprints : numbers.Prints) {v : JsonValue D} (hv : v.WellFormed)
    (hsupported : Supported numbers v) :
    Json.parse (canonicalText numbers v) = some (Json.canon (toJson numbers v)) := by
  rw [canonicalText, Json.parse_stringify (Json.wellFormed_canon (wellFormed_toJson hv)),
    Json.shown_canon (wellFormed_toJson hv), shown_toJson hprints hsupported]

theorem canonicalText_eq_iff (hprints : numbers.Prints) {v w : JsonValue D} (hv : v.WellFormed)
    (hw : w.WellFormed) (hv' : Supported numbers v) (hw' : Supported numbers w) :
    canonicalText numbers v = canonicalText numbers w ↔ Same numbers v w := by
  rw [same_iff hprints hv' hw', ← Json.canon_eq_iff (wellFormed_toJson hv) (wellFormed_toJson hw)]
  constructor
  · intro h
    have hparse := parse_canonicalText hprints hv hv'
    rw [h, parse_canonicalText hprints hw hw'] at hparse
    exact (Option.some.inj hparse).symm
  · intro h
    rw [canonicalText, canonicalText, h]

theorem same_parse (hprints : numbers.Prints) {v : JsonValue D} (hv : v.WellFormed)
    (hsupported : Supported numbers v) :
    ∃ parsed, JsonValue.parse numbers (canonicalText numbers v) = some parsed ∧
      Same numbers parsed v := by
  refine ⟨_, by rw [JsonValue.parse, parse_canonicalText hprints hv hsupported]; rfl, ?_⟩
  intro path
  have hjson : (toJson numbers v).WellFormed := wellFormed_toJson hv
  have hsame := Json.same_canon hjson path
  rw [Json.nodeAt, Json.nodeAt, get?_toJson] at hsame
  rw [get?_ofJson]
  cases hnode : v.get? path with
  | none =>
      have hnone : (Json.canon (toJson numbers v)).get? path = none := by
        simpa [hnode] using hsame
      rw [hnone]
      exact .none
  | some w =>
      have hw := hsupported.get? hnode
      obtain ⟨u, hu, hsameNode⟩ : ∃ u, (Json.canon (toJson numbers v)).get? path = some u ∧
          u.node = (toJson numbers w).node := by simpa [hnode] using hsame
      rw [hu, Option.map_some, Option.rel_some_some]
      cases hw with
      | number hfinite _ =>
          cases u <;> simp [toJson, Json.node] at hsameNode
          subst hsameNode
          rw [ofJson, toNumber, dif_pos (hprints.isText _ hfinite)]
          exact .number (hprints.parses _ hfinite)
      | _ =>
          cases u <;> cases hsameNode
          constructor

theorem arrayElements_congr {v v' : JsonValue D} {after : List (JsonValue D)}
    (h : ∀ path, serialize numbers path v = serialize numbers path v')
    (before : List (JsonValue D)) (path : JsString) (index : Nat) :
    arrayElements numbers path index (before ++ v :: after) =
      arrayElements numbers path index (before ++ v' :: after) := by
  induction before generalizing index with
  | nil => rw [List.nil_append, List.nil_append, arrayElements, arrayElements, h]
  | cons item before ih =>
      rw [List.cons_append, List.cons_append, arrayElements, arrayElements, ih]

theorem JsonValue.Reordered.wellFormed {v w : JsonValue D} (h : Reordered v w)
    (hv : v.WellFormed) : w.WellFormed := by
  induction h with
  | refl v => exact hv
  | trans huv hvw ihuv ihvw => exact ihvw (ihuv hv)
  | members h =>
      cases hv with
      | object hkeys hmembers =>
          apply WellFormed.object
          · exact (h.map Prod.fst).nodup_iff.mp hkeys
          · intro member hmem
            exact hmembers member (h.mem_iff.mpr hmem)
  | item before after h ih =>
      cases hv with
      | array hitems =>
          apply WellFormed.array
          intro item hmem
          simp only [List.mem_append, List.mem_cons] at hitems hmem
          obtain hmem | rfl | hmem := hmem
          · exact hitems item (.inl hmem)
          · exact ih (hitems _ (.inr (.inl rfl)))
          · exact hitems item (.inr (.inr hmem))
  | member before after name h ih =>
      cases hv with
      | object hkeys hmembers =>
          apply WellFormed.object
          · simpa using hkeys
          · intro member hmem
            simp only [List.mem_append, List.mem_cons] at hmembers hmem
            obtain hmem | rfl | hmem := hmem
            · exact hmembers member (.inl hmem)
            · exact ih (hmembers _ (.inr (.inl rfl)))
            · exact hmembers member (.inr (.inr hmem))

/-- Reordering members changes nothing, not even what a rejected value throws. -/
theorem serialize_reordered {v w : JsonValue D} (h : Reordered v w) (hv : v.WellFormed)
    (path : JsString) : serialize numbers path v = serialize numbers path w := by
  induction h generalizing path with
  | refl v => rfl
  | trans huv hvw ihuv ihvw => exact (ihuv hv path).trans (ihvw (huv.wellFormed hv) path)
  | @members members members' h =>
      cases hv with
      | object hkeys hmembers =>
          have hnames : (members.any fun m => hasLoneSurrogate m.1) =
              members'.any fun m => hasLoneSurrogate m.1 := by
            rw [Bool.eq_iff_iff, List.any_eq_true, List.any_eq_true]
            exact exists_congr fun m => and_congr_left' h.mem_iff
          have hsorted : Json.byName (objectMembers numbers path members) =
              Json.byName (objectMembers numbers path members') := by
            apply Json.byName_eq_of_perm
            · rw [objectMembers_eq, List.map_map]
              exact hkeys
            · rw [objectMembers_eq, objectMembers_eq]
              exact h.map _
          rw [serialize, serialize, hnames, hsorted]
  | item before after h ih =>
      cases hv with
      | array hitems =>
          rw [serialize, serialize,
            arrayElements_congr (fun path => ih (hitems _ (by simp)) path)]
  | member before after name h ih =>
      cases hv with
      | object hkeys hmembers =>
          have hmember := fun path => ih (hmembers (name, _) (by simp)) path
          rw [serialize, serialize, objectMembers_eq, objectMembers_eq]
          simp only [List.map_append, List.map_cons, hmember, List.any_append, List.any_cons]

/-- Canonical JSON is injective up to the order of members and the sign of zero,
reads back, and does not depend on the order of members. -/
theorem canonicalizeJson_canonical (hprints : numbers.Prints) :
    (∀ v w : JsonValue D, v.WellFormed → w.WellFormed → ∀ text text',
      canonicalizeJson numbers v = .ok text → canonicalizeJson numbers w = .ok text' →
        (text = text' ↔ Same numbers v w)) ∧
      (∀ v : JsonValue D, v.WellFormed → ∀ text, canonicalizeJson numbers v = .ok text →
        ∃ parsed, JsonValue.parse numbers text = some parsed ∧ Same numbers parsed v) ∧
      ∀ v w : JsonValue D, v.WellFormed → Reordered v w →
        canonicalizeJson numbers v = canonicalizeJson numbers w := by
  refine ⟨?_, ?_, ?_⟩
  · intro v w hv hw text text' htext htext'
    obtain ⟨hsupported, rfl⟩ := (serialize_ok hprints hv _ _).mp htext
    obtain ⟨hsupported', rfl⟩ := (serialize_ok hprints hw _ _).mp htext'
    exact canonicalText_eq_iff hprints hv hw hsupported hsupported'
  · intro v hv text htext
    obtain ⟨hsupported, rfl⟩ := (serialize_ok hprints hv _ _).mp htext
    exact same_parse hprints hv hsupported
  · intro v w hv h
    exact serialize_reordered h hv []

/-- A few doubles, as the runtime prints and reads them. -/
inductive SampleDouble where
  | zero
  | negativeZero
  | half
  | nan
  deriving DecidableEq

def sampleDoubles : Doubles SampleDouble where
  isFinite x := x ≠ .nan
  isInteger x := x = .zero ∨ x = .negativeZero
  isSafeInteger x := x = .zero ∨ x = .negativeZero
  strictEquals x y := x ≠ .nan ∧ (x = y ∨ x ∈ [.zero, .negativeZero] ∧ y ∈ [.zero, .negativeZero])
  text
    | .zero | .negativeZero => js "0"
    | .half => js "0.5"
    | .nan => js "NaN"
  ofText text := if text = js "0" then .zero else if text = js "0.5" then .half else .nan

theorem sampleDoubles_prints : sampleDoubles.Prints where
  isText x hx := by cases x <;> revert hx <;> decide +kernel
  injective x y hx hy := by cases x <;> cases y <;> revert hx hy <;> decide +kernel
  parses x hx := by cases x <;> revert hx <;> decide +kernel

/-- One object, its members in two orders and its zero with two signs. -/
theorem canonicalizeJson_canonical_signedZero :
    Same sampleDoubles (.object [(js "b", .array [.number .negativeZero]), (js "a", .null)])
      (.object [(js "a", .null), (js "b", .array [.number .zero])]) := by
  have hwf : ∀ x : SampleDouble, (JsonValue.array [JsonValue.number x]).WellFormed := by
    intro x
    apply WellFormed.array
    intro item hmem
    rw [List.mem_singleton] at hmem
    subst hmem
    exact .number x
  have hsorted : ∀ x : SampleDouble, x = .zero ∨ x = .negativeZero →
      canonicalizeJson sampleDoubles (.object [(js "a", .null), (js "b", .array [.number x])]) =
        .ok (js "\x7b\"a\":null,\"b\":[0]\x7d") := by
    intro x hx
    have hnames : decide (js "a" ≤ js "b") = true := by decide
    rw [canonicalizeJson, serialize, objectMembers, objectMembers, objectMembers, Json.byName,
      List.mergeSort_of_pairwise (List.pairwise_pair.mpr hnames)]
    obtain rfl | rfl := hx <;> rfl
  have hmoved := (canonicalizeJson_canonical sampleDoubles_prints).2.2
    (.object [(js "b", .array [.number .negativeZero]), (js "a", .null)])
    (.object [(js "a", .null), (js "b", .array [.number .negativeZero])])
    (.object (by decide) (by simp [hwf, WellFormed.null])) (.members (.swap _ _ _))
  refine ((canonicalizeJson_canonical sampleDoubles_prints).1 _ _ ?_ ?_
    _ _ (hmoved.trans (hsorted _ (.inr rfl))) (hsorted _ (.inl rfl))).mp rfl
  · exact .object (by decide) (by simp [hwf, WellFormed.null])
  · exact .object (by decide) (by simp [hwf, WellFormed.null])

end Canonical

end KyaOs
