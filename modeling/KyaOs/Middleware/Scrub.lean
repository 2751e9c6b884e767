import KyaOs.Middleware.ResultMeta
import Mathlib.Data.List.Infix

/-!
# Private members leave no message

`scrubPrivateMeta`: the copy of a value without the middleware's private `_meta` members at
any depth, and what it finds on the way: the strings that hold the stamp, and the
pending-proof ids beside the stamp. One serialization shows whether only the root's own
`_meta` needs work; otherwise the whole value is walked.
-/

namespace KyaOs.Middleware

open Js Untyped JsonValue

def isPrivate (name : JsString) : Bool := privateMetaKeys.contains name

/-- `text.includes(part)`. -/
def includes (text part : JsString) : Bool := decide (part <:+: text)

structure Scrubbed where
  value : ToolResult
  /-- Strings that hold the stamp sought. -/
  leaked : List JsString
  /-- Pending-proof ids beside the stamp sought. -/
  ids : List JsString

/-- A scrubbed member: a `_meta` loses its private members, and goes when none is left. -/
def scrubMember (keepEmptyMeta : Bool) (name : JsString) (scrubbed : JsonValue JsNumber) :
    Members JsNumber :=
  match scrubbed with
  | .object metadata =>
    if name = js "_meta" ∧ metadata.any fun member => isPrivate member.1 then
      let kept := withoutKeys metadata isPrivate
      if kept.isEmpty && !keepEmptyMeta then [] else [(name, .object kept)]
    else [(name, scrubbed)]
  | _ => [(name, scrubbed)]

mutual

/-- A value without private `_meta` members at any depth. -/
def scrub : JsonValue JsNumber → JsonValue JsNumber
  | .array items => .array (scrubItems items)
  | .object members => .object (scrubMembers members)
  | value => value

def scrubItems : List (JsonValue JsNumber) → List (JsonValue JsNumber)
  | [] => []
  | item :: rest => scrub item :: scrubItems rest

def scrubMembers : Members JsNumber → Members JsNumber
  | [] => []
  | (name, member) :: rest => scrubMember false name (scrub member) ++ scrubMembers rest

end

/-- The root keeps an emptied `_meta` where members are about to go into it. -/
def scrubRoot (keepEmptyMeta : Bool) : JsonValue JsNumber → JsonValue JsNumber
  | .object members =>
    .object (members.flatMap fun member => scrubMember keepEmptyMeta member.1 (scrub member.2))
  | value => scrub value

section Found

variable (stamp : JsString)

/-- The strings among some values that hold the stamp. -/
def leakedAmong (values : List (JsonValue JsNumber)) : List JsString :=
  values.filterMap fun
    | .string text => if includes text stamp then some text else none
    | _ => none

/-- The pending-proof id of a `_meta` that carries the stamp. -/
def stampedId (metadata : Members JsNumber) : Option JsString :=
  if isString (metadata.lookup lifecycleStampMetaKey) stamp then
    match metadata.lookup pendingProofMetaKey with
    | some (.string id) => some id
    | _ => none
  else none

/-- The members of a node that are walked. -/
def walkedMembers (isMeta : Bool) (members : Members JsNumber) : Members JsNumber :=
  if isMeta then withoutKeys members isPrivate else members

mutual

/-- The strings found in a node; the walk takes up its last member first. -/
def leakedIn (isMeta : Bool) : JsonValue JsNumber → List JsString
  | .array items => leakedAmong stamp items ++ leakedInItems items
  | .object members =>
    leakedAmong stamp ((walkedMembers isMeta members).map Prod.snd) ++
      leakedInMembers isMeta members
  | _ => []

def leakedInItems : List (JsonValue JsNumber) → List JsString
  | [] => []
  | item :: rest => leakedInItems rest ++ leakedIn false item

def leakedInMembers (isMeta : Bool) : Members JsNumber → List JsString
  | [] => []
  | (name, member) :: rest =>
    leakedInMembers isMeta rest ++
      if isMeta && isPrivate name then [] else leakedIn (name = js "_meta") member

end

mutual

/-- The ids found in a node, in the same order. -/
def idsIn (isMeta : Bool) : JsonValue JsNumber → List JsString
  | .array items => idsInItems items
  | .object members =>
    (if isMeta then (stampedId stamp members).toList else []) ++ idsInMembers isMeta members
  | _ => []

def idsInItems : List (JsonValue JsNumber) → List JsString
  | [] => []
  | item :: rest => idsInItems rest ++ idsIn false item

def idsInMembers (isMeta : Bool) : Members JsNumber → List JsString
  | [] => []
  | (name, member) :: rest =>
    idsInMembers isMeta rest ++
      if isMeta && isPrivate name then [] else idsIn (name = js "_meta") member

end

end Found

/-- The walk over the whole value. -/
def scrubDeep (root : JsonValue JsNumber) (stamp : Option JsString) (keepEmptyMeta : Bool) :
    Scrubbed where
  value := scrubRoot keepEmptyMeta root
  leaked := (stamp.map fun stamp => leakedAmong stamp [root] ++ leakedIn stamp false root).getD []
  ids := (stamp.map fun stamp => idsIn stamp false root).getD []

section Shallow

variable (numbers : Doubles JsNumber)

/-- The root without its own private members. -/
def shallowOf (members : Members JsNumber) : JsonValue JsNumber :=
  match members.lookup (js "_meta") with
  | some (.object metadata) =>
    .object (assignMember (js "_meta") (.object (withoutKeys metadata isPrivate)) members)
  | _ => .object members

/-- Nothing below the root's own `_meta` names a private member or holds the stamp. -/
def isShallow (stamp : Option JsString) (members : Members JsNumber) : Bool :=
  let rest := jsonText numbers (shallowOf members)
  !(privateMetaKeys.any (includes rest) || stamp.any (includes rest))

/-- The fast path, where it applies. What JSON has no form for holds no members. -/
def scrubShallow (root : JsonValue JsNumber) (stamp : Option JsString) (keepEmptyMeta : Bool) :
    Except Error (Option Scrubbed) :=
  match root with
  | .object members =>
    if isShallow numbers stamp members then do
      let value ← tryWithoutMetaKeys root privateMetaKeys keepEmptyMeta
      return some {
        value
        leaked := []
        ids := ((stamp.bind fun stamp =>
          stampedId stamp ((metaOf root).elim [] fun
            | .object metadata => metadata
            | _ => [])).toList) }
    else return none
  | _ => return none

def scrubPrivateMeta (root : JsonValue JsNumber) (stamp : Option JsString)
    (keepEmptyMeta : Bool) : Except Error Scrubbed := do
  match ← scrubShallow numbers root stamp keepEmptyMeta with
  | some found => return found
  | none => return scrubDeep root stamp keepEmptyMeta

end Shallow

/-- No `_meta` at any depth holds a private member. -/
inductive NoPrivateMeta : JsonValue JsNumber → Prop
  | null : NoPrivateMeta .null
  | bool (value : Bool) : NoPrivateMeta (.bool value)
  | number (value : JsNumber) : NoPrivateMeta (.number value)
  | string (value : JsString) : NoPrivateMeta (.string value)
  | refused (problem : JsString) : NoPrivateMeta (.refused problem)
  | array {items : List (JsonValue JsNumber)} (h : ∀ item ∈ items, NoPrivateMeta item) :
      NoPrivateMeta (.array items)
  | object {members : Members JsNumber}
      (hmeta : ∀ metadata, (js "_meta", .object metadata) ∈ members →
        ∀ member ∈ metadata, isPrivate member.1 = false)
      (h : ∀ member ∈ members, NoPrivateMeta member.2) : NoPrivateMeta (.object members)

theorem NoPrivateMeta.of_mem {members members' : Members JsNumber}
    (h : NoPrivateMeta (.object members)) (hsub : ∀ member ∈ members', member ∈ members) :
    NoPrivateMeta (.object members') := by
  cases h with
  | object hmeta hmembers =>
      exact .object (fun metadata hmem => hmeta metadata (hsub _ hmem))
        fun member hmem => hmembers member (hsub member hmem)

/-- A member that is no `_meta` of its own. -/
theorem NoPrivateMeta.assign {members : Members JsNumber} (h : NoPrivateMeta (.object members))
    {name : JsString} {value : JsonValue JsNumber} (hvalue : NoPrivateMeta value)
    (hname : name = js "_meta" → ∀ metadata, value = .object metadata →
      ∀ member ∈ metadata, isPrivate member.1 = false) :
    NoPrivateMeta (.object (assignMember name value members)) := by
  cases h with
  | object hmeta hmembers =>
      refine .object ?_ ?_
      · intro metadata hmem
        obtain hnew | hold := mem_assignMember hmem
        · obtain ⟨hsame, hmetadata⟩ := Prod.mk.inj hnew
          exact hname hsame.symm metadata hmetadata.symm
        · exact hmeta metadata hold
      · intro member hmem
        obtain hnew | hold := mem_assignMember hmem
        · exact hnew ▸ hvalue
        · exact hmembers member hold

theorem mem_withoutKeys {members : Members JsNumber} {drop : JsString → Bool}
    {member : JsString × JsonValue JsNumber} :
    member ∈ withoutKeys members drop ↔ member ∈ members ∧ drop member.1 = false := by
  simp [withoutKeys]

theorem noPrivateMeta_withoutKeys {members : Members JsNumber} (h : NoPrivateMeta (.object members))
    (drop : JsString → Bool) : NoPrivateMeta (.object (withoutKeys members drop)) :=
  h.of_mem fun _ hmem => (mem_withoutKeys.mp hmem).1

/-- A scrubbed member, under whatever name, is clean and holds no private member of its own
where it is a `_meta`. -/
theorem scrubMember_spec {keepEmptyMeta : Bool} {name : JsString} {scrubbed : JsonValue JsNumber}
    (h : NoPrivateMeta scrubbed) {member : JsString × JsonValue JsNumber}
    (hmem : member ∈ scrubMember keepEmptyMeta name scrubbed) :
    NoPrivateMeta member.2 ∧ ∀ metadata, member = (js "_meta", .object metadata) →
      ∀ inner ∈ metadata, isPrivate inner.1 = false := by
  cases scrubbed with
  | object metadata =>
      rw [scrubMember] at hmem
      split_ifs at hmem with hprivate
      · dsimp only at hmem
        split_ifs at hmem
        · exact absurd hmem List.not_mem_nil
        · obtain rfl := List.mem_singleton.mp hmem
          refine ⟨noPrivateMeta_withoutKeys h _, ?_⟩
          intro metadata' heq inner hinner
          cases heq
          exact (mem_withoutKeys.mp hinner).2
      · obtain rfl := List.mem_singleton.mp hmem
        refine ⟨h, ?_⟩
        intro metadata' heq inner hinner
        cases heq
        rw [not_and] at hprivate
        simpa using fun hinnerPrivate =>
          hprivate rfl (List.any_eq_true.mpr ⟨inner, hinner, hinnerPrivate⟩)
  | _ =>
      obtain rfl := List.mem_singleton.mp hmem
      exact ⟨h, fun _ heq => by cases heq⟩

mutual

theorem noPrivateMeta_scrub : ∀ value : JsonValue JsNumber, NoPrivateMeta (scrub value)
  | .null => .null
  | .bool value => .bool value
  | .number value => .number value
  | .string value => .string value
  | .refused problem => .refused problem
  | .array items => .array (noPrivateMeta_scrubItems items)
  | .object members =>
      .object (fun metadata hmem => (noPrivateMeta_scrubMembers members _ hmem).2 metadata rfl)
        fun member hmem => (noPrivateMeta_scrubMembers members member hmem).1

theorem noPrivateMeta_scrubItems : ∀ items : List (JsonValue JsNumber),
    ∀ item ∈ scrubItems items, NoPrivateMeta item
  | [], _, hmem => absurd hmem List.not_mem_nil
  | first :: rest, item, hmem => by
      cases List.mem_cons.mp hmem with
      | inl hfirst => exact hfirst ▸ noPrivateMeta_scrub first
      | inr hrest => exact noPrivateMeta_scrubItems rest item hrest

theorem noPrivateMeta_scrubMembers : ∀ members : Members JsNumber,
    ∀ member ∈ scrubMembers members, NoPrivateMeta member.2 ∧
      ∀ metadata, member = (js "_meta", .object metadata) →
        ∀ inner ∈ metadata, isPrivate inner.1 = false
  | [], _, hmem => absurd hmem List.not_mem_nil
  | (name, value) :: rest, member, hmem => by
      cases List.mem_append.mp hmem with
      | inl hfirst => exact scrubMember_spec (noPrivateMeta_scrub value) hfirst
      | inr hrest => exact noPrivateMeta_scrubMembers rest member hrest

end

theorem noPrivateMeta_scrubRoot (keepEmptyMeta : Bool) (root : JsonValue JsNumber) :
    NoPrivateMeta (scrubRoot keepEmptyMeta root) := by
  cases root with
  | object members =>
      have hspec : ∀ member ∈ members.flatMap fun member =>
          scrubMember keepEmptyMeta member.1 (scrub member.2),
          NoPrivateMeta member.2 ∧ ∀ metadata, member = (js "_meta", .object metadata) →
            ∀ inner ∈ metadata, isPrivate inner.1 = false := by
        intro member hmem
        obtain ⟨source, -, hscrubbed⟩ := List.mem_flatMap.mp hmem
        exact scrubMember_spec (noPrivateMeta_scrub source.2) hscrubbed
      exact .object (fun metadata hmem => (hspec _ hmem).2 metadata rfl)
        fun member hmem => (hspec member hmem).1
  | _ => exact noPrivateMeta_scrub _

section Clean

theorem scrubMember_clean {member : JsString × JsonValue JsNumber}
    (h : ∀ metadata, member = (js "_meta", .object metadata) →
      ∀ inner ∈ metadata, isPrivate inner.1 = false) (keepEmptyMeta : Bool) :
    scrubMember keepEmptyMeta member.1 member.2 = [member] := by
  obtain ⟨name, value⟩ := member
  cases value with
  | object metadata =>
      rw [scrubMember, if_neg]
      rintro ⟨rfl, hany⟩
      obtain ⟨inner, hinner, hprivate⟩ := List.any_eq_true.mp hany
      rw [h metadata rfl inner hinner] at hprivate
      cases hprivate
  | _ => rfl

mutual

/-- What holds nothing private is left as it is. -/
theorem scrub_clean : ∀ {value : JsonValue JsNumber}, NoPrivateMeta value → scrub value = value
  | .null, _ => rfl
  | .bool _, _ => rfl
  | .number _, _ => rfl
  | .string _, _ => rfl
  | .refused _, _ => rfl
  | .array items, h => by
      cases h with
      | array hitems => rw [scrub, scrubItems_clean hitems]
  | .object members, h => by
      cases h with
      | object hmeta hmembers =>
          rw [scrub, scrubMembers_clean hmembers fun metadata hmem => hmeta metadata hmem]

theorem scrubItems_clean : ∀ {items : List (JsonValue JsNumber)},
    (∀ item ∈ items, NoPrivateMeta item) → scrubItems items = items
  | [], _ => rfl
  | first :: rest, h => by
      rw [scrubItems, scrub_clean (h first List.mem_cons_self),
        scrubItems_clean fun item hmem => h item (List.mem_cons_of_mem _ hmem)]

theorem scrubMembers_clean : ∀ {members : Members JsNumber},
    (∀ member ∈ members, NoPrivateMeta member.2) →
      (∀ metadata, (js "_meta", .object metadata) ∈ members →
        ∀ inner ∈ metadata, isPrivate inner.1 = false) → scrubMembers members = members
  | [], _, _ => rfl
  | (name, value) :: rest, h, hmeta => by
      have hfirst := @scrubMember_clean (name, value) (fun metadata heq =>
        hmeta metadata (heq ▸ List.mem_cons_self)) false
      rw [scrubMembers, scrub_clean (h (name, value) List.mem_cons_self), hfirst,
        scrubMembers_clean (fun member hmem => h member (List.mem_cons_of_mem _ hmem))
          fun metadata hmem => hmeta metadata (List.mem_cons_of_mem _ hmem)]
      rfl

end

variable {keepEmptyMeta : Bool} {name key : JsString}

theorem names_scrubMember (value : JsonValue JsNumber) :
    ((scrubMember keepEmptyMeta name value).map Prod.fst).Sublist [name] := by
  cases value with
  | object metadata =>
      rw [scrubMember]
      split_ifs
      · dsimp only
        split_ifs
        · exact List.nil_sublist _
        · exact List.Sublist.refl _
      · exact List.Sublist.refl _
  | _ => exact List.Sublist.refl _

theorem lookup_scrubMember_of_ne {value : JsonValue JsNumber} (hname : key ≠ name) :
    (scrubMember keepEmptyMeta name value).lookup key = none := by
  rw [List.lookup_eq_none_iff]
  intro member hmem
  have hsub := (names_scrubMember value).subset (List.mem_map_of_mem hmem)
  exact bne_iff_ne.mpr fun hsame => hname (hsame.trans (List.mem_singleton.mp hsub))

/-- A member of another name keeps its place. -/
theorem lookup_scrubMembers (members : Members JsNumber) (hkey : key ≠ js "_meta") :
    (scrubMembers members).lookup key = (members.lookup key).map scrub := by
  induction members with
  | nil => rfl
  | cons member rest ih =>
      obtain ⟨name, value⟩ := member
      rw [scrubMembers, List.lookup_append, ih, List.lookup_cons]
      by_cases hname : key = name
      · subst hname
        have hself : scrubMember false key (scrub value) = [(key, scrub value)] :=
          @scrubMember_clean (key, scrub value)
            (fun metadata heq => absurd (congrArg Prod.fst heq) hkey) false
        simp [hself]
      · have hother : (scrubMember false name (scrub value)).lookup key = none :=
          lookup_scrubMember_of_ne hname
        simp [hother, beq_false_of_ne hname]

theorem names_scrubRoot (members : Members JsNumber) :
    ((members.flatMap fun member => scrubMember keepEmptyMeta member.1 (scrub member.2)).map
      Prod.fst).Sublist (members.map Prod.fst) := by
  induction members with
  | nil => exact List.Sublist.refl _
  | cons member rest ih =>
      rw [List.flatMap_cons, List.map_append, List.map_cons, ← List.singleton_append]
      exact (names_scrubMember _).append ih

/-- The root's `_meta` is that of the one member of its name. -/
theorem lookup_scrubRoot (members : Members JsNumber)
    (h : (members.map Prod.fst).count (js "_meta") ≤ 1) :
    (members.flatMap fun member => scrubMember keepEmptyMeta member.1 (scrub member.2)).lookup
        (js "_meta") =
      (members.lookup (js "_meta")).bind fun value =>
        (scrubMember keepEmptyMeta (js "_meta") (scrub value)).lookup (js "_meta") := by
  induction members with
  | nil => rfl
  | cons member rest ih =>
      obtain ⟨name, value⟩ := member
      rw [List.flatMap_cons, List.lookup_append, List.lookup_cons]
      rw [List.map_cons, List.count_cons] at h
      by_cases hname : js "_meta" = name
      · subst hname
        have hnone : (rest.flatMap fun member =>
            scrubMember keepEmptyMeta member.1 (scrub member.2)).lookup (js "_meta") = none := by
          rw [List.lookup_eq_none_iff]
          intro member hmem
          refine bne_iff_ne.mpr fun hsame => ?_
          have hlisted : js "_meta" ∈ rest.map Prod.fst := by
            rw [hsame]
            exact (names_scrubRoot rest).subset (List.mem_map_of_mem hmem)
          have hcount := List.count_pos_iff.mpr hlisted
          simp only [beq_self_eq_true, if_true] at h
          omega
        simp [hnone]
      · have hrest : (rest.map Prod.fst).count (js "_meta") ≤ 1 := by omega
        rw [ih hrest, lookup_scrubMember_of_ne hname, beq_false_of_ne hname]
        rfl

end Clean

section Text

variable {numbers : Doubles JsNumber}

theorem infix_stringifyItems {items : List Json} {item : Json} (h : item ∈ items) :
    Json.stringify item <:+: Json.stringifyItems items := by
  induction items with
  | nil => cases h
  | cons first rest ih =>
      cases rest with
      | nil =>
          obtain rfl := List.mem_singleton.mp h
          exact List.infix_rfl
      | cons next rest =>
          rw [Json.stringifyItems]
          cases List.mem_cons.mp h with
          | inl hfirst => exact hfirst ▸ (List.prefix_append _ _).isInfix
          | inr hrest =>
              exact (ih hrest).trans ((List.suffix_cons _ _).trans
                (List.suffix_append _ _)).isInfix

theorem infix_stringifyMembers {members : List (JsString × Json)} {member : JsString × Json}
    (h : member ∈ members) :
    Json.quote member.1 <:+: Json.stringifyMembers members ∧
      Json.stringify member.2 <:+: Json.stringifyMembers members := by
  induction members with
  | nil => cases h
  | cons first rest ih =>
      obtain ⟨name, v⟩ := first
      have hname : ∀ after : JsString, Json.quote name <:+: Json.quote name ++ 0x3A :: after :=
        fun after => (List.prefix_append _ _).isInfix
      have hvalue : ∀ after : JsString, Json.stringify v <:+:
          Json.quote name ++ 0x3A :: (Json.stringify v ++ after) := fun after =>
        ((List.prefix_append _ _).isInfix.trans (List.suffix_cons _ _).isInfix).trans
          (List.suffix_append _ _).isInfix
      cases rest with
      | nil =>
          obtain rfl := List.mem_singleton.mp h
          exact ⟨hname _, by simpa [Json.stringifyMembers] using hvalue []⟩
      | cons next rest =>
          rw [Json.stringifyMembers]
          cases List.mem_cons.mp h with
          | inl hfirst =>
              rw [hfirst]
              simp only [List.append_assoc, List.cons_append]
              exact ⟨hname _, hvalue _⟩
          | inr hrest =>
              have hlast : Json.stringifyMembers (next :: rest) <:+:
                  Json.quote name ++ 0x3A :: Json.stringify v ++
                    0x2C :: Json.stringifyMembers (next :: rest) :=
                ((List.suffix_cons _ _).trans (List.suffix_append _ _)).isInfix
              exact ⟨(ih hrest).1.trans hlast, (ih hrest).2.trans hlast⟩

theorem infix_of_item {items : List (JsonValue JsNumber)} {item : JsonValue JsNumber}
    (h : item ∈ items) : jsonText numbers item <:+: jsonText numbers (.array items) := by
  have hmem : toJson numbers item ∈ toJsonItems numbers items := by
    rw [toJsonItems_eq]
    exact List.mem_map_of_mem h
  rw [jsonText, jsonText, toJson, Json.stringify]
  exact (infix_stringifyItems hmem).trans
    ((List.prefix_append _ _).isInfix.trans (List.suffix_cons _ _).isInfix)

theorem infix_of_member {members : Members JsNumber} {member : JsString × JsonValue JsNumber}
    (h : member ∈ members) :
    Json.quote member.1 <:+: jsonText numbers (.object members) ∧
      jsonText numbers member.2 <:+: jsonText numbers (.object members) := by
  have hmem : (member.1, toJson numbers member.2) ∈ toJsonMembers numbers members := by
    rw [toJsonMembers_eq]
    exact List.mem_map_of_mem h
  have hinside : Json.stringifyMembers (toJsonMembers numbers members) <:+:
      jsonText numbers (.object members) := by
    rw [jsonText, toJson, Json.stringify]
    exact (List.prefix_append _ _).isInfix.trans (List.suffix_cons _ _).isInfix
  exact ⟨(infix_stringifyMembers hmem).1.trans hinside,
    (infix_stringifyMembers hmem).2.trans hinside⟩

/-- A private name is written as it is. -/
theorem infix_quote {name : JsString} (h : isPrivate name = true) : name <:+: Json.quote name := by
  have hplain : ∀ name ∈ privateMetaKeys, Json.quoteUnits name = name := by decide +kernel
  rw [Json.quote, hplain name (by simpa [isPrivate] using h)]
  exact (List.prefix_append _ _).isInfix.trans (List.suffix_cons _ _).isInfix

/-- The text names no private member. -/
def Unnamed (text : JsString) : Prop := ∀ name, isPrivate name = true → ¬ name <:+: text

theorem Unnamed.mono {text text' : JsString} (h : Unnamed text') (hpart : text <:+: text') :
    Unnamed text := fun name hname hmem => h name hname (hmem.trans hpart)

mutual

theorem noPrivateMeta_of_text : ∀ {value : JsonValue JsNumber},
    Unnamed (jsonText numbers value) → NoPrivateMeta value
  | .null, _ => .null
  | .bool value, _ => .bool value
  | .number value, _ => .number value
  | .string value, _ => .string value
  | .refused problem, _ => .refused problem
  | .array _, h => .array (noPrivateMeta_items fun _ hmem => h.mono (infix_of_item hmem))
  | .object members, h => by
      refine .object ?_ (noPrivateMeta_members fun _ hmem => h.mono (infix_of_member hmem).2)
      intro metadata hmetadata member hmember
      by_contra hprivate
      rw [Bool.not_eq_false] at hprivate
      have hinner := (@infix_of_member numbers _ _ hmember).1
      exact h member.1 hprivate ((infix_quote hprivate).trans
        (hinner.trans (@infix_of_member numbers _ _ hmetadata).2))

theorem noPrivateMeta_items : ∀ {items : List (JsonValue JsNumber)},
    (∀ item ∈ items, Unnamed (jsonText numbers item)) → ∀ item ∈ items, NoPrivateMeta item
  | [], _, _, hmem => absurd hmem List.not_mem_nil
  | first :: rest, h, item, hmem => by
      cases List.mem_cons.mp hmem with
      | inl hfirst => exact hfirst ▸ noPrivateMeta_of_text (h first List.mem_cons_self)
      | inr hrest =>
          exact noPrivateMeta_items (fun item hmem => h item (List.mem_cons_of_mem _ hmem)) item
            hrest

theorem noPrivateMeta_members : ∀ {members : Members JsNumber},
    (∀ member ∈ members, Unnamed (jsonText numbers member.2)) →
      ∀ member ∈ members, NoPrivateMeta member.2
  | [], _, _, hmem => absurd hmem List.not_mem_nil
  | (name, value) :: rest, h, member, hmem => by
      cases List.mem_cons.mp hmem with
      | inl hfirst =>
          exact hfirst ▸ noPrivateMeta_of_text (h (name, value) List.mem_cons_self)
      | inr hrest =>
          exact noPrivateMeta_members (fun member hmem => h member (List.mem_cons_of_mem _ hmem))
            member hrest

end

/-- What the fast path leaves is among what it serialized. -/
theorem mem_shallowOf {members : Members JsNumber} {value : ToolResult} {keepEmptyMeta : Bool}
    (h : tryWithoutMetaKeys (.object members) privateMetaKeys keepEmptyMeta = .ok value) :
    ∃ members' shallow, value = .object members' ∧ shallowOf members = .object shallow ∧
      ∀ member ∈ members', member ∈ shallow := by
  rw [tryWithoutMetaKeys, Untyped.member?] at h
  rw [shallowOf]
  cases hlookup : members.lookup (js "_meta") with
  | none =>
      rw [hlookup] at h
      simp only [withoutMetaKeys, hlookup, Except.ok.injEq] at h
      exact ⟨members, members, h.symm, rfl, fun _ hmem => hmem⟩
  | some metaValue =>
      rw [hlookup] at h
      cases metaValue with
      | null => simp [privateMetaKeys] at h
      | object metadata =>
          simp only [withoutMetaKeys, hlookup, Except.ok.injEq] at h
          split_ifs at h with hany hkept
          · exact ⟨_, _, h.symm, rfl, fun _ hmem => hmem⟩
          · refine ⟨_, _, h.symm, rfl, ?_⟩
            intro member hmem
            obtain ⟨hmember, hname⟩ := mem_withoutKeys.mp hmem
            exact mem_assignMember_of_ne hmember (by simpa using hname)
          · have hnone : ∀ member ∈ metadata, isPrivate member.1 = false := by
              intro member hmember
              by_contra hprivate
              rw [Bool.not_eq_false] at hprivate
              exact hany (List.any_eq_true.mpr ⟨member.1, by simpa [isPrivate] using hprivate,
                by simpa using ⟨member.2, hmember⟩⟩)
            have hsame : withoutKeys metadata isPrivate = metadata := by
              rw [withoutKeys, List.filter_eq_self]
              intro member hmember
              simp [hnone member hmember]
            refine ⟨members, members, h.symm, ?_, fun _ hmem => hmem⟩
            dsimp only
            rw [hsame, assignMember_self hlookup]
      | _ =>
          simp only [withoutMetaKeys, hlookup, Except.ok.injEq] at h
          exact ⟨members, members, h.symm, rfl, fun _ hmem => hmem⟩

theorem unnamed_of_isShallow {stamp : Option JsString} {members : Members JsNumber}
    (h : isShallow numbers stamp members = true) :
    Unnamed (jsonText numbers (shallowOf members)) := by
  intro name hname hpart
  simp only [isShallow, Bool.not_eq_true', Bool.or_eq_false_iff] at h
  have hany := List.any_eq_false.mp h.1 name (by simpa [isPrivate] using hname)
  exact hany (by simpa [includes] using hpart)

/-- Either way nothing private is left at any depth. -/
theorem scrubPrivateMeta_clean {root : JsonValue JsNumber} {stamp : Option JsString}
    {keepEmptyMeta : Bool} {found : Scrubbed}
    (h : scrubPrivateMeta numbers root stamp keepEmptyMeta = .ok found) :
    NoPrivateMeta found.value := by
  have hdeep : NoPrivateMeta (scrubDeep root stamp keepEmptyMeta).value :=
    noPrivateMeta_scrubRoot keepEmptyMeta root
  obtain ⟨shallow, hshallow, h⟩ := bind_eq_ok.mp h
  cases shallow with
  | none =>
      cases h
      exact hdeep
  | some found' =>
      cases h
      cases root with
      | object members =>
          rw [scrubShallow] at hshallow
          split_ifs at hshallow with hfast
          · obtain ⟨value, hvalue, hfound⟩ := bind_eq_ok.mp hshallow
            cases hfound
            obtain ⟨members', shallow, rfl, hshallowOf, hsub⟩ := mem_shallowOf hvalue
            have hclean := noPrivateMeta_of_text (unnamed_of_isShallow hfast)
            rw [hshallowOf] at hclean
            exact hclean.of_mem hsub
          · cases hshallow
      | _ => cases hshallow

end Text

end KyaOs.Middleware
