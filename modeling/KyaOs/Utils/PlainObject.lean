import KyaOs.Utils.JsonMembers

/-!
# Objects with a prototype

An object as JavaScript reads it: a name that the object itself does not have is read
from its prototype. Assigning to an inherited `__proto__` sets the prototype and adds no
member, so a loop that copies a parsed JSON object by assignment can change what the
copy answers.
-/

open Js

namespace KyaOs

def protoName : JsString := js "__proto__"

/-- The names on `Object.prototype`, `__proto__` aside. -/
def objectPrototypeNames : List JsString :=
  ["constructor", "__defineGetter__", "__defineSetter__", "hasOwnProperty", "__lookupGetter__",
    "__lookupSetter__", "isPrototypeOf", "propertyIsEnumerable", "toLocaleString", "toString",
    "valueOf"].map js

/-- The names on `Array.prototype`, `length` aside, which every array has itself. -/
def arrayPrototypeNames : List JsString :=
  ["at", "concat", "constructor", "copyWithin", "entries", "every", "fill", "filter", "find",
    "findIndex", "findLast", "findLastIndex", "flat", "flatMap", "forEach", "includes",
    "indexOf", "join", "keys", "lastIndexOf", "map", "pop", "push", "reduce", "reduceRight",
    "reverse", "shift", "slice", "some", "sort", "splice", "toLocaleString", "toReversed",
    "toSorted", "toSpliced", "toString", "unshift", "values", "with"].map js

/-- The prototype of an object made by a literal or by assignments of JSON values. -/
inductive Prototype (D : Type) where
  | objectPrototype
  | null
  /-- A JSON object or array. -/
  | json (value : JsonValue D)

structure PlainObject (D : Type) where
  members : Members D := []
  prototype : Prototype D := .objectPrototype

/-- What reading a member comes to. -/
inductive Answer (D : Type) where
  | undefined
  | json (value : JsonValue D)
  | length (n : Nat)
  /-- The prototype object that object literals have. -/
  | objectPrototype
  | builtin (ofArray : Bool) (name : JsString)

variable {D : Type}

/-- Answers that a reader cannot tell apart, order of members and sign of zero aside. -/
def Answer.Alike (numbers : Doubles D) : Answer D → Answer D → Prop
  | .json v, .json w => JsonValue.Same numbers v w
  | answer, answer' => answer = answer'

section Reading

def objectAnswer (name : JsString) : Answer D :=
  if objectPrototypeNames.contains name then .builtin false name else .undefined

/-- The members of its own that a JSON object or array has. -/
def ownAnswer (value : JsonValue D) (name : JsString) : Option (Answer D) :=
  match value with
  | .object members => (members.lookup name).map .json
  | .array items =>
    if name = js "length" then some (.length items.length)
    else ((items.mapIdx fun i item => (js (toString i), item)).lookup name).map .json
  | _ => none

/-- What a prototype answers for a name its object does not have. -/
def Prototype.answer (prototype : Prototype D) (name : JsString) : Answer D :=
  match prototype with
  | .null => .undefined
  | .objectPrototype =>
    if name = protoName then .objectPrototype else objectAnswer name
  | .json value =>
    match ownAnswer value name with
    | some answer => answer
    | none =>
      if name = protoName then .json value
      else match value with
        | .array _ =>
          if arrayPrototypeNames.contains name then .builtin true name else objectAnswer name
        | _ => objectAnswer name

/-- `object[name]`. -/
def PlainObject.get (object : PlainObject D) (name : JsString) : Answer D :=
  match object.members.lookup name with
  | some value => .json value
  | none => object.prototype.answer name

/-- Every member access is answered alike. -/
def PlainObject.Alike (numbers : Doubles D) (object object' : PlainObject D) : Prop :=
  ∀ name, (object.get name).Alike numbers (object'.get name)

end Reading

/-- Whether assigning to `__proto__` reaches the accessor of `Object.prototype`. -/
def Prototype.hasAccessor : Prototype D → Bool
  | .objectPrototype => true
  | .null => false
  | .json value => (ownAnswer value protoName).isNone

/-- `object.__proto__ = value`, by the inherited accessor. -/
def PlainObject.setPrototype (object : PlainObject D) (value : JsonValue D) : PlainObject D :=
  match value with
  | .null => { object with prototype := .null }
  | .array _ | .object _ => { object with prototype := .json value }
  | _ => object

/-- `object[key] = value`. -/
def PlainObject.assign (object : PlainObject D) (key : JsString) (value : JsonValue D) :
    PlainObject D :=
  if key = protoName ∧ object.prototype.hasAccessor then object.setPrototype value
  else { object with members := assignMember key value object.members }

/-- `for (const [key, value] of entries) if (keep(key)) object[key] = value`. -/
def PlainObject.assignAll (object : PlainObject D) (keep : JsString → Bool) :
    Members D → PlainObject D
  | [] => object
  | (key, value) :: rest =>
    (if keep key then object.assign key value else object).assignAll keep rest

/-- What the object is to the canonical encoder, which takes a prototype of
`Object.prototype` or `null`. -/
def PlainObject.toValue (object : PlainObject D) : JsonValue D :=
  match object.prototype with
  | .json _ => .refused (js "non-plain object")
  | _ => .object object.members

/-- A copy made by assignment has no `__proto__` of its own. -/
theorem lookup_proto_assignAll {keep : JsString → Bool} {entries : Members D}
    {object : PlainObject D} (hkeys : (entries.map Prod.fst).Nodup)
    (hmembers : object.members.lookup protoName = none)
    (hproto : object.prototype.hasAccessor = true ∨ protoName ∉ entries.map Prod.fst) :
    (object.assignAll keep entries).members.lookup protoName = none := by
  induction entries generalizing object with
  | nil => exact hmembers
  | cons member rest ih =>
      obtain ⟨key, value⟩ := member
      rw [List.map_cons, List.nodup_cons] at hkeys
      rw [PlainObject.assignAll]
      have hskip : (object.assignAll keep rest).members.lookup protoName = none :=
        ih hkeys.2 hmembers (hproto.imp_right fun h hmem => h (List.mem_cons_of_mem _ hmem))
      split
      · rw [PlainObject.assign]
        split
        · rename_i hassigned
          have hlast : protoName ∉ rest.map Prod.fst := hassigned.1 ▸ hkeys.1
          refine ih hkeys.2 ?_ (.inr hlast)
          cases value <;> exact hmembers
        · rename_i hother
          have hkey : protoName ≠ key := by
            rintro rfl
            refine hproto.elim (fun haccessor => hother ⟨rfl, haccessor⟩) ?_
            exact fun hnew => hnew (by simp)
          refine ih hkeys.2 ?_ (hproto.imp_right fun h hmem => h (List.mem_cons_of_mem _ hmem))
          rw [lookup_assignMember, if_neg hkey, hmembers]
      · exact hskip

/-- Without a `__proto__` among them, the members kept are copied as they are. -/
theorem assignAll_of_no_proto {keep : JsString → Bool} {entries : Members D}
    {object : PlainObject D} (hkeys : ((object.members ++ entries).map Prod.fst).Nodup)
    (hproto : entries.lookup protoName = none) :
    object.assignAll keep entries =
      { object with members := object.members ++ entries.filter fun member => keep member.1 } := by
  induction entries generalizing object with
  | nil => simp [PlainObject.assignAll]
  | cons member rest ih =>
      obtain ⟨key, value⟩ := member
      have hkey : key ≠ protoName := by
        rintro rfl
        simp at hproto
      rw [List.lookup_cons, beq_false_of_ne hkey.symm] at hproto
      have hrest : ((object.members ++ [(key, value)] ++ rest).map Prod.fst).Nodup := by
        simpa using hkeys
      rw [PlainObject.assignAll]
      cases hkeep : keep key with
      | false =>
          have hskipped : ((object.members ++ rest).map Prod.fst).Nodup := by
            refine hrest.sublist (List.Sublist.map _ ?_)
            simp
          rw [if_neg (by simp), ih hskipped hproto]
          simp [hkeep]
      | true =>
          have hnew : key ∉ object.members.map Prod.fst := by
            rw [List.map_append, List.map_append, List.nodup_append] at hrest
            have hmembers := (List.nodup_append.mp hrest.1).2.2
            exact fun hmem => hmembers key hmem key (by simp) rfl
          have hassigned : object.assign key value =
              { object with members := object.members ++ [(key, value)] } := by
            rw [PlainObject.assign, if_neg (fun h => hkey h.1), assignMember_new value hnew]
          rw [if_pos rfl, hassigned, ih hrest hproto]
          simp [hkeep]

end KyaOs
