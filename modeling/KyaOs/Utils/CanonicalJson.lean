import KyaOs.Js.Throws
import KyaOs.Json.Canonical
import Mathlib.Data.Option.Basic

/-!
# Strict JSON canonicalization

`canonicalizeJson` over JSON values whose numbers are the doubles of the runtime,
a parameter. A value that JSON has no form for is represented by the problem
`serialize` names when it reaches it.
-/

open Js

namespace KyaOs

/-- The numbers of the runtime, as far as canonicalization and `JSON.parse` use them. -/
structure Doubles (D : Type) where
  isFinite : D → Bool
  isInteger : D → Bool
  isSafeInteger : D → Bool
  /-- `x === y`. -/
  strictEquals : D → D → Bool
  /-- `String(x)`, which `JSON.stringify` writes for a finite number. -/
  text : D → JsString
  /-- The number `JSON.parse` reads a number text as. -/
  ofText : JsString → D

inductive JsonValue (D : Type) where
  | null
  | bool (value : Bool)
  | number (value : D)
  | string (value : JsString)
  | array (items : List (JsonValue D))
  | object (members : List (JsString × JsonValue D))
  /-- `undefined`, a function, a symbol, a bigint, a cyclic reference, an accessor or a
  non-plain object. -/
  | refused (problem : JsString)

/-- Whether a string holds an unpaired UTF-16 surrogate. -/
def hasLoneSurrogate : JsString → Bool
  | [] => false
  | [u] => Json.isLeadSurrogate u || Json.isTrailSurrogate u
  | u :: v :: rest =>
    if Json.isLeadSurrogate u then
      if Json.isTrailSurrogate v then hasLoneSurrogate rest else true
    else if Json.isTrailSurrogate u then true
    else hasLoneSurrogate (v :: rest)

/-- `Serializer.fail`, at the path reached. -/
def cannotCanonicalize {α : Type} (path problem suffix : JsString) : Except Error α :=
  .error (.typeError (js "Cannot canonicalize " ++ problem ++ js " at $" ++ path ++ suffix))

section Serialize

variable {D : Type} (numbers : Doubles D)

mutual

/-- The text `serialize` writes for a value at a path. -/
def serialize (path : JsString) : JsonValue D → Except Error JsString
  | .null => .ok (js "null")
  | .bool true => .ok (js "true")
  | .bool false => .ok (js "false")
  | .string value =>
    if hasLoneSurrogate value then cannotCanonicalize path (js "string with lone surrogate") []
    else .ok (Json.quote value)
  | .number value =>
    if ¬ numbers.isFinite value then
      cannotCanonicalize path (js "non-finite number") (js ": " ++ numbers.text value)
    else if numbers.isInteger value ∧ ¬ numbers.isSafeInteger value then
      cannotCanonicalize path (js "unsafe integer") (js ": " ++ numbers.text value)
    else .ok (numbers.text value)
  | .array items => do
    let texts ← arrayElements path 0 items
    return 0x5B :: (js ",").intercalate texts ++ [0x5D]
  | .object members =>
    if members.any fun member => hasLoneSurrogate member.1 then
      cannotCanonicalize path (js "object key with lone surrogate") []
    else do
      -- a member is written when its turn in name order comes
      let texts ← (Json.byName (objectMembers path members)).mapM fun member => do
        return Json.quote member.1 ++ 0x3A :: (← member.2)
      return 0x7B :: (js ",").intercalate texts ++ [0x7D]
  | .refused problem => cannotCanonicalize path problem []

def arrayElements (path : JsString) (index : Nat) : List (JsonValue D) →
    Except Error (List JsString)
  | [] => .ok []
  | item :: rest => do
    let text ← serialize (path ++ js "[" ++ js (toString index) ++ js "]") item
    let texts ← arrayElements path (index + 1) rest
    return text :: texts

/-- Each member's name and what writing its value comes to. -/
def objectMembers (path : JsString) :
    List (JsString × JsonValue D) → List (JsString × Except Error JsString)
  | [] => []
  | (name, value) :: rest =>
    (name, serialize (path ++ js "." ++ name) value) :: objectMembers path rest

end

/-- Canonicalize a strict JSON value according to RFC 8785. -/
def canonicalizeJson (value : JsonValue D) : Except Error JsString := serialize numbers [] value

end Serialize

namespace JsonValue

variable {D : Type}

/-- Every object names each member once. -/
inductive WellFormed : JsonValue D → Prop
  | null : WellFormed .null
  | bool (value : Bool) : WellFormed (.bool value)
  | number (value : D) : WellFormed (.number value)
  | string (value : JsString) : WellFormed (.string value)
  | refused (problem : JsString) : WellFormed (.refused problem)
  | array {items : List (JsonValue D)} (h : ∀ item ∈ items, WellFormed item) :
      WellFormed (.array items)
  | object {members : List (JsString × JsonValue D)} (hkeys : (members.map Prod.fst).Nodup)
      (h : ∀ member ∈ members, WellFormed member.2) : WellFormed (.object members)

def child : JsonValue D → Json.Step → Option (JsonValue D)
  | .array items, .index i => items[i]?
  | .object members, .key name => members.lookup name
  | _, _ => none

def get? : JsonValue D → List Json.Step → Option (JsonValue D)
  | value, [] => some value
  | value, step :: path => (value.child step).bind (get? · path)

/-- The same node, its children aside, with `-0` the same as `0`. -/
inductive NodeSame (numbers : Doubles D) : JsonValue D → JsonValue D → Prop
  | null : NodeSame numbers .null .null
  | bool (value : Bool) : NodeSame numbers (.bool value) (.bool value)
  | number {x y : D} (h : numbers.strictEquals x y = true) :
      NodeSame numbers (.number x) (.number y)
  | string (value : JsString) : NodeSame numbers (.string value) (.string value)
  | array (items items' : List (JsonValue D)) : NodeSame numbers (.array items) (.array items')
  | object (members members' : List (JsString × JsonValue D)) :
      NodeSame numbers (.object members) (.object members')

/-- The same value, up to the order of members and the sign of zero. -/
def Same (numbers : Doubles D) (v w : JsonValue D) : Prop :=
  ∀ path, Option.Rel (NodeSame numbers) (v.get? path) (w.get? path)

/-- Members permuted, at any depth. -/
inductive Reordered : JsonValue D → JsonValue D → Prop
  | refl (v : JsonValue D) : Reordered v v
  | members {members members' : List (JsString × JsonValue D)} (h : members.Perm members') :
      Reordered (.object members) (.object members')
  | item {v v' : JsonValue D} (before after : List (JsonValue D)) (h : Reordered v v') :
      Reordered (.array (before ++ v :: after)) (.array (before ++ v' :: after))
  | member {v v' : JsonValue D} (before after : List (JsString × JsonValue D)) (name : JsString)
      (h : Reordered v v') :
      Reordered (.object (before ++ (name, v) :: after)) (.object (before ++ (name, v') :: after))
  | trans {u v w : JsonValue D} (huv : Reordered u v) (hvw : Reordered v w) : Reordered u w

mutual

/-- What `JSON.parse` makes of a text's value. -/
def ofJson (numbers : Doubles D) : Json → JsonValue D
  | .null => .null
  | .bool value => .bool value
  | .number n => .number (numbers.ofText (Json.numberText n))
  | .string value => .string value
  | .array items => .array (ofJsonItems numbers items)
  | .object members => .object (ofJsonMembers numbers members)

def ofJsonItems (numbers : Doubles D) : List Json → List (JsonValue D)
  | [] => []
  | item :: rest => ofJson numbers item :: ofJsonItems numbers rest

def ofJsonMembers (numbers : Doubles D) : List (JsString × Json) → List (JsString × JsonValue D)
  | [] => []
  | (name, v) :: rest => (name, ofJson numbers v) :: ofJsonMembers numbers rest

end

/-- `JSON.parse(text)`. -/
def parse (numbers : Doubles D) (text : JsString) : Option (JsonValue D) :=
  (Json.parse text).map (ofJson numbers)

end JsonValue

/-- What ECMAScript says of the text of finite numbers: it is a JSON number, reads
back as the number, and tells apart what `===` tells apart. -/
structure Doubles.Prints {D : Type} (numbers : Doubles D) : Prop where
  isText : ∀ x, numbers.isFinite x = true → Json.isNumberText (numbers.text x) = true
  injective : ∀ x y, numbers.isFinite x = true → numbers.isFinite y = true →
    (numbers.text x = numbers.text y ↔ numbers.strictEquals x y = true)
  parses : ∀ x, numbers.isFinite x = true →
    numbers.strictEquals (numbers.ofText (numbers.text x)) x = true

end KyaOs
