import KyaOs.Js.String
import Mathlib.Data.List.Nodup

/-!
# JSON values

The values `JSON.parse` can return. A finite number is kept as the text ECMAScript
prints it with, which determines the double up to the sign of zero; a number too
large for a double is an infinity. Objects list their members in property order.

Two values are the same when they hold the same kind of node at every path, so
the order of members does not matter.
-/

open Js

namespace Json

/-- A unit that can occur in a number. -/
def isNumberUnit (u : UInt16) : Bool := isDigit u || u ∈ js "+-.eE"

/-- What follows a nonempty run of digits. -/
def afterDigits (s : JsString) : Option JsString :=
  match s with
  | [] => none
  | u :: rest => if isDigit u then some (rest.dropWhile isDigit) else none

/-- What follows the integer part: no digit may follow a leading zero. -/
def afterInteger (s : JsString) : Option JsString :=
  match s with
  | 0x30 :: rest => some rest
  | s => afterDigits s

def afterFraction (s : JsString) : Option JsString :=
  match s with
  | 0x2E :: rest => afterDigits rest
  | s => some s

def afterExponent (s : JsString) : Option JsString :=
  match s with
  | u :: rest =>
    if u ∈ js "eE" then
      match rest with
      | v :: rest' => if v ∈ js "+-" then afterDigits rest' else afterDigits rest
      | [] => none
    else some s
  | [] => some s

/-- The number grammar of JSON. -/
def isNumberText (s : JsString) : Bool :=
  s.all isNumberUnit &&
    ((afterInteger (if startsWith s (js "-") then s.drop 1 else s)).bind fun rest =>
      (afterFraction rest).bind afterExponent) = some []

/-- The text of a finite number. -/
abbrev NumberText := { text : JsString // isNumberText text = true }

inductive Number where
  | finite (text : NumberText)
  /-- A number text beyond the largest double. -/
  | infinity (negative : Bool)
  deriving DecidableEq

end Json

inductive Json where
  | null
  | bool (value : Bool)
  | number (value : Json.Number)
  | string (value : JsString)
  | array (items : List Json)
  | object (members : List (JsString × Json))

namespace Json

/-- Every object names each member once. -/
inductive WellFormed : Json → Prop
  | null : WellFormed .null
  | bool (b : Bool) : WellFormed (.bool b)
  | number (n : Number) : WellFormed (.number n)
  | string (s : JsString) : WellFormed (.string s)
  | array {items : List Json} (h : ∀ item ∈ items, WellFormed item) : WellFormed (.array items)
  | object {members : List (JsString × Json)} (hkeys : (members.map Prod.fst).Nodup)
      (h : ∀ member ∈ members, WellFormed member.2) : WellFormed (.object members)

/-- One step into a value. -/
inductive Step where
  | index (i : Nat)
  | key (name : JsString)

/-- What a node is, its children aside. -/
inductive Node where
  | null
  | bool (value : Bool)
  | number (value : Number)
  | string (value : JsString)
  | array
  | object
  deriving DecidableEq

def node : Json → Node
  | .null => .null
  | .bool b => .bool b
  | .number n => .number n
  | .string s => .string s
  | .array _ => .array
  | .object _ => .object

def child : Json → Step → Option Json
  | .array items, .index i => items[i]?
  | .object members, .key name => members.lookup name
  | _, _ => none

def get? : Json → List Step → Option Json
  | v, [] => some v
  | v, step :: path => (v.child step).bind (get? · path)

/-- The node at a path. -/
def nodeAt (v : Json) (path : List Step) : Option Node := (v.get? path).map node

/-- The same value, up to the order of members. -/
def Same (v w : Json) : Prop := ∀ path, v.nodeAt path = w.nodeAt path

@[simp] theorem nodeAt_nil (v : Json) : v.nodeAt [] = some v.node := rfl

@[simp] theorem nodeAt_cons (v : Json) (step : Step) (path : List Step) :
    v.nodeAt (step :: path) = (v.child step).bind (nodeAt · path) := by
  simp only [nodeAt, get?]
  cases v.child step <;> rfl

/-- With distinct names, looking a member up finds the listed ones. -/
theorem lookup_eq_some_iff {members : List (JsString × Json)}
    (hkeys : (members.map Prod.fst).Nodup) {name : JsString} {v : Json} :
    members.lookup name = some v ↔ (name, v) ∈ members := by
  induction members with
  | nil => simp
  | cons member rest ih =>
      obtain ⟨name', v'⟩ := member
      rw [List.map_cons, List.nodup_cons] at hkeys
      rw [List.lookup_cons, List.mem_cons]
      by_cases hsame : name = name'
      · subst hsame
        simp only [beq_self_eq_true, Option.some.injEq, Prod.mk.injEq, true_and]
        refine ⟨fun h => .inl h.symm, ?_⟩
        rintro (rfl | hmem)
        · rfl
        · exact absurd (List.mem_map_of_mem hmem) hkeys.1
      · rw [beq_false_of_ne hsame]
        simp [ih hkeys.2, hsame]

/-- Reordered members are looked up alike. -/
theorem lookup_perm {members members' : List (JsString × Json)}
    (hkeys : (members.map Prod.fst).Nodup) (hperm : members.Perm members') (name : JsString) :
    members.lookup name = members'.lookup name := by
  have hkeys' : (members'.map Prod.fst).Nodup := (hperm.map Prod.fst).nodup_iff.mp hkeys
  ext v
  rw [lookup_eq_some_iff hkeys, lookup_eq_some_iff hkeys', hperm.mem_iff]

end Json
