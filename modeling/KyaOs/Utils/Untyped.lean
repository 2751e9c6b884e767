import KyaOs.Js.Number
import KyaOs.Utils.Utf8

/-!
# Values of any JSON type

What the code does with a value it was handed as JSON, whatever its type. `Untyped` is
such a value or `undefined`. The member names read this way are on no built-in prototype,
so only an object answers them. Two objects or arrays are identical only when they are
one part of one value; the values compared here always come from different places.
-/

open Js Json

namespace KyaOs

/-- A JSON value, or `undefined`. -/
abbrev Untyped := Option (JsonValue JsNumber)

namespace Untyped

/-- The truth value of a value. -/
def truthy : Untyped → Bool
  | none | some .null => false
  | some (.bool value) => value
  | some (.number x) => x.truthy
  | some (.string value) => value ≠ []
  | some (.array _) | some (.object _) | some (.refused _) => true

/-- `value?.name`. -/
def member? (value : Untyped) (name : JsString) : Untyped :=
  match value with
  | some (.object members) => members.lookup name
  | _ => none

/-- `value.name`. -/
def member (value : Untyped) (name : JsString) : Except Error Untyped :=
  match value with
  | none => .error (.typeError (js "Cannot read properties of undefined"))
  | some .null => .error (.typeError (js "Cannot read properties of null"))
  | some _ => .ok (value.member? name)

/-- `value ?? fallback`. -/
def orElse (value : Untyped) (fallback : JsonValue JsNumber) : JsonValue JsNumber :=
  match value with
  | none | some .null => fallback
  | some v => v

/-- `typeof value === "object" && value !== null`. -/
def isObject : Untyped → Bool
  | some (.array _) | some (.object _) => true
  | _ => false

/-- `value === text`. -/
def isString (value : Untyped) (text : JsString) : Bool :=
  match value with
  | some (.string s) => s == text
  | _ => false

@[simp] theorem isString_iff {value : Untyped} {text : JsString} :
    value.isString text = true ↔ value = some (.string text) := by
  unfold isString
  split
  · simp
  · rename_i hnot
    simpa using fun h => hnot text h

end Untyped

namespace JsonValue

/-- `SameValueZero` of two values from different places. -/
def sameValueZero : JsonValue JsNumber → JsonValue JsNumber → Bool
  | .null, .null => true
  | .bool x, .bool y => x == y
  | .number x, .number y => x = y
  | .string x, .string y => x == y
  | _, _ => false

/-- `x === y`, of two values from different places. -/
def strictEquals : JsonValue JsNumber → JsonValue JsNumber → Bool
  | .number x, .number y => x = y ∧ x ≠ .nan
  | v, w => sameValueZero v w

@[simp] theorem sameValueZero_string {x : JsString} {v : JsonValue JsNumber} :
    sameValueZero (.string x) v = true ↔ v = .string x := by
  cases v with
  | string y => simpa [sameValueZero] using eq_comm
  | _ => simp [sameValueZero]

@[simp] theorem strictEquals_string {x : JsString} {v : JsonValue JsNumber} :
    strictEquals (.string x) v = true ↔ v = .string x := by
  cases v with
  | string y => simpa [strictEquals, sameValueZero] using eq_comm
  | _ => simp [strictEquals, sameValueZero]

/-- The strings that iterating over a string yields: its code points. -/
def codePointStrings : JsString → List JsString
  | [] => []
  | [u] => [[u]]
  | u :: v :: rest =>
    if isLeadSurrogate u && isTrailSurrogate v then [u, v] :: codePointStrings rest
    else [u] :: codePointStrings (v :: rest)

/-- The elements that `for (… of value)` or a spread goes through. -/
def iterate : JsonValue JsNumber → Except Error (List (JsonValue JsNumber))
  | .array items => .ok items
  | .string value => .ok ((codePointStrings value).map .string)
  | _ => .error (.typeError (js "value is not iterable"))

/-- The elements of `new Set(items)`, in order of first occurrence. -/
def distinct : List (JsonValue JsNumber) → List (JsonValue JsNumber)
  | [] => []
  | item :: rest => item :: (distinct rest).filter (!sameValueZero item ·)

/-- Strings are told apart by their text. -/
theorem distinct_strings (texts : List JsString) :
    ∃ kept : List JsString, distinct (texts.map .string) = kept.map .string ∧ kept.Nodup ∧
      ∀ text, text ∈ kept ↔ text ∈ texts := by
  induction texts with
  | nil => exact ⟨[], rfl, List.nodup_nil, fun _ => .rfl⟩
  | cons text rest ih =>
      obtain ⟨kept, hkept, hnodup, hmem⟩ := ih
      refine ⟨text :: kept.filter (· ≠ text), ?_, ?_, ?_⟩
      · rw [List.map_cons, distinct, hkept, List.map_cons, List.filter_map]
        congr 2
        apply List.filter_congr
        intro other _
        by_cases hsame : text = other
        · simp [sameValueZero, hsame]
        · simp [sameValueZero, hsame, Ne.symm hsame]
      · rw [List.nodup_cons]
        exact ⟨by simp, hnodup.filter _⟩
      · intro other
        by_cases hsame : other = text
        · simp [hsame]
        · simp [hsame, hmem]

section Text

variable (numbers : Doubles JsNumber)

mutual

/-- `String(value)`. An own `toString` of a JSON object is no function, and its `valueOf`
gives no primitive. -/
def toText : JsonValue JsNumber → Except Error JsString
  | .null => .ok (js "null")
  | .bool true => .ok (js "true")
  | .bool false => .ok (js "false")
  | .number x => .ok (numbers.text x)
  | .string value => .ok value
  | .array items => do return (js ",").intercalate (← joinTexts items)
  | .object members =>
    if (members.map Prod.fst).contains (js "toString") then
      .error (.typeError (js "Cannot convert object to primitive value"))
    else .ok (js "[object Object]")
  | .refused problem => .ok problem

/-- The texts that `items.join` puts together. -/
def joinTexts : List (JsonValue JsNumber) → Except Error (List JsString)
  | [] => .ok []
  | .null :: rest => do return [] :: (← joinTexts rest)
  | item :: rest => do
    let text ← toText item
    return text :: (← joinTexts rest)

end

end Text

end JsonValue

namespace JsonValue

mutual

/-- Whether `String(value)` returns: no object in it has a `toString` of its own. -/
def printable : JsonValue JsNumber → Bool
  | .array items => printableItems items
  | .object members => !(members.map Prod.fst).contains (js "toString")
  | _ => true

def printableItems : List (JsonValue JsNumber) → Bool
  | [] => true
  | item :: rest => printable item && printableItems rest

end

variable {numbers : Doubles JsNumber}

mutual

theorem toText_returns : ∀ v : JsonValue JsNumber,
    (∃ text, toText numbers v = .ok text) ↔ printable v = true
  | .null | .bool true | .bool false | .number _ | .string _ | .refused _ => by
      simp [toText, printable]
  | .object members => by
      cases hown : (members.map Prod.fst).contains (js "toString") with
      | true => simp only [toText, printable, hown, if_true]; simp
      | false => simp only [toText, printable, hown, Bool.false_eq_true, if_false]; simp
  | .array items => by
      rw [printable, ← joinTexts_returns items, toText]
      constructor
      · rintro ⟨text, htext⟩
        obtain ⟨texts, htexts, -⟩ := bind_eq_ok.mp htext
        exact ⟨texts, htexts⟩
      · rintro ⟨texts, htexts⟩
        exact ⟨_, bind_eq_ok.mpr ⟨texts, htexts, rfl⟩⟩

theorem joinTexts_returns : ∀ items : List (JsonValue JsNumber),
    (∃ texts, joinTexts numbers items = .ok texts) ↔ printableItems items = true
  | [] => by simp [joinTexts, printableItems]
  | item :: rest => by
      rw [printableItems, Bool.and_eq_true, ← joinTexts_returns rest, ← toText_returns item]
      cases item with
      | null =>
          rw [joinTexts]
          constructor
          · rintro ⟨texts, htexts⟩
            obtain ⟨others, hothers, -⟩ := bind_eq_ok.mp htexts
            exact ⟨⟨_, rfl⟩, others, hothers⟩
          · rintro ⟨-, others, hothers⟩
            exact ⟨_, bind_eq_ok.mpr ⟨others, hothers, rfl⟩⟩
      | _ =>
          simp only [joinTexts]
          constructor
          · rintro ⟨texts, htexts⟩
            obtain ⟨text, htext, hrest⟩ := bind_eq_ok.mp htexts
            obtain ⟨others, hothers, -⟩ := bind_eq_ok.mp hrest
            exact ⟨⟨text, htext⟩, others, hothers⟩
          · rintro ⟨⟨text, htext⟩, others, hothers⟩
            exact ⟨_, bind_eq_ok.mpr ⟨text, htext, bind_eq_ok.mpr ⟨others, hothers, rfl⟩⟩⟩

end

end JsonValue

/-- What the runtime does with numbers, dates and regular expressions in texts. -/
structure Runtime where
  numbers : Doubles JsNumber
  /-- `Number(text)`. -/
  toNumber : JsString → JsNumber
  /-- `Date.parse(text)`. -/
  dateParse : JsString → JsNumber
  /-- `none` when `new RegExp(source)` throws, otherwise the expression's `test`. -/
  regExp : JsString → Option (JsString → Bool)

/-- A runtime for samples that hold no numbers, dates or expressions. -/
def sampleRuntime : Runtime where
  numbers := {
    isFinite := fun _ => true
    isInteger := fun _ => true
    isSafeInteger := fun _ => true
    strictEquals := fun x y => x = y
    text := fun _ => js "0"
    ofText := fun _ => .ofNat 0 }
  toNumber := fun _ => .nan
  dateParse := fun _ => .nan
  regExp := fun _ => none

namespace Untyped

variable (runtime : Runtime)

/-- The text of a value in a template literal. -/
def text : Untyped → Except Error JsString
  | none => .ok (js "undefined")
  | some v => v.toText runtime.numbers

/-- `Number(value)`. An object or array is read as the text it prints as. -/
def toNumber : Untyped → Except Error JsNumber
  | none => .ok .nan
  | some .null => .ok (.ofNat 0)
  | some (.bool value) => .ok (.ofNat (if value then 1 else 0))
  | some (.number x) => .ok x
  | some (.string value) => .ok (runtime.toNumber value)
  | some v => do return runtime.toNumber (← v.toText runtime.numbers)

/-- `value.length`. -/
def length : Untyped → Except Error Untyped
  | some (.string value) => .ok (some (.number (.ofNat value.length)))
  | some (.array items) => .ok (some (.number (.ofNat items.length)))
  | value => value.member (js "length")

/-- Whether the value has a text. -/
def printable (value : Untyped) : Bool := value.all JsonValue.printable

variable {runtime} {value : Untyped}

theorem text_returns : (∃ text, value.text runtime = .ok text) ↔ value.printable = true := by
  cases value with
  | none => simp [text, printable]
  | some v => simpa [text, printable] using JsonValue.toText_returns v

theorem toNumber_returns :
    (∃ x, value.toNumber runtime = .ok x) ↔ value.printable = true := by
  have hread : ∀ v : JsonValue JsNumber,
      (∃ x, (do return runtime.toNumber (← v.toText runtime.numbers) : Except Error JsNumber) =
        .ok x) ↔ v.printable = true := by
    intro v
    rw [← JsonValue.toText_returns v]
    constructor
    · rintro ⟨x, hx⟩
      obtain ⟨text, htext, -⟩ := bind_eq_ok.mp hx
      exact ⟨text, htext⟩
    · rintro ⟨text, htext⟩
      exact ⟨_, bind_eq_ok.mpr ⟨text, htext, rfl⟩⟩
  cases value with
  | none => simp [toNumber, printable]
  | some v =>
      cases v with
      | array items => exact hread (.array items)
      | object members => exact hread (.object members)
      | refused problem => exact hread (.refused problem)
      | _ => simp [toNumber, printable, JsonValue.printable]

/-- Whether the value is `undefined` or `null`. -/
def isNullish : Untyped → Bool
  | none | some .null => true
  | _ => false

@[simp] theorem member_returns {name : JsString} :
    (∃ v, value.member name = .ok v) ↔ value.isNullish = false := by
  cases value with
  | none => simp [member, isNullish]
  | some v => cases v <;> simp [member, isNullish]

end Untyped

end KyaOs
