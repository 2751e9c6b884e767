import KyaOs.Json.Value

/-!
# JSON text

`stringify` is `JSON.stringify` on a JSON value, without indentation, and `parse`
is the grammar of `JSON.parse`, which keeps a number by its text. A value's text
reads back as the value it shows: an infinity has the text `null`.
-/

open Js

namespace Json

def isLeadSurrogate (u : UInt16) : Bool := 0xD800 ≤ u && u ≤ 0xDBFF
def isTrailSurrogate (u : UInt16) : Bool := 0xDC00 ≤ u && u ≤ 0xDFFF

/-- The letter of a unit's two-character escape. -/
def shortEscape? (u : UInt16) : Option UInt16 :=
  ([(0x08, 0x62), (0x09, 0x74), (0x0A, 0x6E), (0x0C, 0x66), (0x0D, 0x72), (0x22, 0x22),
    (0x5C, 0x5C)] : List (UInt16 × UInt16)).lookup u

def hexDigit (n : Nat) : UInt16 := UInt16.ofNat (if n < 10 then 0x30 + n else 0x61 + (n - 10))

/-- `\u` and four lowercase hexadecimal digits. -/
def unicodeEscape (u : UInt16) : JsString :=
  [0x5C, 0x75, hexDigit (u.toNat / 4096), hexDigit (u.toNat / 256 % 16),
    hexDigit (u.toNat / 16 % 16), hexDigit (u.toNat % 16)]

/-- A unit that is not half of a surrogate pair. -/
def quoteUnit (u : UInt16) : JsString :=
  match shortEscape? u with
  | some letter => [0x5C, letter]
  | none =>
    if u < 0x20 || isLeadSurrogate u || isTrailSurrogate u then unicodeEscape u else [u]

def quoteUnits : JsString → JsString
  | [] => []
  | [u] => quoteUnit u
  | u :: v :: rest =>
    if isLeadSurrogate u && isTrailSurrogate v then u :: v :: quoteUnits rest
    else quoteUnit u ++ quoteUnits (v :: rest)

/-- `JSON.stringify` of a string. -/
def quote (s : JsString) : JsString := 0x22 :: quoteUnits s ++ [0x22]

def hexValue (u : UInt16) : Option Nat :=
  if isDigit u then some (digitValue u)
  else if 0x61 ≤ u && u ≤ 0x66 then some (u.toNat - 0x61 + 10)
  else if 0x41 ≤ u && u ≤ 0x46 then some (u.toNat - 0x41 + 10)
  else none

/-- The unit of a two-character escape. -/
def longEscape? (letter : UInt16) : Option UInt16 :=
  ([(0x62, 0x08), (0x74, 0x09), (0x6E, 0x0A), (0x66, 0x0C), (0x72, 0x0D), (0x22, 0x22),
    (0x5C, 0x5C), (0x2F, 0x2F)] : List (UInt16 × UInt16)).lookup letter

/-- The units of a string up to its closing quote, and what follows it. -/
def parseUnits : JsString → Option (JsString × JsString)
  | [] => none
  | u :: rest =>
    if u = 0x22 then some ([], rest)
    else if u = 0x5C then
      match rest with
      | [] => none
      | letter :: rest =>
        if letter = 0x75 then
          match rest with
          | a :: b :: c :: d :: rest => do
              let u := UInt16.ofNat (4096 * (← hexValue a) + 256 * (← hexValue b) +
                16 * (← hexValue c) + (← hexValue d))
              (parseUnits rest).map fun (s, after) => (u :: s, after)
          | _ => none
        else (longEscape? letter).bind fun u =>
          (parseUnits rest).map fun (s, after) => (u :: s, after)
    else if u < 0x20 then none
    else (parseUnits rest).map fun (s, after) => (u :: s, after)

def numberText : Number → JsString
  | .finite text => text.1
  | .infinity _ => js "null"

mutual

def stringify : Json → JsString
  | .null => js "null"
  | .bool true => js "true"
  | .bool false => js "false"
  | .number n => numberText n
  | .string s => quote s
  | .array items => 0x5B :: stringifyItems items ++ [0x5D]
  | .object members => 0x7B :: stringifyMembers members ++ [0x7D]

def stringifyItems : List Json → JsString
  | [] => []
  | [item] => stringify item
  | item :: next :: rest => stringify item ++ 0x2C :: stringifyItems (next :: rest)

def stringifyMembers : List (JsString × Json) → JsString
  | [] => []
  | [(name, v)] => quote name ++ 0x3A :: stringify v
  | (name, v) :: next :: rest =>
    quote name ++ 0x3A :: stringify v ++ 0x2C :: stringifyMembers (next :: rest)

end

/-- JSON white space. -/
def skipSpace (s : JsString) : JsString := s.dropWhile (· ∈ js " \t\n\r")

/-- A member of an object, replacing an earlier one of its name. -/
def setMember (name : JsString) (v : Json) : List (JsString × Json) → List (JsString × Json)
  | [] => [(name, v)]
  | (name', v') :: rest =>
    if name' = name then (name, v) :: rest else (name', v') :: setMember name v rest

def parseNumber (s : JsString) : Option (Json × JsString) :=
  let text := s.takeWhile isNumberUnit
  if h : isNumberText text = true then
    some (.number (.finite ⟨text, h⟩), s.dropWhile isNumberUnit)
  else none

def parseLiteral (literal : JsString) (v : Json) (s : JsString) : Option (Json × JsString) :=
  if startsWith s literal then some (v, s.drop literal.length) else none

/-- What follows a punctuator. -/
def punctuator (u : UInt16) (s : JsString) : Option JsString :=
  match skipSpace s with
  | [] => none
  | v :: rest => if v = u then some rest else none

mutual

/-- A value and what follows it. -/
def parseValue : Nat → JsString → Option (Json × JsString)
  | 0, _ => none
  | fuel + 1, s =>
    match skipSpace s with
    | [] => none
    | u :: rest =>
      if u = 0x6E then parseLiteral (js "ull") .null rest
      else if u = 0x74 then parseLiteral (js "rue") (.bool true) rest
      else if u = 0x66 then parseLiteral (js "alse") (.bool false) rest
      else if u = 0x22 then (parseUnits rest).map fun (s, after) => (.string s, after)
      else if u = 0x5B then
        match punctuator 0x5D rest with
        | some after => some (.array [], after)
        | none => (parseItems fuel rest).map fun (items, after) => (.array items, after)
      else if u = 0x7B then
        match punctuator 0x7D rest with
        | some after => some (.object [], after)
        | none => (parseMembers fuel [] rest).map fun (members, after) => (.object members, after)
      else parseNumber (u :: rest)

/-- The items of a nonempty array and what follows its closing bracket. -/
def parseItems : Nat → JsString → Option (List Json × JsString)
  | 0, _ => none
  | fuel + 1, s => do
    let (item, rest) ← parseValue fuel s
    match punctuator 0x5D rest with
    | some after => return ([item], after)
    | none =>
      let (items, after) ← parseItems fuel (← punctuator 0x2C rest)
      return (item :: items, after)

/-- The members of a nonempty object, after the ones already read. -/
def parseMembers : Nat → List (JsString × Json) → JsString →
    Option (List (JsString × Json) × JsString)
  | 0, _, _ => none
  | fuel + 1, read, s => do
    let (name, rest) ← parseUnits (← punctuator 0x22 s)
    let (v, rest) ← parseValue fuel (← punctuator 0x3A rest)
    let read := setMember name v read
    match punctuator 0x7D rest with
    | some after => return (read, after)
    | none => parseMembers fuel read (← punctuator 0x2C rest)

end

/-- `JSON.parse`, with every level of nesting costing at least one unit of text. -/
def parse (s : JsString) : Option Json := do
  let (v, rest) ← parseValue s.length s
  if skipSpace rest = [] then return v else none

attribute [grind =] quoteUnits parseUnits stringify parseValue

example : stringify (.object [(js "a\"", .array [.null, .bool true])]) =
    js "\x7b\"a\\\"\":[null,true]\x7d" := by decide +kernel

example : (parse (js " \x7b \"k\" : [ 1.5e3 , \"\\u0041\" ] \x7d ")).map stringify =
    some (js "\x7b\"k\":[1.5e3,\"A\"]\x7d") := by decide +kernel

end Json
