import KyaOs.Js.Number
import KyaOs.Json.SortKeys

/-!
# Entity Card delegation chains

`validateDelegationChain` of the Entity Card profile: one credential per hop,
each attenuating the one before it. The structures are what
`DelegationCredentialSchema` lets through; a caveat's members outside the schema
are JSON as `JSON.parse` returns it. `Date.parse` is a parameter, `none` for `NaN`.
-/

namespace KyaOs.Card

open Js

/-- A caveat: the members the schema names, and the ones passed through. -/
structure Caveat where
  type : JsString
  date : Option JsString := none
  limit : Option JsString := none
  currency : Option JsString := none
  others : List (JsString × Json) := []
  type_ne_nil : type ≠ [] := by decide
  others_keys : (others.map Prod.fst).Nodup := by decide
  others_disjoint : ∀ name ∈ [js "type", js "date", js "limit", js "currency"],
    name ∉ others.map Prod.fst := by decide
  others_wellFormed : ∀ member ∈ others, member.2.WellFormed

/-- The caveat as the object it is. -/
def Caveat.toJson (caveat : Caveat) : Json :=
  .object ((js "type", .string caveat.type) ::
    (caveat.date.toList.map (fun date => (js "date", .string date)) ++
      caveat.limit.toList.map (fun limit => (js "limit", .string limit)) ++
      caveat.currency.toList.map (fun currency => (js "currency", .string currency)) ++
      caveat.others))

/-- The attenuated capability carried as `credentialSubject`. -/
structure ZcapCapability where
  id : JsString
  controller : Option JsString := none
  invoker : Option JsString := none
  parentCapability : JsString
  invocationTarget : JsString
  allowedAction : List JsString
  caveats : Option (List Caveat) := none

/-- `issuer: string | { id: string }`. -/
inductive Issuer where
  | did (id : JsString)
  | object (id : JsString)

structure DelegationCredential where
  issuer : Issuer
  validFrom : Option JsString := none
  validUntil : Option JsString := none
  credentialSubject : ZcapCapability

def issuerDid (vc : DelegationCredential) : JsString :=
  match vc.issuer with
  | .did id => id
  | .object id => id

/-- The delegate granted this capability: `invoker`, else `controller`. -/
def invokerDid (vc : DelegationCredential) : Option JsString :=
  vc.credentialSubject.invoker <|> vc.credentialSubject.controller

def responsiblePartyOf (chain : List DelegationCredential) : Option JsString :=
  chain.head?.map issuerDid

def leafInvokerOf (chain : List DelegationCredential) : Option JsString :=
  chain.getLast?.bind invokerDid

/-- `vc.credentialSubject.caveats ?? []`. -/
def DelegationCredential.caveats (vc : DelegationCredential) : List Caveat :=
  vc.credentialSubject.caveats.getD []

structure DecimalParts where
  whole : JsString
  fraction : JsString
  deriving DecidableEq

/-- A non-negative decimal split into its digit strings. -/
def decimalParts (dec : JsString) : Option DecimalParts :=
  let text := trim dec
  let whole := text.takeWhile isDigit
  if whole = [] then none
  else match text.dropWhile isDigit with
    | [] => some ⟨whole, []⟩
    | u :: fraction =>
      if u = 0x2E ∧ fraction ≠ [] ∧ fraction.all isDigit = true then some ⟨whole, fraction⟩
      else none

/-- `BigInt(digits)`. -/
def digitsValue (digits : JsString) : Nat := digits.foldl (fun n u => 10 * n + digitValue u) 0

/-- `s.padEnd(n, '0')`. -/
def padEnd (s : JsString) (n : Nat) : JsString := s ++ List.replicate (n - s.length) 0x30

/-- `child ≤ parent`, both scaled to the longer fraction. -/
def decimalLte (child parent : JsString) : Bool :=
  match decimalParts child, decimalParts parent with
  | some c, some p =>
    let scale := max c.fraction.length p.fraction.length
    let scaled := fun (parts : DecimalParts) =>
      digitsValue (parts.whole ++ padEnd parts.fraction scale)
    scaled c ≤ scaled p
  | _, _ => false

section Chain

variable (dateParse : JsString → Option Int) (numberText : JsNumber → JsString)

def dateLte (child parent : JsString) : Bool :=
  match dateParse child, dateParse parent with
  | some c, some p => c ≤ p
  | _, _ => false

/-- `deepEqual`: one text once the member names are sorted. -/
def deepEqual (a b : Json) : Bool :=
  Json.stringify (Json.sortKeys a) = Json.stringify (Json.sortKeys b)

/-- Whether `child` is at least as narrow as `parent` for the same caveat. -/
def caveatNarrows (parent child : Caveat) : Bool :=
  if parent.type ≠ child.type then false
  else if parent.type = js "ValidUntil" then
    match parent.date, child.date with
    | some parentDate, some childDate => dateLte dateParse childDate parentDate
    | _, _ => false
  else if parent.type = js "MaxAmount" then
    let currencyNarrows := parent.currency = none || parent.currency = child.currency
    match parent.limit, child.limit with
    | some parentLimit, some childLimit => currencyNarrows && decimalLte childLimit parentLimit
    | _, _ => false
  else deepEqual parent.toJson child.toJson

def actionReasons (parent child : List JsString) : List JsString :=
  let escalated := child.filter (· ∉ parent)
  if escalated.length = 0 then []
  else [js "allowedAction escalation: [" ++ (js ", ").intercalate escalated ++ js "] ⊄ parent"]

def caveatReasons (parent child : List Caveat) : List JsString :=
  (parent.filter fun pc => !child.any (caveatNarrows dateParse pc)).map fun pc =>
    js "caveat \"" ++ pc.type ++
      js "\" broadened or dropped by child (monotone-narrowing violated)"

/-- `if (p) reasons.push(reason)`. -/
def reasonIf (p : Prop) [Decidable p] (reason : JsString) : List JsString :=
  if p then [reason] else []

/-- Why `child` fails to attenuate `parent`; nothing for a valid hop. -/
def attenuates (parent child : DelegationCredential) : List JsString :=
  let p := parent.credentialSubject
  let c := child.credentialSubject
  actionReasons p.allowedAction c.allowedAction ++
  caveatReasons dateParse parent.caveats child.caveats ++
  reasonIf (∃ parentUntil ∈ parent.validUntil, ∀ childUntil ∈ child.validUntil,
      dateLte dateParse childUntil parentUntil = false)
    (js "validUntil broadened: child must expire no later than its parent") ++
  reasonIf (invokerDid parent ≠ some (issuerDid child))
    (js "broken continuity: parent invoker ≠ child issuer (only the delegate may re-delegate)") ++
  reasonIf (c.parentCapability ≠ p.id)
    (js "broken continuity: child.parentCapability ≠ parent capability id") ++
  reasonIf (c.invocationTarget ≠ p.invocationTarget)
    (js "invocationTarget drift: the resource must be constant along the chain")

structure DelegationChainContext where
  resourceOwner : Option JsString := none
  resource : Option JsString := none
  maxChainLength : Option JsNumber := none
  maxDepth : Option JsNumber := none
  /-- The clock's answer, in milliseconds. -/
  now : ℚ

/-- `${i}` for an array index. -/
def indexText (i : Nat) : JsString := js (Nat.repr i)

/-- Why one hop is outside its validity window at `nowMs`. -/
def hopExpiryReasons (nowMs : ℚ) (vc : DelegationCredential) (i : Nat) : List JsString :=
  let hop := js "hop " ++ indexText i
  (match vc.validUntil with
    | none => []
    | some validUntil =>
      match dateParse validUntil with
      | none => [hop ++ js ": unparseable validUntil \"" ++ validUntil ++ js "\""]
      | some t => reasonIf (t < nowMs)
          (hop ++ js ": expired (validUntil " ++ validUntil ++ js " is in the past)")) ++
  (match vc.validFrom with
    | none => []
    | some validFrom =>
      match dateParse validFrom with
      | none => [hop ++ js ": unparseable validFrom \"" ++ validFrom ++ js "\""]
      | some t => reasonIf (nowMs < t)
          (hop ++ js ": not yet valid (validFrom " ++ validFrom ++ js " is in the future)")) ++
  vc.caveats.flatMap fun caveat =>
    if caveat.type = js "ValidUntil" then
      match caveat.date with
      | none => []
      | some date =>
        match dateParse date with
        | none => [hop ++ js ": unparseable ValidUntil caveat \"" ++ date ++ js "\""]
        | some t => reasonIf (t < nowMs)
            (hop ++ js ": expired caveat (ValidUntil " ++ date ++ js " is in the past)")
    else []

def expiryReasons (chain : List DelegationCredential) (nowMs : ℚ) : List JsString :=
  chain.zipIdx.flatMap fun (vc, i) => hopExpiryReasons dateParse nowMs vc i

structure DelegationChainResult where
  ok : Bool
  reasons : List JsString
  responsibleParty : Option JsString := none
  leafInvoker : Option JsString := none
  invocationTarget : Option JsString := none
  allowedAction : List JsString
  depth : Nat

def rootReasons (root : DelegationCredential) (ctx : DelegationChainContext) : List JsString :=
  let subject := root.credentialSubject
  reasonIf (subject.parentCapability ≠ subject.invocationTarget)
    (js "root delegation: parentCapability MUST equal invocationTarget (the resource)") ++
  reasonIf (∃ resource ∈ ctx.resource, subject.invocationTarget ≠ resource)
    (js "root invocationTarget ≠ the expected resource") ++
  reasonIf (∃ owner ∈ ctx.resourceOwner, issuerDid root ≠ owner)
    (js "root issuer ≠ the resource owner (responsibleParty mismatch)")

def lengthReasons (maxChainLength : Option JsNumber) (depth : Nat) : List JsString :=
  match maxChainLength with
  | none => []
  | some maxChainLength =>
    let notPositive := js "maxChainLength must be a positive integer (got " ++
      numberText maxChainLength ++ js ")"
    match maxChainLength.toInt? with
    | none => [notPositive]
    | some limit =>
      if limit < 1 then [notPositive]
      else reasonIf (limit < depth) (js "delegation chain depth " ++ indexText depth ++
        js " exceeds the maximum of " ++ numberText maxChainLength)

/-- `for (let i = 1; i < depth; i += 1)`: the reasons of each hop against the one before. -/
def hopReasons : List DelegationCredential → List JsString
  | parent :: child :: rest => attenuates dateParse parent child ++ hopReasons (child :: rest)
  | _ => []

def validateDelegationChain (chain : List DelegationCredential) (ctx : DelegationChainContext) :
    DelegationChainResult :=
  let depth := chain.length
  match chain.head?, chain.getLast? with
  | some root, some leaf =>
    let reasons := lengthReasons numberText (ctx.maxChainLength <|> ctx.maxDepth) depth ++
      rootReasons root ctx ++ hopReasons dateParse chain ++ expiryReasons dateParse chain ctx.now
    { ok := reasons.length = 0
      reasons := reasons
      responsibleParty := responsiblePartyOf chain
      leafInvoker := leafInvokerOf chain
      invocationTarget := some leaf.credentialSubject.invocationTarget
      allowedAction := leaf.credentialSubject.allowedAction
      depth := depth }
  | _, _ => { ok := false, reasons := [js "empty delegation chain"], allowedAction := [], depth }

end Chain

end KyaOs.Card
