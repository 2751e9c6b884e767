import KyaOs.Utils.JsonMembers

/-!
# The shapes of one tool call

A caller holds a tool call as the `tools/call` request it sends or in the legacy shape,
whose method is the tool name. `Describes` reads a call from either shape; the alternate
shapes of a request all describe its call, up to the control arguments.
-/

namespace KyaOs.Proof

open Js

variable {D : Type}

/-- A request as a proof binds it; `params` is `none` for `undefined`. -/
structure ToolRequest (D : Type) where
  method : JsString
  params : Option (JsonValue D)

/-- A tool call read from either request shape. -/
structure ToolCall (D : Type) where
  name : JsString
  args : Members D
  /-- The `tools/call` params as sent, or as the legacy shape implies them. -/
  params : Members D

def toolsCallMethod : JsString := js "tools/call"

def kyaosControlPrefix : JsString := js "_kyaos"

def isKyaOsControlArg (key : JsString) : Bool := startsWith key kyaosControlPrefix

/-- `value ?? {}`, when it is a JSON object. -/
def objectOrEmpty : Option (JsonValue D) → Option (Members D)
  | none | some .null => some []
  | some (.object members) => some members
  | some _ => none

/-- The string `name` of params that are an object. -/
def paramsName : Option (JsonValue D) → Option (JsString × Members D)
  | some (.object params) =>
    match params.lookup (js "name") with
    | some (.string name) => some (name, params)
    | _ => none
  | _ => none

def asToolCall (request : ToolRequest D) : Option (ToolCall D) :=
  let wire := if request.method = toolsCallMethod then paramsName request.params else none
  match wire with
  | some (name, params) =>
    (objectOrEmpty (params.lookup (js "arguments"))).map fun args => { name, args, params }
  | none =>
    (objectOrEmpty request.params).map fun args =>
      { name := request.method
        args
        params := [(js "name", .string request.method), (js "arguments", .object args)] }

/-- The params of the covered request of a call. -/
def coveredParams (call : ToolCall D) : Members D :=
  assignMember (js "arguments") (.object (withoutKeys call.args isKyaOsControlArg))
    (withoutKeys call.params fun key => key = js "_meta")

def coveredToolCall (call : ToolCall D) : ToolRequest D :=
  { method := toolsCallMethod, params := some (.object (coveredParams call)) }

def legacyToolCall (call : ToolCall D) (args : Members D) : ToolRequest D :=
  { method := call.name, params := some (.object args) }

def alternateRequestShapes (request : ToolRequest D) : List (ToolRequest D) :=
  match asToolCall request with
  | none => []
  | some call =>
    [coveredToolCall call, legacyToolCall call call.args,
      legacyToolCall call (withoutKeys call.args isKyaOsControlArg)]

/-- The truth value of `value`. No JSON value is `undefined` or a bigint, the only ones
among those refused that can be false. -/
def truthy (numbers : Doubles D) : JsonValue D → Bool
  | .null => false
  | .bool value => value
  | .number x =>
    numbers.strictEquals x x && !numbers.strictEquals x (numbers.ofText (js "0"))
  | .string value => value ≠ []
  | .array _ | .object _ | .refused _ => true

variable {numbers : Doubles D}

/-- A request in either shape, with the tool and the arguments it names. -/
inductive ToolRequest.Describes (numbers : Doubles D) :
    ToolRequest D → JsString → Members D → Prop
  | toolsCall {params : Members D} {name : JsString} {args : Members D}
      (hname : params.lookup (js "name") = some (.string name))
      (hargs : params.lookup (js "arguments") = some (.object args)) :
      Describes numbers ⟨toolsCallMethod, some (.object params)⟩ name args
  | toolsCallNoArguments {params : Members D} {name : JsString}
      (hname : params.lookup (js "name") = some (.string name))
      (hargs : ∀ value, params.lookup (js "arguments") = some value → value = .null) :
      Describes numbers ⟨toolsCallMethod, some (.object params)⟩ name []
  | legacy (name : JsString) (args : Members D) :
      Describes numbers ⟨name, some (.object args)⟩ name args
  | legacyNoArguments (name : JsString) {params : Option (JsonValue D)}
      (hparams : ∀ value, params = some value → truthy numbers value = false) :
      Describes numbers ⟨name, params⟩ name []

theorem objectOrEmpty_eq_some {value : Option (JsonValue D)} {args : Members D}
    (h : objectOrEmpty value = some args) :
    value = some (.object args) ∨ args = [] ∧ (value = none ∨ value = some .null) := by
  match value with
  | none => exact .inr ⟨(Option.some.inj h).symm, .inl rfl⟩
  | some .null => exact .inr ⟨(Option.some.inj h).symm, .inr rfl⟩
  | some (.object members) => exact .inl (by rw [← Option.some.inj h])
  | some (.bool _) | some (.number _) | some (.string _) | some (.array _) | some (.refused _) =>
      cases h

theorem paramsName_eq_some {params : Option (JsonValue D)} {name : JsString} {members : Members D} :
    paramsName params = some (name, members) ↔
      params = some (.object members) ∧ members.lookup (js "name") = some (.string name) := by
  unfold paramsName
  split
  · split <;> grind
  · grind

/-- What the code reads from a request is what the request describes. -/
theorem describes_of_asToolCall {request : ToolRequest D} {call : ToolCall D}
    (h : asToolCall request = some call) : request.Describes numbers call.name call.args := by
  obtain ⟨method, params⟩ := request
  rw [asToolCall] at h
  dsimp only at h
  split at h
  · rename_i name members hwire
    obtain ⟨args, hargs, rfl⟩ := Option.map_eq_some_iff.mp h
    split at hwire
    · rename_i hmethod
      obtain ⟨rfl, hname⟩ := paramsName_eq_some.mp hwire
      rw [hmethod]
      cases objectOrEmpty_eq_some hargs with
      | inl hobject => exact .toolsCall hname hobject
      | inr hempty =>
          obtain ⟨rfl, habsent⟩ := hempty
          refine .toolsCallNoArguments hname ?_
          intro value hvalue
          cases habsent with
          | inl hnone => rw [hnone] at hvalue; cases hvalue
          | inr hnull => exact Option.some.inj (hvalue.symm.trans hnull)
    · cases hwire
  · obtain ⟨args, hargs, rfl⟩ := Option.map_eq_some_iff.mp h
    cases objectOrEmpty_eq_some hargs with
    | inl hobject => exact hobject ▸ .legacy method args
    | inr hempty =>
        obtain ⟨rfl, habsent⟩ := hempty
        refine .legacyNoArguments method ?_
        intro value hvalue
        cases habsent with
        | inl hnone => rw [hnone] at hvalue; cases hvalue
        | inr hnull =>
            obtain rfl := Option.some.inj (hvalue.symm.trans hnull)
            rfl

/-- A described call is read so, or not at all. -/
theorem asToolCall_of_describes {request : ToolRequest D} {name : JsString} {args : Members D}
    (h : request.Describes numbers name args) (hname : name ≠ toolsCallMethod) {call : ToolCall D}
    (hcall : asToolCall request = some call) : call.name = name ∧ call.args = args := by
  cases h with
  | @toolsCall params _ _ htool hargs =>
      have hwire : paramsName (some (.object params)) = some (name, params) :=
        paramsName_eq_some.mpr ⟨rfl, htool⟩
      simp only [asToolCall, if_true, hwire, hargs, objectOrEmpty, Option.map_some,
        Option.some.injEq] at hcall
      subst hcall
      exact ⟨rfl, rfl⟩
  | @toolsCallNoArguments params _ htool hargs =>
      have hwire : paramsName (some (.object params)) = some (name, params) :=
        paramsName_eq_some.mpr ⟨rfl, htool⟩
      simp only [asToolCall, if_true, hwire] at hcall
      obtain ⟨args, hread, rfl⟩ := Option.map_eq_some_iff.mp hcall
      refine ⟨rfl, ?_⟩
      cases objectOrEmpty_eq_some hread with
      | inl hobject => cases hargs _ hobject
      | inr hempty => exact hempty.1
  | legacy =>
      simp only [asToolCall, hname, if_false, objectOrEmpty, Option.map_some,
        Option.some.injEq] at hcall
      subst hcall
      exact ⟨rfl, rfl⟩
  | legacyNoArguments _ hparams =>
      simp only [asToolCall, hname, if_false] at hcall
      obtain ⟨args, hread, rfl⟩ := Option.map_eq_some_iff.mp hcall
      refine ⟨rfl, ?_⟩
      cases objectOrEmpty_eq_some hread with
      | inl hobject => cases hparams _ hobject
      | inr hempty => exact hempty.1

/-- The params of a call hold its name. -/
theorem asToolCall_params {request : ToolRequest D} {call : ToolCall D}
    (h : asToolCall request = some call) :
    call.params.lookup (js "name") = some (.string call.name) := by
  rw [asToolCall] at h
  split at h
  · rename_i name members hwire
    obtain ⟨args, -, rfl⟩ := Option.map_eq_some_iff.mp h
    split at hwire
    · exact (paramsName_eq_some.mp hwire).2
    · cases hwire
  · obtain ⟨args, -, rfl⟩ := Option.map_eq_some_iff.mp h
    simp

theorem asToolCall_covered {call : ToolCall D}
    (h : call.params.lookup (js "name") = some (.string call.name)) :
    asToolCall (coveredToolCall call) = some
      { name := call.name
        args := withoutKeys call.args isKyaOsControlArg
        params := coveredParams call } := by
  have hname : (coveredParams call).lookup (js "name") = some (.string call.name) := by
    rw [coveredParams, lookup_assignMember, if_neg (by decide), lookup_withoutKeys,
      if_neg (by decide), h]
  have hargs : (coveredParams call).lookup (js "arguments") =
      some (.object (withoutKeys call.args isKyaOsControlArg)) := by
    rw [coveredParams, lookup_assignMember, if_pos rfl]
  have hwire := paramsName_eq_some.mpr ⟨rfl, hname⟩
  simp only [coveredToolCall, asToolCall, if_true, hwire, hargs, objectOrEmpty, Option.map_some]

theorem asToolCall_legacy {call : ToolCall D} (h : call.name ≠ toolsCallMethod)
    (args : Members D) :
    asToolCall (legacyToolCall call args) = some
      { name := call.name
        args
        params := [(js "name", .string call.name), (js "arguments", .object args)] } := by
  simp only [legacyToolCall, asToolCall, h, if_false, objectOrEmpty, Option.map_some]

/-- Every alternate shape is read back as the call, up to its control arguments. -/
theorem asToolCall_of_mem {request : ToolRequest D} {name : JsString} {args : Members D}
    (h : request.Describes numbers name args) (hname : name ≠ toolsCallMethod)
    {shape : ToolRequest D} (hshape : shape ∈ alternateRequestShapes request) :
    ∃ call, asToolCall shape = some call ∧ call.name = name ∧
      withoutKeys call.args isKyaOsControlArg = withoutKeys args isKyaOsControlArg := by
  rw [alternateRequestShapes] at hshape
  split at hshape
  · cases hshape
  · rename_i call hcall
    obtain ⟨rfl, rfl⟩ := asToolCall_of_describes h hname hcall
    simp only [List.mem_cons, List.not_mem_nil, or_false] at hshape
    obtain rfl | rfl | rfl := hshape
    · exact ⟨_, asToolCall_covered (asToolCall_params hcall), rfl, withoutKeys_idem _ _⟩
    · exact ⟨_, asToolCall_legacy hname _, rfl, rfl⟩
    · exact ⟨_, asToolCall_legacy hname _, rfl, withoutKeys_idem _ _⟩

/-- The params of a request are a JSON value. -/
def ToolRequest.WellFormed (request : ToolRequest D) : Prop :=
  ∀ params, request.params = some params → params.WellFormed

theorem wellFormed_objectOrEmpty {value : Option (JsonValue D)}
    (hvalue : ∀ v, value = some v → v.WellFormed) {members : Members D}
    (h : objectOrEmpty value = some members) : (JsonValue.object members).WellFormed := by
  cases objectOrEmpty_eq_some h with
  | inl hobject => exact hvalue _ hobject
  | inr hempty => exact hempty.1 ▸ .object List.nodup_nil fun _ hmember => by cases hmember

theorem wellFormed_asToolCall {request : ToolRequest D} (hrequest : request.WellFormed)
    {call : ToolCall D} (h : asToolCall request = some call) :
    (JsonValue.object call.args).WellFormed ∧ (JsonValue.object call.params).WellFormed := by
  rw [asToolCall] at h
  split at h
  · rename_i name members hwire
    obtain ⟨args, hargs, rfl⟩ := Option.map_eq_some_iff.mp h
    split at hwire
    · have hparams := hrequest _ (paramsName_eq_some.mp hwire).1
      exact ⟨wellFormed_objectOrEmpty (fun v hv => wellFormed_lookup hparams hv) hargs, hparams⟩
    · cases hwire
  · obtain ⟨args, hargs, rfl⟩ := Option.map_eq_some_iff.mp h
    have hobject := wellFormed_objectOrEmpty hrequest hargs
    refine ⟨hobject, .object (by simp only [List.map_cons, List.map_nil]; decide) ?_⟩
    intro member hmember
    simp only [List.mem_cons, List.not_mem_nil, or_false] at hmember
    obtain rfl | rfl := hmember
    · exact .string _
    · exact hobject

theorem wellFormed_of_mem {request shape : ToolRequest D} (hrequest : request.WellFormed)
    (hshape : shape ∈ alternateRequestShapes request) : shape.WellFormed := by
  rw [alternateRequestShapes] at hshape
  split at hshape
  · cases hshape
  · rename_i call hcall
    obtain ⟨hargs, hparams⟩ := wellFormed_asToolCall hrequest hcall
    have hbusiness := wellFormed_withoutKeys hargs isKyaOsControlArg
    simp only [List.mem_cons, List.not_mem_nil, or_false] at hshape
    obtain rfl | rfl | rfl := hshape
    · intro params h
      obtain rfl := Option.some.inj h
      exact wellFormed_assignMember (wellFormed_withoutKeys hparams _) hbusiness _
    · intro params h
      exact Option.some.inj h ▸ hargs
    · intro params h
      exact Option.some.inj h ▸ hbusiness

end KyaOs.Proof
