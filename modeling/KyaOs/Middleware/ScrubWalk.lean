import KyaOs.Middleware.SentMeta
import Mathlib.Logic.Relation

/-!
# The walk on an explicit stack

The loop of `scrubPrivateMeta`: a frame is expanded into its members' frames, and finished once
these are done. Run to its end, it finds and makes what the recursion over the value does.
-/

namespace KyaOs.Middleware

open Js Untyped JsonValue

/-- The positions of the members that lead to a node, innermost first: in a value that was parsed
no two nodes are one object. -/
abbrev NodeId := List Nat

structure Frame where
  node : JsonValue JsNumber
  id : NodeId := []
  key : Option JsString := none
  expanded : Bool := false

/-- `key === '_meta' && isRecord(node)`. -/
def Frame.isMeta (frame : Frame) : Bool :=
  frame.key = some (js "_meta") && frame.node matches .object _

structure ScrubState where
  /-- The frame on top first. -/
  stack : List Frame
  done : NodeId → Option (JsonValue JsNumber) := fun _ => none
  inProgress : List NodeId := []
  leaked : List JsString := []
  ids : List JsString := []

/-- `Object.entries(node)`. -/
def entriesOf : JsonValue JsNumber → Members JsNumber
  | .array items => indexedMembers items
  | .object members => members
  | _ => []

def memberFrame (parent : NodeId) (entry : (JsString × JsonValue JsNumber) × Nat) : Frame where
  node := entry.1.2
  id := entry.2 :: parent
  key := some entry.1.1

/-- The members of a node that are walked, as frames. -/
def membersOf (top : Frame) : List Frame :=
  ((entriesOf top.node).zipIdx.filter fun entry => !(top.isMeta && isPrivate entry.1.1)).map
    (memberFrame top.id)

namespace ScrubState

variable (stamp : Option JsString) (keepEmptyMeta : Bool) (s : ScrubState)

def has (id : NodeId) : Bool := (s.done id).isSome || s.inProgress.contains id

/-- The id of a `_meta` with the stamp. -/
def idOf (top : Frame) : Option JsString :=
  match stamp, top.node with
  | some stamp, .object members => if top.isMeta then stampedId stamp members else none
  | _, _ => none

def expand (top : Frame) (rest : List Frame) : ScrubState :=
  let entered := { s with inProgress := top.id :: s.inProgress }
  let members := membersOf top
  { entered with
    stack := (members.filter fun frame =>
      isObject (some frame.node) && !entered.has frame.id).reverse
      ++ { top with expanded := true } :: rest
    ids := s.ids ++ (idOf stamp top).toList
    leaked := s.leaked ++ stamp.elim [] fun stamp => leakedAmong stamp (members.map Frame.node) }

def scrubbedOf (id : NodeId) (member : JsonValue JsNumber) : JsonValue JsNumber :=
  if isObject (some member) then (s.done id).getD member else member

/-- What a finished node is replaced by. -/
def finished (top : Frame) : JsonValue JsNumber :=
  match top.node with
  | .array items => .array (items.zipIdx.map fun item => s.scrubbedOf (item.2 :: top.id) item.1)
  | .object members => .object (members.zipIdx.flatMap fun member =>
      scrubMember (keepEmptyMeta && top.id = []) member.1.1
        (s.scrubbedOf (member.2 :: top.id) member.1.2))
  | node => node

def finish (top : Frame) (rest : List Frame) : ScrubState :=
  { s with
    stack := rest
    inProgress := s.inProgress.erase top.id
    done := Function.update s.done top.id (some (s.finished keepEmptyMeta top)) }

/-- One turn of the loop. -/
def turn : Option ScrubState :=
  match s.stack with
  | [] => none
  | top :: rest =>
    if top.expanded then some (s.finish keepEmptyMeta top rest)
    else if s.has top.id then some { s with stack := rest }
    else some (s.expand stamp top rest)

/-- The turns of the loop lead from one state to another. -/
def Turns : ScrubState → ScrubState → Prop :=
  Relation.ReflTransGen fun s s' => s.turn stamp keepEmptyMeta = some s'

end ScrubState

/-- The slow path of `scrubPrivateMeta`: what the loop has found and made when the stack is
empty. -/
inductive FullWalk (root : JsonValue JsNumber) (stamp : Option JsString) (keepEmptyMeta : Bool) :
    Scrubbed → Prop
  | scalar : isObject (some root) = false → FullWalk root stamp keepEmptyMeta
      { value := root, leaked := stamp.elim [] (leakedAmong · [root]), ids := [] }
  | walked {s : ScrubState} {value : JsonValue JsNumber} : isObject (some root) = true →
      ScrubState.Turns stamp keepEmptyMeta { stack := [{ node := root }] } s → s.stack = [] →
      s.done [] = some value →
      FullWalk root stamp keepEmptyMeta { value, leaked := s.leaked, ids := s.ids }

theorem value_induction {motive : JsonValue JsNumber → Prop}
    (scalar : ∀ value, isObject (some value) = false → motive value)
    (array : ∀ items, (∀ item ∈ items, motive item) → motive (.array items))
    (object : ∀ members : Members JsNumber, (∀ member ∈ members, motive member.2) →
      motive (.object members)) (value : JsonValue JsNumber) : motive value := by
  induction hsize : sizeOf value using Nat.strong_induction_on generalizing value with
  | _ size ih =>
      subst hsize
      cases value with
      | array items =>
          refine array items fun item hmem => ih _ ?_ item rfl
          have hlt := List.sizeOf_lt_of_mem hmem
          simp only [JsonValue.array.sizeOf_spec]
          omega
      | object members =>
          refine object members fun member hmem => ih _ ?_ member.2 rfl
          have hlt := List.sizeOf_lt_of_mem hmem
          obtain ⟨name, value⟩ := member
          simp only [JsonValue.object.sizeOf_spec, Prod.mk.sizeOf_spec] at hlt ⊢
          omega
      | _ => exact scalar _ rfl

mutual

/-- What `done` has for a node. The private members of a `_meta` are as they were. -/
def walked (isMeta : Bool) : JsonValue JsNumber → JsonValue JsNumber
  | .array items => .array (walkedItems items)
  | .object members => .object (walkedEntries false isMeta members)
  | value => value

def walkedItems : List (JsonValue JsNumber) → List (JsonValue JsNumber)
  | [] => []
  | item :: rest => walked false item :: walkedItems rest

def walkedEntries (keepEmptyMeta isMeta : Bool) : Members JsNumber → Members JsNumber
  | [] => []
  | (name, member) :: rest =>
    (if isMeta && isPrivate name then [(name, member)]
      else scrubMember keepEmptyMeta name (walked (name = js "_meta") member)) ++
        walkedEntries keepEmptyMeta isMeta rest

end

theorem ne_meta_of_isPrivate {name : JsString} (h : isPrivate name = true) : name ≠ js "_meta" := by
  rintro rfl
  exact absurd h (by decide)

theorem scrubMember_of_ne {keepEmptyMeta : Bool} {name : JsString} {value : JsonValue JsNumber}
    (h : name ≠ js "_meta") : scrubMember keepEmptyMeta name value = [(name, value)] := by
  cases value with
  | object metadata =>
      rw [scrubMember, if_neg]
      exact fun hand => h hand.1
  | _ => rfl

/-- Two objects that hold the same apart from private members are one `_meta`. -/
theorem scrubMember_congr {keepEmptyMeta : Bool} {metadata metadata' : Members JsNumber}
    (hkept : withoutKeys metadata isPrivate = withoutKeys metadata' isPrivate)
    (hany : (metadata.any fun member => isPrivate member.1) =
      metadata'.any fun member => isPrivate member.1) (name : JsString)
        (hname : name = js "_meta") :
    scrubMember keepEmptyMeta name (.object metadata) =
      scrubMember keepEmptyMeta name (.object metadata') := by
  rw [scrubMember, scrubMember, hany]
  split_ifs with hprivate
  · rw [hkept]
  · have hclean : ∀ metadata : Members JsNumber,
        (metadata.any fun member => isPrivate member.1) = false →
          withoutKeys metadata isPrivate = metadata := by
      intro metadata hnone
      rw [withoutKeys, List.filter_eq_self]
      intro member hmember
      simpa using List.any_eq_false.mp hnone member hmember
    have hnone : (metadata'.any fun member => isPrivate member.1) = false := by
      simpa [hname] using hprivate
    rw [hclean _ (hany.trans hnone), hclean _ hnone] at hkept
    rw [hkept]

/-- A node that is no `_meta` has been scrubbed; a `_meta` will have been, without its private
members. -/
theorem walked_spec (value : JsonValue JsNumber) : walked false value = scrub value ∧
    ∀ keepEmptyMeta, scrubMember keepEmptyMeta (js "_meta") (walked true value) =
      scrubMember keepEmptyMeta (js "_meta") (scrub value) := by
  induction value using value_induction with
  | scalar value hscalar =>
      cases value with
      | array items => cases hscalar
      | object members => cases hscalar
      | _ => exact ⟨rfl, fun _ => rfl⟩
  | array items ih =>
      have hitems : walkedItems items = scrubItems items := by
        induction items with
        | nil => rfl
        | cons item rest ihrest =>
            rw [walkedItems, scrubItems, (ih item List.mem_cons_self).1,
              ihrest fun item hmem => ih item (List.mem_cons_of_mem _ hmem)]
      rw [walked, walked, scrub, hitems]
      exact ⟨rfl, fun _ => rfl⟩
  | object members ih =>
      -- Neither copy of a member that is walked differs from the scrubbed one.
      have hmember : ∀ member ∈ members, scrubMember false member.1
          (walked (member.1 = js "_meta") member.2) =
            scrubMember false member.1 (scrub member.2) := by
        intro member hmem
        obtain ⟨hplain, hmeta⟩ := ih member hmem
        by_cases hname : member.1 = js "_meta"
        · rw [decide_eq_true hname, hname]
          exact hmeta false
        · rw [decide_eq_false hname, hplain]
      have hentries : walkedEntries false false members = scrubMembers members ∧
          withoutKeys (walkedEntries false true members) isPrivate =
            withoutKeys (scrubMembers members) isPrivate ∧
          ((walkedEntries false true members).any fun member => isPrivate member.1) =
            (scrubMembers members).any fun member => isPrivate member.1 := by
        clear ih
        induction members with
        | nil => exact ⟨rfl, rfl, rfl⟩
        | cons member rest ihrest =>
            obtain ⟨name, value⟩ := member
            obtain ⟨hfalse, hkept, hany⟩ :=
              ihrest fun member hmem => hmember member (List.mem_cons_of_mem _ hmem)
            have hfirst := hmember (name, value) List.mem_cons_self
            refine ⟨?_, ?_, ?_⟩
            · rw [walkedEntries, scrubMembers, hfalse]
              simpa using hfirst
            · rw [walkedEntries, scrubMembers, withoutKeys, withoutKeys, List.filter_append,
                List.filter_append]
              congr 1
              cases hprivate : isPrivate name with
              | true => simp [scrubMember_of_ne (ne_meta_of_isPrivate hprivate), hprivate]
              | false => simp only [Bool.and_false, Bool.false_eq_true, if_false, hfirst]
            · rw [walkedEntries, scrubMembers, List.any_append, List.any_append, hany]
              congr 1
              cases hprivate : isPrivate name with
              | true => simp [scrubMember_of_ne (ne_meta_of_isPrivate hprivate), hprivate]
              | false => simp only [Bool.and_false, Bool.false_eq_true, if_false, hfirst]
      obtain ⟨hfalse, hkept, hany⟩ := hentries
      rw [walked, walked, scrub, hfalse]
      exact ⟨rfl, fun _ => scrubMember_congr hkept hany _ rfl⟩

theorem walkedEntries_root (keepEmptyMeta : Bool) (members : Members JsNumber) :
    walkedEntries keepEmptyMeta false members =
      members.flatMap fun member => scrubMember keepEmptyMeta member.1 (scrub member.2) := by
  induction members with
  | nil => rfl
  | cons member rest ih =>
      obtain ⟨name, value⟩ := member
      rw [walkedEntries, List.flatMap_cons, ih, if_neg (by simp)]
      congr 1
      obtain ⟨hplain, hmeta⟩ := walked_spec value
      by_cases hname : name = js "_meta"
      · rw [decide_eq_true hname, hname]
        exact hmeta keepEmptyMeta
      · rw [decide_eq_false hname, hplain]

namespace Frame

variable (stamp : Option JsString) (keepEmptyMeta : Bool) (frame : Frame)

def result : JsonValue JsNumber :=
  match frame.node with
  | .array items => .array (walkedItems items)
  | .object members => .object (walkedEntries (keepEmptyMeta && frame.id = []) frame.isMeta members)
  | node => node

/-- The strings found from a frame on. -/
def leakedFrom : List JsString := stamp.elim [] (leakedIn · frame.isMeta frame.node)

def idsFrom : List JsString := stamp.elim [] (idsIn · frame.isMeta frame.node)

variable {stamp keepEmptyMeta frame}

theorem isMeta_object {members : Members JsNumber} {id : NodeId} {key : Option JsString}
    {expanded : Bool} :
    isMeta ⟨.object members, id, key, expanded⟩ = decide (key = some (js "_meta")) := by
  simp [isMeta]

end Frame

section Members

variable {stamp : Option JsString} {top frame : Frame}

theorem mem_membersOf : frame ∈ membersOf top ↔ ∃ entry,
    entry ∈ (entriesOf top.node).zipIdx ∧ (top.isMeta && isPrivate entry.1.1) = false ∧
      memberFrame top.id entry = frame := by
  simp only [membersOf, List.mem_map, List.mem_filter, Bool.not_eq_true', and_assoc]

theorem membersOf_ids : (membersOf top).Pairwise fun frame frame' => frame.id ≠ frame'.id := by
  have hindices : ((entriesOf top.node).zipIdx.map Prod.snd).Nodup := by
    rw [List.zipIdx_map_snd]
    exact List.nodup_range'
  rw [membersOf, List.pairwise_map]
  refine (List.Pairwise.imp ?_ (List.pairwise_map.mp hindices)).filter _
  intro entry entry' hne hid
  exact hne (List.cons.inj hid).1

/-- The members of a node that are walked, in order. -/
theorem membersOf_eq : (membersOf top).map (fun frame => (frame.key, frame.node)) =
    (walkedMembers top.isMeta (entriesOf top.node)).map fun member =>
      (some member.1, member.2) := by
  have hfilter : ((entriesOf top.node).zipIdx.filter fun entry =>
      !(top.isMeta && isPrivate entry.1.1)).map Prod.fst =
        walkedMembers top.isMeta (entriesOf top.node) := by
    have hfst := @List.filter_map _ _ (fun entry : (JsString × JsonValue JsNumber) × Nat => entry.1)
      (fun member => !(top.isMeta && isPrivate member.1)) (entriesOf top.node).zipIdx
    rw [List.zipIdx_map_fst] at hfst
    rw [walkedMembers]
    split_ifs with hmeta
    · rw [withoutKeys]
      simp only [hmeta, Bool.true_and] at hfst ⊢
      exact hfst.symm
    · simp [hmeta]
  rw [← hfilter, membersOf, List.map_map, List.map_map]
  rfl

/-- What is found in members, of which the last are walked first. -/
theorem flatMap_membersOf {find : Bool → JsonValue JsNumber → List JsString}
    (hfind : ∀ isMeta value, (value matches .object _) = false →
      find isMeta value = find false value) :
    (membersOf top).reverse.flatMap (fun frame => find frame.isMeta frame.node) =
      (walkedMembers top.isMeta (entriesOf top.node)).reverse.flatMap fun member =>
        find (member.1 = js "_meta") member.2 := by
  have hframe : ∀ frame : Frame, find frame.isMeta frame.node =
      find (frame.key = some (js "_meta")) frame.node := by
    intro frame
    cases hobject : (frame.node matches .object _) with
    | true => simp [Frame.isMeta, hobject]
    | false => rw [hfind _ _ hobject, hfind (decide _) _ hobject]
  have hmapped := congrArg (fun members : List (Option JsString × JsonValue JsNumber) =>
    members.reverse.flatMap fun member => find (member.1 = some (js "_meta")) member.2)
    (@membersOf_eq top)
  simpa [← List.map_reverse, List.flatMap_map, hframe] using hmapped

theorem leakedInMembers_walked (stamp : JsString) (isMeta : Bool) (members : Members JsNumber) :
    leakedInMembers stamp isMeta members =
      (walkedMembers isMeta members).reverse.flatMap fun member =>
        leakedIn stamp (member.1 = js "_meta") member.2 := by
  induction members with
  | nil => cases isMeta <;> rfl
  | cons member rest ih =>
      obtain ⟨name, value⟩ := member
      rw [leakedInMembers, ih]
      cases isMeta with
      | false => simp [walkedMembers]
      | true => cases hprivate : isPrivate name <;> simp [walkedMembers, withoutKeys, hprivate]

theorem idsInMembers_walked (stamp : JsString) (isMeta : Bool) (members : Members JsNumber) :
    idsInMembers stamp isMeta members =
      (walkedMembers isMeta members).reverse.flatMap fun member =>
        idsIn stamp (member.1 = js "_meta") member.2 := by
  induction members with
  | nil => cases isMeta <;> rfl
  | cons member rest ih =>
      obtain ⟨name, value⟩ := member
      rw [idsInMembers, ih]
      cases isMeta with
      | false => simp [walkedMembers]
      | true => cases hprivate : isPrivate name <;> simp [walkedMembers, withoutKeys, hprivate]

theorem leakedInItems_eq (stamp : JsString) (items : List (JsonValue JsNumber)) :
    leakedInItems stamp items = items.reverse.flatMap (leakedIn stamp false) := by
  induction items with
  | nil => rfl
  | cons item rest ih => simp [leakedInItems, ih]

theorem idsInItems_eq (stamp : JsString) (items : List (JsonValue JsNumber)) :
    idsInItems stamp items = items.reverse.flatMap (idsIn stamp false) := by
  induction items with
  | nil => rfl
  | cons item rest ih => simp [idsInItems, ih]

/-- The entries of an array are no `_meta`. -/
theorem flatMap_indexedMembers {find : Bool → JsonValue JsNumber → List JsString}
    (items : List (JsonValue JsNumber)) :
    ((indexedMembers items).reverse.flatMap fun member =>
      find (member.1 = js "_meta") member.2) = items.reverse.flatMap (find false) := by
  have hvalues : (indexedMembers items).map Prod.snd = items := by
    rw [indexedMembers, List.map_map]
    exact List.zipIdx_map_fst 0 items
  have hnames : ∀ member ∈ (indexedMembers items).reverse, find (member.1 = js "_meta") member.2 =
      find false member.2 := by
    intro member hmem
    obtain ⟨⟨n, hn⟩, -⟩ := mem_indexedMembers (List.mem_reverse.mp hmem)
    rw [decide_eq_false (hn ▸ ne_index isNamed_meta n)]
  rw [List.flatMap_congr hnames, ← hvalues, ← List.map_reverse, List.flatMap_map, hvalues]

theorem leakedFrom_eq (htop : isObject (some top.node) = true) :
    top.leakedFrom stamp =
      (stamp.elim [] fun stamp => leakedAmong stamp ((membersOf top).map Frame.node)) ++
        (membersOf top).reverse.flatMap (Frame.leakedFrom stamp) := by
  cases stamp with
  | none => simp [Frame.leakedFrom]
  | some stamp =>
      have hnodes : (membersOf top).map Frame.node =
          (walkedMembers top.isMeta (entriesOf top.node)).map Prod.snd := by
        have hpairs := congrArg (List.map Prod.snd) (@membersOf_eq top)
        rw [List.map_map, List.map_map] at hpairs
        exact hpairs
      have hbelow : (membersOf top).reverse.flatMap (Frame.leakedFrom (some stamp)) =
          (walkedMembers top.isMeta (entriesOf top.node)).reverse.flatMap fun member =>
            leakedIn stamp (member.1 = js "_meta") member.2 := by
        refine flatMap_membersOf ?_
        intro isMeta value hvalue
        cases value with
        | object members => cases hvalue
        | _ => rfl
      rw [Frame.leakedFrom, Option.elim_some, Option.elim_some, hnodes, hbelow]
      cases hnode : top.node with
      | array items =>
          have hmeta : top.isMeta = false := by simp [Frame.isMeta, hnode]
          rw [leakedIn, hmeta, entriesOf, walkedMembers, if_neg Bool.false_ne_true,
            flatMap_indexedMembers, leakedInItems_eq, indexedMembers, List.map_map]
          congr 2
          exact (List.zipIdx_map_fst 0 items).symm
      | object members => rw [leakedIn, leakedInMembers_walked, entriesOf]
      | _ => simp [hnode, isObject] at htop

theorem idsFrom_eq (htop : isObject (some top.node) = true) :
    top.idsFrom stamp = (ScrubState.idOf stamp top).toList ++
      (membersOf top).reverse.flatMap (Frame.idsFrom stamp) := by
  cases stamp with
  | none => simp [Frame.idsFrom, ScrubState.idOf]
  | some stamp =>
      have hbelow : (membersOf top).reverse.flatMap (Frame.idsFrom (some stamp)) =
          (walkedMembers top.isMeta (entriesOf top.node)).reverse.flatMap fun member =>
            idsIn stamp (member.1 = js "_meta") member.2 := by
        refine flatMap_membersOf ?_
        intro isMeta value hvalue
        cases value with
        | object members => cases hvalue
        | _ => rfl
      rw [Frame.idsFrom, Option.elim_some, hbelow]
      cases hnode : top.node with
      | array items =>
          have hmeta : top.isMeta = false := by simp [Frame.isMeta, hnode]
          have hid : ScrubState.idOf (some stamp) top = none := by simp [ScrubState.idOf, hnode]
          rw [idsIn, hid, hmeta, entriesOf, walkedMembers, if_neg Bool.false_ne_true,
            flatMap_indexedMembers, idsInItems_eq]
          rfl
      | object members =>
          have hid : ScrubState.idOf (some stamp) top =
              if top.isMeta then stampedId stamp members else none := by
            simp only [ScrubState.idOf, hnode]
          rw [idsIn, idsInMembers_walked, hid, entriesOf]
          cases top.isMeta <;> rfl
      | _ => simp [hnode, isObject] at htop

end Members

namespace ScrubState

variable {stamp : Option JsString} {keepEmptyMeta : Bool} {s s' : ScrubState} {frame : Frame}
  {rest : List Frame}

/-- Nothing at a node or below it has been seen. -/
def Unseen (s : ScrubState) (id : NodeId) : Prop :=
  ∀ below, id <:+ below → s.done below = none ∧ below ∉ s.inProgress

/-- A frame has been taken from the stack, and everything below it walked. -/
structure Visited (stamp : Option JsString) (keepEmptyMeta : Bool) (frame : Frame)
    (rest : List Frame) (s s' : ScrubState) : Prop where
  turns : Turns stamp keepEmptyMeta s s'
  stack : s'.stack = rest
  inProgress : s'.inProgress = s.inProgress
  leaked : s'.leaked = s.leaked ++ frame.leakedFrom stamp
  ids : s'.ids = s.ids ++ frame.idsFrom stamp
  done : s'.done frame.id = some (frame.result keepEmptyMeta)
  others : ∀ id, ¬ frame.id <:+ id → s'.done id = s.done id

/-- A frame on top of the stack can be visited. -/
def Visitable (stamp : Option JsString) (keepEmptyMeta : Bool) (frame : Frame) : Prop :=
  ∀ s rest, s.stack = frame :: rest → s.Unseen frame.id →
    ∃ s', Visited stamp keepEmptyMeta frame rest s s'

/-- Some frames have been taken from the stack, the last first. -/
structure AllVisited (stamp : Option JsString) (keepEmptyMeta : Bool) (frames rest : List Frame)
    (s s' : ScrubState) : Prop where
  turns : Turns stamp keepEmptyMeta s s'
  stack : s'.stack = rest
  inProgress : s'.inProgress = s.inProgress
  leaked : s'.leaked = s.leaked ++ frames.reverse.flatMap (Frame.leakedFrom stamp)
  ids : s'.ids = s.ids ++ frames.reverse.flatMap (Frame.idsFrom stamp)
  done : ∀ frame ∈ frames, s'.done frame.id = some (frame.result keepEmptyMeta)
  others : ∀ id, (∀ frame ∈ frames, ¬ frame.id <:+ id) → s'.done id = s.done id

theorem visit_all {frames : List Frame} (hframes : ∀ frame ∈ frames,
      Visitable stamp keepEmptyMeta frame ∧ s.Unseen frame.id)
    (happart : frames.Pairwise fun frame frame' =>
      ∀ id, frame.id <:+ id → ¬ frame'.id <:+ id)
    (hstack : s.stack = frames.reverse ++ rest) :
    ∃ s', AllVisited stamp keepEmptyMeta frames rest s s' := by
  induction frames generalizing rest with
  | nil => exact ⟨s, .refl, hstack, rfl, by simp, by simp, by simp, by simp⟩
  | cons frame frames ih =>
      obtain ⟨hother, happart⟩ := List.pairwise_cons.mp happart
      rw [List.reverse_cons, List.append_assoc] at hstack
      obtain ⟨s₁, h₁⟩ := ih (fun frame hmem => hframes frame (List.mem_cons_of_mem _ hmem)) happart
        hstack
      obtain ⟨hvisitable, hunseen⟩ := hframes frame List.mem_cons_self
      have hunseen₁ : s₁.Unseen frame.id := by
        intro below hbelow
        rw [h₁.others below fun frame' hmem => hother frame' hmem below hbelow, h₁.inProgress]
        exact hunseen below hbelow
      obtain ⟨s₂, h₂⟩ := hvisitable s₁ rest h₁.stack hunseen₁
      refine ⟨s₂, h₁.turns.trans h₂.turns, h₂.stack, h₂.inProgress.trans h₁.inProgress, ?_, ?_, ?_,
        ?_⟩
      · rw [h₂.leaked, h₁.leaked]
        simp
      · rw [h₂.ids, h₁.ids]
        simp
      · intro frame' hmem
        obtain rfl | hlater := List.mem_cons.mp hmem
        · exact h₂.done
        · rw [h₂.others frame'.id fun hbelow =>
            hother frame' hlater _ hbelow List.suffix_rfl]
          exact h₁.done frame' hlater
      · intro id hid
        rw [h₂.others id (hid frame List.mem_cons_self)]
        exact h₁.others id fun frame' hmem => hid frame' (List.mem_cons_of_mem _ hmem)

theorem has_eq_false {id : NodeId} (h : s.Unseen id) : s.has id = false := by
  obtain ⟨hdone, hprogress⟩ := h id List.suffix_rfl
  simp [has, hdone, hprogress]

/-- Frames that are no objects are found nothing in. -/
theorem flatMap_filter_objects {find : Frame → List JsString}
    (hfind : ∀ frame, isObject (some frame.node) = false → find frame = [])
    (frames : List Frame) :
    (frames.filter fun frame => isObject (some frame.node)).reverse.flatMap find =
      frames.reverse.flatMap find := by
  induction frames with
  | nil => rfl
  | cons frame rest ih =>
      rw [List.filter_cons, List.reverse_cons, List.flatMap_append, ← ih]
      cases hobject : isObject (some frame.node) with
      | true => simp
      | false => simp [hfind frame hobject]

theorem leakedFrom_scalar (h : isObject (some frame.node) = false) :
    frame.leakedFrom stamp = [] := by
  cases stamp with
  | none => rfl
  | some stamp =>
      rw [Frame.leakedFrom, Option.elim_some]
      cases hnode : frame.node with
      | array items => simp [hnode, isObject] at h
      | object members => simp [hnode, isObject] at h
      | _ => rfl

theorem idsFrom_scalar (h : isObject (some frame.node) = false) : frame.idsFrom stamp = [] := by
  cases stamp with
  | none => rfl
  | some stamp =>
      rw [Frame.idsFrom, Option.elim_some]
      cases hnode : frame.node with
      | array items => simp [hnode, isObject] at h
      | object members => simp [hnode, isObject] at h
      | _ => rfl

/-- The members that are pushed are those with members of their own. -/
theorem expand_stack (hunseen : s.Unseen frame.id) :
    (s.expand stamp frame rest).stack =
      ((membersOf frame).filter fun member => isObject (some member.node)).reverse ++
        { frame with expanded := true } :: rest := by
  have hpushed : ((membersOf frame).filter fun member => isObject (some member.node) &&
      !has { s with inProgress := frame.id :: s.inProgress } member.id) =
        (membersOf frame).filter fun member => isObject (some member.node) := by
    apply List.filter_congr
    intro member hmem
    obtain ⟨entry, -, -, rfl⟩ := mem_membersOf.mp hmem
    obtain ⟨hdone, hprogress⟩ := hunseen (entry.2 :: frame.id) (List.suffix_cons _ _)
    have hself : entry.2 :: frame.id ≠ frame.id := List.cons_ne_self _ _
    simp [has, memberFrame, hdone, hprogress, hself]
  exact congrArg (fun members : List Frame =>
    members.reverse ++ { frame with expanded := true } :: rest) hpushed

/-- Siblings have nothing below them in common. -/
theorem membersOf_apart : (membersOf frame).Pairwise fun member member' =>
    ∀ id, member.id <:+ id → ¬ member'.id <:+ id := by
  refine List.Pairwise.imp_of_mem ?_ (@membersOf_ids frame)
  intro member member' hmem hmem' hne id hbelow hbelow'
  obtain ⟨entry, -, -, rfl⟩ := mem_membersOf.mp hmem
  obtain ⟨entry', -, -, rfl⟩ := mem_membersOf.mp hmem'
  have hlength : (entry.2 :: frame.id).length = (entry'.2 :: frame.id).length := rfl
  exact hne ((List.suffix_of_suffix_length_le hbelow hbelow' hlength.le).eq_of_length hlength)

theorem result_memberFrame {id : NodeId} {entry : (JsString × JsonValue JsNumber) × Nat} :
    (memberFrame id entry).result keepEmptyMeta =
      walked (entry.1.1 = js "_meta") entry.1.2 := by
  obtain ⟨⟨name, value⟩, index⟩ := entry
  cases value with
  | array items => rfl
  | object members => simp [Frame.result, memberFrame, Frame.isMeta_object, walked]
  | _ => rfl

/-- What a member that was walked is replaced by. -/
theorem scrubbedOf_walked {entry : (JsString × JsonValue JsNumber) × Nat}
    (hvisited : ∀ member ∈ (membersOf frame).filter fun member => isObject (some member.node),
      s.done member.id = some (member.result keepEmptyMeta))
    (hentry : entry ∈ (entriesOf frame.node).zipIdx)
    (hwalked : (frame.isMeta && isPrivate entry.1.1) = false) :
    s.scrubbedOf (entry.2 :: frame.id) entry.1.2 =
      walked (entry.1.1 = js "_meta") entry.1.2 := by
  rw [scrubbedOf]
  split_ifs with hobject
  · have hmem : memberFrame frame.id entry ∈
        (membersOf frame).filter fun member => isObject (some member.node) :=
      List.mem_filter.mpr ⟨mem_membersOf.mpr ⟨entry, hentry, hwalked, rfl⟩, hobject⟩
    have hdone := hvisited _ hmem
    rw [result_memberFrame] at hdone
    exact (congrArg (Option.getD · entry.1.2) hdone).trans rfl
  · obtain ⟨⟨name, value⟩, index⟩ := entry
    cases value with
    | array items => simp [isObject] at hobject
    | object members => simp [isObject] at hobject
    | _ => rfl

theorem walkedItems_eq (items : List (JsonValue JsNumber)) :
    walkedItems items = items.map (walked false) := by
  induction items with
  | nil => rfl
  | cons item rest ih => rw [walkedItems, ih, List.map_cons]

theorem walkedEntries_eq (isMeta : Bool) (members : Members JsNumber) :
    walkedEntries keepEmptyMeta isMeta members = members.flatMap fun member =>
      if isMeta && isPrivate member.1 then [member]
      else scrubMember keepEmptyMeta member.1 (walked (member.1 = js "_meta") member.2) := by
  induction members with
  | nil => rfl
  | cons member rest ih => rw [walkedEntries, ih, List.flatMap_cons]

/-- A frame whose members have been visited is finished as it is to be. -/
theorem finished_eq
    (hvisited : ∀ member ∈ (membersOf frame).filter fun member => isObject (some member.node),
      s.done member.id = some (member.result keepEmptyMeta))
    (hothers : ∀ id, (∀ member ∈ membersOf frame, ¬ member.id <:+ id) → frame.id <:+ id →
      s.done id = none) :
    s.finished keepEmptyMeta frame = frame.result keepEmptyMeta := by
  rw [finished, Frame.result]
  cases hnode : frame.node with
  | array items =>
      have hmeta : frame.isMeta = false := by simp [Frame.isMeta, hnode]
      have hitems : ∀ item ∈ items.zipIdx,
          s.scrubbedOf (item.2 :: frame.id) item.1 = walked false item.1 := by
        intro item hitem
        have hentry : ((js (toString item.2), item.1), item.2) ∈ (entriesOf frame.node).zipIdx := by
          rw [hnode, entriesOf, List.mk_mem_zipIdx_iff_getElem?, indexedMembers]
          simp [List.mem_zipIdx_iff_getElem?.mp hitem]
        have hscrubbed := scrubbedOf_walked hvisited hentry (by simp [hmeta])
        rwa [decide_eq_false (ne_index isNamed_meta item.2)] at hscrubbed
      dsimp only
      rw [List.map_congr_left hitems, walkedItems_eq, ← List.zipIdx_map_fst 0 items, List.map_map,
        List.zipIdx_map_fst]
      rfl
  | object members =>
      have hmembers : ∀ entry ∈ members.zipIdx,
          scrubMember (keepEmptyMeta && frame.id = []) entry.1.1
              (s.scrubbedOf (entry.2 :: frame.id) entry.1.2) =
            if frame.isMeta && isPrivate entry.1.1 then [entry.1]
            else scrubMember (keepEmptyMeta && frame.id = []) entry.1.1
              (walked (entry.1.1 = js "_meta") entry.1.2) := by
        intro entry hentry
        rw [← show entriesOf frame.node = members by rw [hnode, entriesOf]] at hentry
        cases hskipped : frame.isMeta && isPrivate entry.1.1 with
        | false =>
            rw [scrubbedOf_walked hvisited hentry hskipped]
            rfl
        | true =>
            -- Nothing was done at the place of a member that is not walked.
            have hnone : s.done (entry.2 :: frame.id) = none := by
              refine hothers _ ?_ (List.suffix_cons _ _)
              intro member hmem hbelow
              obtain ⟨entry', hentry', hwalked, rfl⟩ := mem_membersOf.mp hmem
              have hid : entry'.2 :: frame.id = entry.2 :: frame.id := hbelow.eq_of_length rfl
              rw [List.mem_zipIdx_iff_getElem?] at hentry hentry'
              rw [(List.cons.inj hid).1, hentry] at hentry'
              rw [← Option.some.inj hentry', hskipped] at hwalked
              cases hwalked
            have hkept : s.scrubbedOf (entry.2 :: frame.id) entry.1.2 = entry.1.2 := by
              rw [scrubbedOf, hnone]
              split_ifs <;> rfl
            rw [Bool.and_eq_true] at hskipped
            rw [hkept, scrubMember_of_ne (ne_meta_of_isPrivate hskipped.2)]
            rfl
      dsimp only
      rw [List.flatMap_congr hmembers, walkedEntries_eq, ← List.zipIdx_map_fst 0 members,
        List.flatMap_map, List.zipIdx_map_fst]
  | _ => rfl

/-- A frame is visited by expanding it, visiting its members, and finishing it. -/
theorem visitable_of_members (hobject : isObject (some frame.node) = true)
    (hexpanded : frame.expanded = false)
    (hmembers : ∀ member ∈ membersOf frame, isObject (some member.node) = true →
      Visitable stamp keepEmptyMeta member) : Visitable stamp keepEmptyMeta frame := by
  intro s rest hstack hunseen
  have hexpand : s.turn stamp keepEmptyMeta = some (s.expand stamp frame rest) := by
    rw [turn, hstack]
    simp [hexpanded, has_eq_false hunseen]
  have hframes : ∀ member ∈ (membersOf frame).filter fun member => isObject (some member.node),
      Visitable stamp keepEmptyMeta member ∧ (s.expand stamp frame rest).Unseen member.id := by
    intro member hmem
    obtain ⟨hmem, hmember⟩ := List.mem_filter.mp hmem
    refine ⟨hmembers member hmem hmember, ?_⟩
    intro below hbelow
    obtain ⟨entry, -, -, rfl⟩ := mem_membersOf.mp hmem
    have hsuffix : frame.id <:+ below := (List.suffix_cons entry.2 frame.id).trans hbelow
    obtain ⟨hdone, hprogress⟩ := hunseen below hsuffix
    refine ⟨hdone, List.not_mem_cons_of_ne_of_not_mem ?_ hprogress⟩
    rintro rfl
    have hlength := hbelow.length_le
    simp [memberFrame] at hlength
  obtain ⟨s₂, h₂⟩ := visit_all hframes (membersOf_apart.filter _) (expand_stack hunseen)
  have hfinish : s₂.turn stamp keepEmptyMeta =
      some (s₂.finish keepEmptyMeta { frame with expanded := true } rest) := by
    rw [turn, h₂.stack]
    rfl
  have hfinished : s₂.finished keepEmptyMeta frame = frame.result keepEmptyMeta := by
    refine finished_eq h₂.done ?_
    intro id hid hbelow
    rw [h₂.others id fun member hmem => hid member (List.mem_filter.mp hmem).1]
    exact (hunseen id hbelow).1
  have hturns : Turns stamp keepEmptyMeta s
      (s₂.finish keepEmptyMeta { frame with expanded := true } rest) :=
    .head hexpand (h₂.turns.tail hfinish)
  refine ⟨_, hturns, rfl, ?_, ?_, ?_, ?_, ?_⟩
  · rw [finish, h₂.inProgress]
    exact List.erase_cons_head _ _
  · rw [leakedFrom_eq hobject, ← flatMap_filter_objects fun _ => leakedFrom_scalar,
      ← List.append_assoc]
    exact h₂.leaked
  · rw [idsFrom_eq hobject, ← flatMap_filter_objects fun _ => idsFrom_scalar, ← List.append_assoc]
    exact h₂.ids
  · rw [← hfinished]
    exact Function.update_self _ _ _
  · intro id hid
    have hne : id ≠ frame.id := by
      rintro rfl
      exact hid List.suffix_rfl
    refine (Function.update_of_ne hne _ _).trans (h₂.others id ?_)
    intro member hmem hbelow
    obtain ⟨entry, -, -, rfl⟩ := mem_membersOf.mp (List.mem_filter.mp hmem).1
    exact hid ((List.suffix_cons entry.2 frame.id).trans hbelow)

/-- Any node with members of its own is visited. -/
theorem visitable (value : JsonValue JsNumber) : ∀ frame : Frame, frame.node = value →
    frame.expanded = false → isObject (some value) = true →
      Visitable stamp keepEmptyMeta frame := by
  induction value using value_induction with
  | scalar value hscalar =>
      intro frame _ _ hobject
      rw [hscalar] at hobject
      cases hobject
  | array items ih =>
      intro frame hnode hexpanded hobject
      refine visitable_of_members (hnode ▸ hobject) hexpanded ?_
      intro member hmem hmember
      obtain ⟨entry, hentry, -, rfl⟩ := mem_membersOf.mp hmem
      rw [hnode, entriesOf] at hentry
      obtain ⟨-, hitem⟩ := mem_indexedMembers (List.fst_mem_of_mem_zipIdx hentry)
      exact ih _ hitem _ rfl rfl hmember
  | object members ih =>
      intro frame hnode hexpanded hobject
      refine visitable_of_members (hnode ▸ hobject) hexpanded ?_
      intro member hmem hmember
      obtain ⟨entry, hentry, -, rfl⟩ := mem_membersOf.mp hmem
      rw [hnode, entriesOf] at hentry
      exact ih _ (List.fst_mem_of_mem_zipIdx hentry) _ rfl rfl hmember

/-- The loop leads to one state with an empty stack only. -/
theorem Turns.unique {s₁ s₂ : ScrubState} (h₁ : Turns stamp keepEmptyMeta s s₁)
    (h₂ : Turns stamp keepEmptyMeta s s₂) (hend₁ : s₁.stack = []) (hend₂ : s₂.stack = []) :
    s₁ = s₂ := by
  have hstuck : ∀ {s s' : ScrubState}, s.stack = [] → s.turn stamp keepEmptyMeta ≠ some s' := by
    intro s s' hend
    rw [turn, hend]
    exact fun h => by cases h
  induction h₁ using Relation.ReflTransGen.head_induction_on with
  | refl =>
      obtain heq | ⟨s', hturn, -⟩ := h₂.cases_head
      · exact heq
      · exact absurd hturn (hstuck hend₁)
  | head hturn _ ih =>
      obtain heq | ⟨s', hturn', hrest⟩ := h₂.cases_head
      · exact absurd hturn (hstuck (heq ▸ hend₂))
      · exact ih ((Option.some.inj (hturn.symm.trans hturn')) ▸ hrest)

end ScrubState

/-- The loop ends, with what the recursion over the value finds and makes. -/
theorem fullWalk_iff {root : JsonValue JsNumber} {stamp : Option JsString} {keepEmptyMeta : Bool}
    {found : Scrubbed} :
    FullWalk root stamp keepEmptyMeta found ↔ found = scrubDeep root stamp keepEmptyMeta := by
  cases hobject : isObject (some root) with
  | false =>
      have hdeep : scrubDeep root stamp keepEmptyMeta =
          { value := root, leaked := stamp.elim [] (leakedAmong · [root]), ids := [] } := by
        cases root with
        | array items => cases hobject
        | object members => cases hobject
        | _ => cases stamp <;> simp [scrubDeep, scrubRoot, scrub, leakedIn, idsIn]
      rw [hdeep]
      constructor
      · intro h
        cases h with
        | scalar => rfl
        | walked hobject' => exact absurd (hobject.symm.trans hobject') Bool.false_ne_true
      · rintro rfl
        exact .scalar hobject
  | true =>
      have hvisitable : ScrubState.Visitable stamp keepEmptyMeta { node := root } :=
        ScrubState.visitable root _ rfl rfl hobject
      obtain ⟨s, h⟩ := hvisitable { stack := [{ node := root }] } [] rfl
        fun _ _ => ⟨rfl, List.not_mem_nil⟩
      have hvalue : Frame.result keepEmptyMeta { node := root } = scrubRoot keepEmptyMeta root := by
        cases root with
        | array items => exact (walked_spec (.array items)).1
        | object members =>
            rw [scrubRoot, ← walkedEntries_root]
            simp [Frame.result, Frame.isMeta]
        | _ => rfl
      have hnone : ∀ stamp, leakedAmong stamp [root] = [] := by
        intro stamp
        cases root with
        | array items => rfl
        | object members => rfl
        | _ => cases hobject
      have hdeep : scrubDeep root stamp keepEmptyMeta =
          { value := scrubRoot keepEmptyMeta root, leaked := s.leaked, ids := s.ids } := by
        rw [h.leaked, h.ids]
        cases stamp with
        | none => rfl
        | some stamp => simp [scrubDeep, hnone, Frame.leakedFrom, Frame.idsFrom, Frame.isMeta]
      have hdone := h.done
      rw [hvalue] at hdone
      rw [hdeep]
      constructor
      · intro hfound
        cases hfound with
        | scalar hscalar => exact absurd (hobject.symm.trans hscalar) Bool.false_ne_true.symm
        | walked _ hturns hend hvalue' =>
            obtain rfl := ScrubState.Turns.unique hturns h.turns hend h.stack
            rw [hdone] at hvalue'
            cases hvalue'
            rfl
      · rintro rfl
        exact .walked hobject h.turns h.stack hdone

end KyaOs.Middleware
