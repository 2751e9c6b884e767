import Mathlib.Logic.Function.Basic
import Mathlib.Tactic.Basic

/-!
# Asynchronous code over a shared state

An asynchronous call runs without interruption up to its next `await`. Between the
request and the moment the request is served, and again between the answer and the
moment the call goes on, every other call may run and the environment may act.

`wp` is a weakest precondition under interference: a call guarantees to the others
what they rely on, and may use what it relies on whenever it goes on. The proof may
carry a ghost value that no code reads. `Config.Sound` is kept by every step, so a
property proved of each call on its own holds in every reachable configuration.
-/

namespace Concurrency

/-- What calls share and whom they ask. -/
structure Setting where
  State : Type
  Error : Type
  Request : Type
  Answer : Request → Type

inductive Async (I : Setting) (α : Type) where
  | done (result : Except I.Error α)
  | read (k : I.State → Async I α)
  | write (f : I.State → I.State) (next : Async I α)
  | await (request : I.Request) (k : Except I.Error (I.Answer request) → Async I α)

namespace Async

variable {I : Setting} {α β : Type}

/-- Goes on with a call's result, returned or thrown. -/
def andThen : Async I α → (Except I.Error α → Async I β) → Async I β
  | .done result, next => next result
  | .read k, next => .read fun s => (k s).andThen next
  | .write f p, next => .write f (p.andThen next)
  | .await request k, next => .await request fun answer => (k answer).andThen next

/-- Goes on with a returned value. -/
def onReturn (next : α → Async I β) : Except I.Error α → Async I β
  | .ok a => next a
  | .error e => .done (.error e)

/-- Goes on with a thrown error. -/
def onThrow (handler : I.Error → Async I α) : Except I.Error α → Async I α
  | .ok a => .done (.ok a)
  | .error e => handler e

instance : Monad (Async I) where
  pure a := .done (.ok a)
  bind p next := p.andThen (onReturn next)

instance : MonadExceptOf I.Error (Async I) where
  throw e := .done (.error e)
  tryCatch p handler := p.andThen (onThrow handler)

/-- The shared state at this moment. -/
def state : Async I I.State := .read fun s => .done (.ok s)

def update (f : I.State → I.State) : Async I Unit := .write f (.done (.ok ()))

/-- `await request`. -/
def ask (request : I.Request) : Async I (I.Answer request) := .await request .done

/-- A computation without awaits. -/
def ofExcept (result : Except I.Error α) : Async I α := .done result

/-- `try { p } finally { cleanup }`. -/
def finally_ (p : Async I α) (cleanup : I.State → I.State) : Async I α :=
  p.andThen fun result => .write cleanup (.done result)

end Async

/-- What a proof fixes for all calls: an invariant of the state and the ghost value,
what each call relies on while it waits, what holds of a call that has not been made,
and how requests are served. -/
structure Protocol (I : Setting) (ι γ : Type) where
  inv : I.State × γ → Prop
  rely : ι → I.State × γ → I.State × γ → Prop
  fresh : ι → I.State × γ → Prop
  serves : ι → (request : I.Request) → I.State → Except I.Error (I.Answer request) →
    I.State → Prop

namespace Protocol

variable {I : Setting} {ι γ : Type} {α β : Type}

/-- What call `c` owes the others. -/
def guarantee (P : Protocol I ι γ) (c : ι) (w w' : I.State × γ) : Prop :=
  ∀ other, other ≠ c → P.rely other w w'

/-- The weakest precondition of a call that has run from `start` to the state `s`
without interruption; the ghost value is still that of `start`. -/
def wp (P : Protocol I ι γ) (c : ι) :
    Async I α → (Except I.Error α → I.State × γ → I.State → Prop) →
      I.State × γ → I.State → Prop
  | .done result, Q, start, s => Q result start s
  | .read k, Q, start, s => wp P c (k s) Q start s
  | .write f p, Q, start, s => wp P c p Q start (f s)
  | .await request k, Q, start, s =>
    ∃ g, P.inv (s, g) ∧ P.guarantee c start (s, g) ∧
      ∀ asked, P.inv asked → P.rely c (s, g) asked →
        ∀ answer s', P.serves c request asked.1 answer s' →
          ∃ g', P.inv (s', g') ∧ P.guarantee c asked (s', g') ∧
            ∀ resumed, P.inv resumed → P.rely c (s', g') resumed →
              wp P c (k answer) Q resumed resumed.1

variable {P : Protocol I ι γ} {c : ι}

theorem wp_andThen (p : Async I α) (next : Except I.Error α → Async I β)
    (Q : Except I.Error β → I.State × γ → I.State → Prop) (start : I.State × γ) (s : I.State) :
    P.wp c (p.andThen next) Q start s =
      P.wp c p (fun result => P.wp c (next result) Q) start s := by
  induction p generalizing start s with
  | done result => rfl
  | read k ih => exact ih s start s
  | write f p ih => exact ih start (f s)
  | await request k ih => simp only [Async.andThen, wp, ih]

/-- The rule of consequence. -/
theorem wp_mono {p : Async I α} {Q Q' : Except I.Error α → I.State × γ → I.State → Prop}
    (hQ : ∀ result start s, Q result start s → Q' result start s) {start : I.State × γ}
    {s : I.State} (h : P.wp c p Q start s) : P.wp c p Q' start s := by
  induction p generalizing start s with
  | done result => exact hQ _ _ _ h
  | read k ih => exact ih s h
  | write f p ih => exact ih h
  | await request k ih =>
      obtain ⟨g, hinv, hguarantee, hserved⟩ := h
      refine ⟨g, hinv, hguarantee, ?_⟩
      intro asked hasked hrely answer s' hserves
      obtain ⟨g', hinv', hguarantee', hresumed⟩ := hserved asked hasked hrely answer s' hserves
      refine ⟨g', hinv', hguarantee', ?_⟩
      intro resumed hresumedInv hresumedRely
      exact ih answer (hresumed resumed hresumedInv hresumedRely)

/-- An invariant that also keeps `frame` gives as much where `frame` holds and stays. -/
theorem wp_of_narrower {P' : Protocol I ι γ} {frame : I.State × γ → Prop}
    (hrely : P'.rely = P.rely) (hserves : P'.serves = P.serves)
    (hinv : ∀ w, P'.inv w ↔ P.inv w ∧ frame w)
    (hframe : ∀ w w', frame w → P.rely c w w' → frame w') {p : Async I α}
    {Q : Except I.Error α → I.State × γ → I.State → Prop} {start : I.State × γ} {s : I.State}
    (h : P'.wp c p Q start s) : P.wp c p Q start s := by
  have hguarantee : ∀ w w', P'.guarantee c w w' ↔ P.guarantee c w w' := by
    simp only [guarantee, hrely, implies_true]
  induction p generalizing start s with
  | done result => exact h
  | read k ih => exact ih s h
  | write f p ih => exact ih h
  | await request k ih =>
      obtain ⟨g, hbefore, hbeforeGuarantee, hserved⟩ := h
      obtain ⟨hbeforeInv, hbeforeFrame⟩ := (hinv _).mp hbefore
      refine ⟨g, hbeforeInv, (hguarantee _ _).mp hbeforeGuarantee, ?_⟩
      intro asked hasked haskedRely answer s' hanswer
      have haskedFrame := hframe _ _ hbeforeFrame haskedRely
      obtain ⟨g', hafter, hafterGuarantee, hresumed⟩ :=
        hserved asked ((hinv _).mpr ⟨hasked, haskedFrame⟩) (hrely ▸ haskedRely) answer s'
          (hserves ▸ hanswer)
      obtain ⟨hafterInv, hafterFrame⟩ := (hinv _).mp hafter
      refine ⟨g', hafterInv, (hguarantee _ _).mp hafterGuarantee, ?_⟩
      intro resumed hresumedInv hresumedRely
      have hresumedFrame := hframe _ _ hafterFrame hresumedRely
      exact ih answer (hresumed resumed ((hinv _).mpr ⟨hresumedInv, hresumedFrame⟩)
        (hrely ▸ hresumedRely))

section Rules

variable {Q : Except I.Error α → I.State × γ → I.State → Prop} {start : I.State × γ}
  {s : I.State}

theorem wp_bind (p : Async I β) (next : β → Async I α) :
    P.wp c (p >>= next) Q start s =
      P.wp c p (fun result => P.wp c (Async.onReturn next result) Q) start s :=
  wp_andThen p _ Q start s

end Rules

end Protocol

namespace Protocol

variable {I : Setting} {ι γ : Type} {α β : Type}

/-- From a state that satisfies `pre`, the code keeps the protocol and ends in `post`. -/
def Contract (P : Protocol I ι γ) (c : ι) (pre : I.State × γ → Prop) (p : Async I α)
    (post : Except I.Error α → I.State × γ → Prop) : Prop :=
  ∀ start s g, P.inv (s, g) → P.guarantee c start (s, g) → pre (s, g) →
    P.wp c p (fun result start s => ∃ g, P.inv (s, g) ∧ P.guarantee c start (s, g) ∧
      post result (s, g)) start s

/-- What holds is not undone while call `c` waits. -/
def Stable (P : Protocol I ι γ) (c : ι) (pre : I.State × γ → Prop) : Prop :=
  ∀ w w', pre w → P.inv w → P.inv w' → P.rely c w w' → pre w'

variable {P : Protocol I ι γ} {c : ι} {pre pre' : I.State × γ → Prop}

namespace Contract

variable {post post' : Except I.Error α → I.State × γ → Prop}
  {mid : Except I.Error β → I.State × γ → Prop}

theorem consequence {p : Async I α} (h : P.Contract c pre p post)
    (hpre : ∀ w, P.inv w → pre' w → pre w)
    (hpost : ∀ result w, P.inv w → post result w → post' result w) : P.Contract c pre' p post' := by
  intro start s g hinv hguarantee hstart
  refine wp_mono ?_ (h start s g hinv hguarantee (hpre _ hinv hstart))
  rintro result start s ⟨g, hinv, hguarantee, hresult⟩
  exact ⟨g, hinv, hguarantee, hpost result _ hinv hresult⟩

theorem mono_pre {p : Async I α} (h : P.Contract c pre p post)
    (hpre : ∀ w, P.inv w → pre' w → pre w) : P.Contract c pre' p post :=
  h.consequence hpre fun _ _ _ hresult => hresult

theorem mono_post {p : Async I α} (h : P.Contract c pre p post)
    (hpost : ∀ result w, P.inv w → post result w → post' result w) : P.Contract c pre p post' :=
  h.consequence (fun _ _ hstart => hstart) hpost

/-- A contract under an invariant that also keeps `frame`. -/
theorem of_narrower {P' : Protocol I ι γ} {frame : I.State × γ → Prop} {p : Async I α}
    (h : P'.Contract c pre p post) (hrely : P'.rely = P.rely) (hserves : P'.serves = P.serves)
    (hinv : ∀ w, P'.inv w ↔ P.inv w ∧ frame w)
    (hframe : ∀ w w', frame w → P.rely c w w' → frame w') :
    P.Contract c (fun w => pre w ∧ frame w) p fun result w => post result w ∧ frame w := by
  intro start s g hstart hguarantee hpre
  have hguarantees : ∀ w w', P'.guarantee c w w' ↔ P.guarantee c w w' := by
    simp only [guarantee, hrely, implies_true]
  have hwp := h start s g ((hinv _).mpr ⟨hstart, hpre.2⟩) ((hguarantees _ _).mpr hguarantee) hpre.1
  refine wp_mono ?_ (wp_of_narrower hrely hserves hinv hframe hwp)
  rintro result start s ⟨g, hend, hguarantee, hpost⟩
  obtain ⟨hendInv, hendFrame⟩ := (hinv _).mp hend
  exact ⟨g, hendInv, (hguarantees _ _).mp hguarantee, hpost, hendFrame⟩

/-- The precondition that the code needs, named first. -/
theorem of_weaker {p : Async I α} (pre : I.State × γ → Prop) (h : P.Contract c pre p post)
    (hpre : ∀ w, P.inv w → pre' w → pre w) : P.Contract c pre' p post :=
  h.mono_pre hpre

/-- A precondition is used as a hypothesis. -/
theorem of_pre {p : Async I α} {fact : Prop} (hfact : ∀ w, P.inv w → pre w → fact)
    (h : fact → P.Contract c pre p post) : P.Contract c pre p post := by
  intro start s g hinv hguarantee hstart
  exact h (hfact _ hinv hstart) start s g hinv hguarantee hstart

theorem ofExcept {result : Except I.Error α} (h : ∀ w, P.inv w → pre w → post result w) :
    P.Contract c pre (Async.ofExcept result) post := by
  intro start s g hinv hguarantee hstart
  exact ⟨g, hinv, hguarantee, h _ hinv hstart⟩

theorem pure {a : α} (h : ∀ w, P.inv w → pre w → post (.ok a) w) :
    P.Contract c pre (pure a : Async I α) post :=
  ofExcept h

theorem throw {e : I.Error} (h : ∀ w, P.inv w → pre w → post (.error e) w) :
    P.Contract c pre (throw e : Async I α) post :=
  ofExcept h

theorem andThen {p : Async I β} {next : Except I.Error β → Async I α}
    (h : P.Contract c pre p mid) (hnext : ∀ result, P.Contract c (mid result) (next result) post) :
    P.Contract c pre (p.andThen next) post := by
  intro start s g hinv hguarantee hstart
  rw [wp_andThen]
  refine wp_mono ?_ (h start s g hinv hguarantee hstart)
  rintro result start s ⟨g, hinv, hguarantee, hresult⟩
  exact hnext result start s g hinv hguarantee hresult

theorem bind {p : Async I β} {next : β → Async I α} (h : P.Contract c pre p mid)
    (hnext : ∀ b, P.Contract c (mid (.ok b)) (next b) post)
    (herror : ∀ e w, P.inv w → mid (.error e) w → post (.error e) w) :
    P.Contract c pre (p >>= next) post := by
  refine andThen h ?_
  intro result
  cases result with
  | ok b => exact hnext b
  | error e => exact ofExcept (herror e)

/-- What comes after code that returns one value only. -/
theorem bind_ok {p : Async I β} {next : β → Async I α} {b : β} {kept : I.State × γ → Prop}
    (h : P.Contract c pre p fun result w => result = .ok b ∧ kept w)
    (hnext : P.Contract c kept (next b) post) : P.Contract c pre (p >>= next) post := by
  refine bind h ?_ ?_
  · intro found
    refine of_pre (fun _ _ h => Except.ok.inj h.1) ?_
    rintro rfl
    exact hnext.mono_pre fun _ _ h => h.2
  · rintro e w - ⟨hthrown, -⟩
    cases hthrown

theorem tryCatch {p : Async I α} {handler : I.Error → Async I α}
    {mid : Except I.Error α → I.State × γ → Prop} (h : P.Contract c pre p mid)
    (hok : ∀ a w, P.inv w → mid (.ok a) w → post (.ok a) w)
    (hhandler : ∀ e, P.Contract c (mid (.error e)) (handler e) post) :
    P.Contract c pre (tryCatch p handler) post := by
  refine andThen h ?_
  intro result
  cases result with
  | ok a => exact ofExcept (hok a)
  | error e => exact hhandler e

/-- What holds after the body, returned or thrown. -/
theorem tryCatch_keeps {p : Async I α} {handler : I.Error → Async I α}
    {fact : I.State × γ → Prop} (h : P.Contract c pre p fun _ w => fact w)
    (hok : ∀ a w, P.inv w → fact w → post (.ok a) w)
    (hhandler : ∀ e, P.Contract c fact (handler e) post) :
    P.Contract c pre (MonadExcept.tryCatch p handler) post :=
  tryCatch h hok hhandler

/-- A checked computation without awaits, before the rest. -/
theorem check {result : Except I.Error β} {next : β → Async I α}
    (hnext : ∀ b, result = .ok b → P.Contract c pre (next b) post)
    (herror : ∀ e w, result = .error e → P.inv w → pre w → post (.error e) w) :
    P.Contract c pre (Async.ofExcept result >>= next) post := by
  cases result with
  | ok b => exact hnext b rfl
  | error e => exact ofExcept fun w => herror e w rfl

/-- Reading the shared state. -/
theorem state {next : I.State → Async I α}
    (h : ∀ s, P.Contract c (fun w => w.1 = s ∧ pre w) (next s) post) :
    P.Contract c pre (Async.state >>= next) post := by
  intro start s g hinv hguarantee hstart
  exact h s start s g hinv hguarantee ⟨rfl, hstart⟩

/-- Writing the shared state, the ghost value chosen anew. -/
theorem update {f : I.State → I.State} {next : Unit → Async I α}
    (htrans : ∀ w w' w'', P.guarantee c w w' → P.guarantee c w' w'' → P.guarantee c w w'')
    (hwrite : ∀ w, P.inv w → pre w →
      ∃ g, P.inv (f w.1, g) ∧ P.guarantee c w (f w.1, g) ∧ pre' (f w.1, g))
    (hnext : P.Contract c pre' (next ()) post) :
    P.Contract c pre (Async.update f >>= next) post := by
  intro start s g hinv hguarantee hstart
  obtain ⟨g', hinv', hguarantee', hpre'⟩ := hwrite (s, g) hinv hstart
  exact hnext start (f s) g' hinv' (htrans _ _ _ hguarantee hguarantee') hpre'

theorem finally_ {p : Async I α} {cleanup : I.State → I.State}
    {mid : Except I.Error α → I.State × γ → Prop}
    (htrans : ∀ w w' w'', P.guarantee c w w' → P.guarantee c w' w'' → P.guarantee c w w'')
    (h : P.Contract c pre p mid)
    (hcleanup : ∀ result w, P.inv w → mid result w →
      ∃ g, P.inv (cleanup w.1, g) ∧ P.guarantee c w (cleanup w.1, g) ∧
        post result (cleanup w.1, g)) :
    P.Contract c pre (p.finally_ cleanup) post := by
  refine andThen h ?_
  intro result start s g hinv hguarantee hresult
  obtain ⟨g', hinv', hguarantee', hpost⟩ := hcleanup result (s, g) hinv hresult
  exact ⟨g', hinv', htrans _ _ _ hguarantee hguarantee', hpost⟩

/-- Awaiting a request: what holds of the answer when the call goes on. -/
theorem ask {request : I.Request} {post : Except I.Error (I.Answer request) → I.State × γ → Prop}
    (h : ∀ w asked, P.inv w → pre w → P.inv asked → P.rely c w asked → ∀ answer s',
      P.serves c request asked.1 answer s' →
        ∃ g', P.inv (s', g') ∧ P.guarantee c asked (s', g') ∧
          ∀ resumed, P.inv resumed → P.rely c (s', g') resumed → post answer resumed)
    (hrefl : ∀ w, P.guarantee c w w) : P.Contract c pre (Async.ask request) post := by
  intro start s g hinv hguarantee hstart
  refine ⟨g, hinv, hguarantee, ?_⟩
  intro asked hasked hrely answer s' hserves
  obtain ⟨g', hinv', hguarantee', hpost⟩ :=
    h (s, g) asked hinv hstart hasked hrely answer s' hserves
  refine ⟨g', hinv', hguarantee', ?_⟩
  intro resumed hresumed hrely'
  exact ⟨resumed.2, hresumed, hrefl resumed, hpost resumed hresumed hrely'⟩

/-- Facts that hold for some value are used for that value. -/
theorem of_exists {κ : Type} {pre : κ → I.State × γ → Prop} {p : Async I α}
    (h : ∀ x, P.Contract c (pre x) p post) : P.Contract c (fun w => ∃ x, pre x w) p post := by
  intro start s g hinv hguarantee hstart
  obtain ⟨x, hx⟩ := hstart
  exact h x start s g hinv hguarantee hx

/-- Awaiting an answer that leaves what the calls rely on as it is. -/
theorem observe {request : I.Request} {next : I.Answer request → Async I α}
    (hrefl : ∀ w, P.guarantee c w w)
    (htrans : ∀ w w' w'', P.rely c w w' → P.rely c w' w'' → P.rely c w w'')
    (hobserve : ∀ asked answer s', P.inv asked → P.serves c request asked.1 answer s' →
      ∃ g', P.inv (s', g') ∧ P.guarantee c asked (s', g') ∧ P.rely c asked (s', g'))
    (hstable : P.Stable c pre)
    (hnext : ∀ answer asked s', P.inv asked → pre asked →
      P.serves c request asked.1 (.ok answer) s' →
      P.Contract c (fun w => pre w ∧ P.rely c asked w) (next answer) post)
    (herror : ∀ e asked s' w, P.inv asked → pre asked →
      P.serves c request asked.1 (.error e) s' → P.inv w → pre w → P.rely c asked w →
      post (.error e) w) :
    P.Contract c pre (Async.ask request >>= next) post := by
  have hask : P.Contract c pre (Async.ask request) fun answer w => ∃ asked : I.State × γ,
      ∃ s', (P.inv asked ∧ pre asked ∧ P.serves c request asked.1 answer s') ∧
        pre w ∧ P.rely c asked w := by
    refine ask ?_ hrefl
    intro w asked hinv hpre hasked hrely answer s' hserves
    have hpre' := hstable w asked hpre hinv hasked hrely
    obtain ⟨g', hinv', hguarantee', hrely'⟩ := hobserve asked answer s' hasked hserves
    refine ⟨g', hinv', hguarantee', ?_⟩
    intro resumed hresumed hresumedRely
    have hthrough := htrans _ _ _ hrely' hresumedRely
    exact ⟨asked, s', ⟨hasked, hpre', hserves⟩,
      hstable asked resumed hpre' hasked hresumed hthrough, hthrough⟩
  refine bind hask ?_ ?_
  · intro answer
    refine of_exists fun asked => of_exists fun s' => ?_
    refine of_pre (fun _ _ h => h.1) ?_
    rintro ⟨hasked, hpre', hserves⟩
    exact (hnext answer asked s' hasked hpre' hserves).mono_pre fun _ _ h => h.2
  · rintro e w hw ⟨asked, s', ⟨hasked, hpre', hserves⟩, hpre, hrely⟩
    exact herror e asked s' w hasked hpre' hserves hw hpre hrely

end Contract

end Protocol

/-- How far a call has come. -/
inductive Thread (I : Setting) (α : Type) where
  | ready (p : Async I α)
  | waiting (request : I.Request) (k : Except I.Error (I.Answer request) → Async I α)
  | finished (result : Except I.Error α)

/-- Runs a call up to its next await or its end. -/
def Async.advance {I : Setting} {α : Type} : Async I α → I.State → I.State × Thread I α
  | .done result, s => (s, .finished result)
  | .read k, s => (k s).advance s
  | .write f p, s => p.advance (f s)
  | .await request k, s => (s, .waiting request k)

/-- The code of each call, how its requests are served and what else may change the
shared state. -/
structure Program (I : Setting) (ι α : Type) where
  code : ι → Async I α
  serves : ι → (request : I.Request) → I.State → Except I.Error (I.Answer request) →
    I.State → Prop
  environment : I.State → I.State → Prop

/-- A call that was made: the state it was made in, and how far it has come. -/
structure Activation (I : Setting) (α : Type) where
  born : I.State
  thread : Thread I α

structure Config (I : Setting) (ι α : Type) where
  state : I.State
  calls : ι → Option (Activation I α)

namespace Config

variable {I : Setting} {ι α : Type}

/-- Only call `c` has changed. -/
structure Moves (config : Config I ι α) (c : ι) (s : I.State) (activation : Activation I α)
    (config' : Config I ι α) : Prop where
  state : config'.state = s
  moved : config'.calls c = some activation
  others : ∀ other, other ≠ c → config'.calls other = config.calls other

theorem exists_moves (config : Config I ι α) (c : ι) (s : I.State)
    (activation : Activation I α) : ∃ config', config.Moves c s activation config' := by
  classical
  refine ⟨⟨s, Function.update config.calls c (some activation)⟩, rfl, ?_, ?_⟩
  · exact Function.update_self c _ _
  · intro other hother
    exact Function.update_of_ne hother _ _

end Config

namespace Program

variable {I : Setting} {ι α : Type}

inductive Step (program : Program I ι α) : Config I ι α → Config I ι α → Prop
  | call {config config' : Config I ι α} {c : ι} : config.calls c = none →
      config.Moves c config.state ⟨config.state, .ready (program.code c)⟩ config' →
      Step program config config'
  | run {config config' : Config I ι α} {c : ι} {born : I.State} {p : Async I α} :
      config.calls c = some ⟨born, .ready p⟩ →
      config.Moves c (p.advance config.state).1 ⟨born, (p.advance config.state).2⟩ config' →
      Step program config config'
  | serve {config config' : Config I ι α} {c : ι} {born : I.State} {request : I.Request}
      {k : Except I.Error (I.Answer request) → Async I α}
      {answer : Except I.Error (I.Answer request)} {s' : I.State} :
      config.calls c = some ⟨born, .waiting request k⟩ →
      program.serves c request config.state answer s' →
      config.Moves c s' ⟨born, .ready (k answer)⟩ config' →
      Step program config config'
  | act {config : Config I ι α} {s' : I.State} : program.environment config.state s' →
      Step program config ⟨s', config.calls⟩

/-- The configurations reached from one. -/
inductive Reaches (program : Program I ι α) : Config I ι α → Config I ι α → Prop
  | refl (config : Config I ι α) : Reaches program config config
  | step {config config' config'' : Config I ι α} :
      Reaches program config config' → program.Step config' config'' →
      Reaches program config config''

/-- No call made yet. -/
def initial (s : I.State) : Config I ι α := ⟨s, fun _ => none⟩

variable {program : Program I ι α} {config config' config'' : Config I ι α} {c : ι}

theorem Reaches.trans (h : program.Reaches config config')
    (h' : program.Reaches config' config'') : program.Reaches config config'' := by
  induction h' with
  | refl => exact h
  | step _ hstep ih => exact ih.step hstep

/-- A step changes one call at most: it makes it, or takes it on from where it stood. -/
theorem Step.calls (h : program.Step config config') (c : ι) :
    config'.calls c = config.calls c ∨
      (config.calls c = none ∧
        config'.calls c = some ⟨config.state, .ready (program.code c)⟩) ∨
      ∃ born before after, config.calls c = some ⟨born, before⟩ ∧
        (∀ result, before ≠ .finished result) ∧ config'.calls c = some ⟨born, after⟩ := by
  cases h with
  | @call _ moved hnone hmoves =>
      by_cases hc : c = moved
      · subst hc
        exact .inr (.inl ⟨hnone, hmoves.moved⟩)
      · exact .inl (hmoves.others c hc)
  | @run _ moved born p hready hmoves =>
      by_cases hc : c = moved
      · subst hc
        exact .inr (.inr ⟨born, _, _, hready, nofun, hmoves.moved⟩)
      · exact .inl (hmoves.others c hc)
  | @serve _ moved born request k answer s' hwaiting _ hmoves =>
      by_cases hc : c = moved
      · subst hc
        exact .inr (.inr ⟨born, _, _, hwaiting, nofun, hmoves.moved⟩)
      · exact .inl (hmoves.others c hc)
  | act _ => exact .inl rfl

/-- A finished call stays as it is. -/
theorem Reaches.finished (h : program.Reaches config config') {born : I.State}
    {result : Except I.Error α} (hc : config.calls c = some ⟨born, .finished result⟩) :
    config'.calls c = some ⟨born, .finished result⟩ := by
  induction h with
  | refl => exact hc
  | step _ hstep ih =>
      rcases hstep.calls c with hsame | ⟨hnone, -⟩ | ⟨_, before, _, hbefore, hunfinished, -⟩
      · rw [hsame, ih]
      · rw [ih] at hnone
        cases hnone
      · rw [ih] at hbefore
        cases hbefore
        exact absurd rfl (hunfinished result)

/-- A call that was not made before was made on the way. -/
theorem Reaches.made (h : program.Reaches config config') (hnone : config.calls c = none)
    {activation : Activation I α} (hc : config'.calls c = some activation) :
    ∃ made, program.Reaches config made ∧ made.state = activation.born := by
  induction h generalizing activation with
  | refl =>
      rw [hnone] at hc
      cases hc
  | @step config' config'' hreaches hstep ih =>
      rcases hstep.calls c with hsame | ⟨-, hmade⟩ | ⟨born, before, after, hbefore, -, hafter⟩
      · exact ih (hsame ▸ hc)
      · rw [hmade] at hc
        cases hc
        exact ⟨config', hreaches, rfl⟩
      · rw [hafter] at hc
        cases hc
        obtain ⟨made, hmade, hborn⟩ := ih hbefore
        exact ⟨made, hmade, hborn⟩

end Program

section Soundness

variable {I : Setting} {ι γ α : Type}

/-- A protocol that each call keeps on its own. -/
structure Discipline (program : Program I ι α) (P : Protocol I ι γ)
    (post : ι → I.State → Except I.Error α → I.State × γ → Prop) : Prop where
  rely_refl : ∀ c w, P.rely c w w
  rely_trans : ∀ c w w' w'', P.rely c w w' → P.rely c w' w'' → P.rely c w w''
  serves : ∀ c request s answer s', program.serves c request s answer s' →
    P.serves c request s answer s'
  environment : ∀ w s', P.inv w → program.environment w.1 s' →
    ∃ g', P.inv (s', g') ∧ ∀ c, P.rely c w (s', g')
  fresh_stable : ∀ c w w', P.fresh c w → P.inv w' → P.rely c w w' → P.fresh c w'
  code : ∀ c born, P.inv born → P.fresh c born → ∀ w, P.inv w → P.rely c born w →
    P.wp c (program.code c)
      (fun result start s => ∃ g, P.inv (s, g) ∧ P.guarantee c start (s, g) ∧
        post c born.1 result (s, g)) w w.1
  post_stable : ∀ c born result w w', post c born result w → P.inv w' →
    P.rely c w w' → post c born result w'

variable {program : Program I ι α} {P : Protocol I ι γ}
  {post : ι → I.State → Except I.Error α → I.State × γ → Prop}

/-- Where a call stands, the rest of it keeps the protocol. -/
def Thread.Sound (P : Protocol I ι γ) (c : ι) (Q : Except I.Error α → I.State × γ → Prop)
    (w : I.State × γ) : Thread I α → Prop
  | .ready p => ∀ w', P.inv w' → P.rely c w w' →
      P.wp c p (fun result start s => ∃ g, P.inv (s, g) ∧ P.guarantee c start (s, g) ∧
        Q result (s, g)) w' w'.1
  | .waiting request k => ∀ asked, P.inv asked → P.rely c w asked →
      ∀ answer s', P.serves c request asked.1 answer s' →
        ∃ g', P.inv (s', g') ∧ P.guarantee c asked (s', g') ∧
          ∀ resumed, P.inv resumed → P.rely c (s', g') resumed →
            P.wp c (k answer) (fun result start s => ∃ g, P.inv (s, g) ∧
              P.guarantee c start (s, g) ∧ Q result (s, g)) resumed resumed.1
  | .finished result => Q result w

/-- What every step keeps. -/
def Config.Sound (P : Protocol I ι γ)
    (post : ι → I.State → Except I.Error α → I.State × γ → Prop)
    (config : Config I ι α) : Prop :=
  ∃ g, P.inv (config.state, g) ∧
    (∀ c, config.calls c = none → P.fresh c (config.state, g)) ∧
    ∀ c activation, config.calls c = some activation →
      activation.thread.Sound P c (post c activation.born) (config.state, g)

/-- A call that stands still stays sound while the others act as it relies on. -/
theorem Thread.Sound.rely (D : Discipline program P post) {c : ι} {born : I.State}
    {w w' : I.State × γ} {thread : Thread I α} (h : thread.Sound P c (post c born) w)
    (hinv : P.inv w') (hrely : P.rely c w w') : thread.Sound P c (post c born) w' := by
  cases thread with
  | ready p =>
      intro w'' hinv'' hrely''
      exact h w'' hinv'' (D.rely_trans c _ _ _ hrely hrely'')
  | waiting request k =>
      intro asked hasked hrely'
      exact h asked hasked (D.rely_trans c _ _ _ hrely hrely')
  | finished result => exact D.post_stable c born result w w' h hinv hrely

/-- Running to the next await keeps the protocol. -/
theorem advance_sound {c : ι} {Q : Except I.Error α → I.State × γ → Prop} {p : Async I α}
    {start : I.State × γ} {s : I.State}
    (h : P.wp c p (fun result start s => ∃ g, P.inv (s, g) ∧ P.guarantee c start (s, g) ∧
      Q result (s, g)) start s) :
    ∃ g, P.inv ((p.advance s).1, g) ∧ P.guarantee c start ((p.advance s).1, g) ∧
      (p.advance s).2.Sound P c Q ((p.advance s).1, g) := by
  induction p generalizing s with
  | done result => exact h
  | read k ih => exact ih s h
  | write f p ih => exact ih h
  | await request k ih => exact h

/-- A step of one call that keeps what the others rely on. -/
theorem Config.Sound.others (D : Discipline program P post) {config config' : Config I ι α}
    {g g' : γ} {s' : I.State} (hfresh : ∀ c, config.calls c = none → P.fresh c (config.state, g))
    (hcalls : ∀ c activation, config.calls c = some activation →
      activation.thread.Sound P c (post c activation.born) (config.state, g))
    {c : ι} {activation : Activation I α} (hmoves : config.Moves c s' activation config')
    (hinv : P.inv (s', g')) (hguarantee : P.guarantee c (config.state, g) (s', g'))
    (hsound : activation.thread.Sound P c (post c activation.born) (s', g')) :
    Config.Sound P post config' := by
  obtain ⟨hstate, hmoved, hothers⟩ := hmoves
  refine ⟨g', hstate ▸ hinv, ?_, ?_⟩
  · intro other hother
    by_cases hsame : other = c
    · subst hsame
      rw [hmoved] at hother
      cases hother
    · rw [hothers other hsame] at hother
      rw [hstate]
      exact D.fresh_stable other _ _ (hfresh other hother) hinv (hguarantee other hsame)
  · intro other activation' hother
    rw [hstate]
    by_cases hsame : other = c
    · subst hsame
      rw [hmoved] at hother
      cases hother
      exact hsound
    · rw [hothers other hsame] at hother
      exact (hcalls other activation' hother).rely D hinv (hguarantee other hsame)

theorem Program.Step.sound (D : Discipline program P post) {config config' : Config I ι α}
    (hstep : program.Step config config') (h : config.Sound P post) : config'.Sound P post := by
  obtain ⟨g, hinv, hfresh, hcalls⟩ := h
  cases hstep with
  | @call _ c hnone hmoves =>
      apply Config.Sound.others D hfresh hcalls hmoves hinv
      · exact fun other _ => D.rely_refl other _
      · exact D.code c (config.state, g) hinv (hfresh c hnone)
  | @run _ c born p hready hmoves =>
      have hwp := hcalls c _ hready (config.state, g) hinv (D.rely_refl c _)
      obtain ⟨g', hinv', hguarantee, hsound⟩ := advance_sound hwp
      exact Config.Sound.others D hfresh hcalls hmoves hinv' hguarantee hsound
  | @serve _ c born request k answer s' hwaiting hserves hmoves =>
      obtain ⟨g', hinv', hguarantee, hresumed⟩ :=
        hcalls c _ hwaiting (config.state, g) hinv (D.rely_refl c _) answer s'
          (D.serves c request _ answer s' hserves)
      exact Config.Sound.others D hfresh hcalls hmoves hinv' hguarantee hresumed
  | act henvironment =>
      obtain ⟨g', hinv', hrely⟩ := D.environment (config.state, g) _ hinv henvironment
      refine ⟨g', hinv', ?_, ?_⟩
      · intro c hc
        exact D.fresh_stable c _ _ (hfresh c hc) hinv' (hrely c)
      · intro c activation hc
        exact (hcalls c activation hc).rely D hinv' (hrely c)

theorem Program.Reaches.sound (D : Discipline program P post) {config config' : Config I ι α}
    (hreaches : program.Reaches config config') (h : config.Sound P post) :
    config'.Sound P post := by
  induction hreaches with
  | refl => exact h
  | step _ hstep ih => exact hstep.sound D ih

theorem sound_initial {s : I.State} {g : γ} (h : P.inv (s, g)) (hfresh : ∀ c, P.fresh c (s, g)) :
    (Program.initial s : Config I ι α).Sound P post :=
  ⟨g, h, fun c _ => hfresh c, nofun⟩

end Soundness

end Concurrency
