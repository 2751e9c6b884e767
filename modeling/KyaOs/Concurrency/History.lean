import KyaOs.Concurrency.Conversations
import Mathlib.Algebra.BigOperators.Group.List.Basic
import Mathlib.Algebra.GroupWithZero.Nat
import Mathlib.Order.Nat

/-!
# Histories

The requests of a run in the order they were served, each with the call that made it. What
one call makes of a history is a conversation of its code. `Affords` says of the code alone
that it spends no more than it has been given, so what all calls spend is bounded by what
they were given in all.
-/

namespace Concurrency

variable {I : Setting} {ι α β : Type}

/-- The requests served, oldest first. -/
abbrev History (I : Setting) (ι : Type) := List (ι × Exchange I)

/-- What is left of a call. -/
def Thread.rest : Thread I α → Async I α
  | .ready p => p
  | .waiting request k => .await request k
  | .finished result => .done result

namespace Async

/-- After the requests and answers of the log, this is left of the call. -/
inductive Follows : Async I α → List (Exchange I) → Async I α → Prop
  | refl (p : Async I α) : Follows p [] p
  | read {k : I.State → Async I α} {log : List (Exchange I)} {q : Async I α}
      (s : I.State) (h : Follows (k s) log q) : Follows (.read k) log q
  | write {f : I.State → I.State} {p : Async I α} {log : List (Exchange I)} {q : Async I α}
      (h : Follows p log q) : Follows (.write f p) log q
  | await {request : I.Request} {k : Except I.Error (I.Answer request) → Async I α}
      {log : List (Exchange I)} {q : Async I α} (answer : Except I.Error (I.Answer request))
      (h : Follows (k answer) log q) : Follows (.await request k) (⟨request, answer⟩ :: log) q

namespace Follows

variable {p q r : Async I α} {log log' : List (Exchange I)}

theorem append (h : p.Follows log q) (h' : q.Follows log' r) : p.Follows (log ++ log') r := by
  induction h with
  | refl p => exact h'
  | read s _ ih => exact .read s (ih h')
  | write _ ih => exact .write (ih h')
  | await answer _ ih => exact .await answer (ih h')

theorem append_runs {result : Except I.Error α} (h : p.Follows log q) (h' : q.Runs log' result) :
    p.Runs (log ++ log') result := by
  induction h with
  | refl p => exact h'
  | read s _ ih => exact .read s (ih h')
  | write _ ih => exact .write (ih h')
  | await answer _ ih => exact .await answer (ih h')

theorem advance (p : Async I α) (s : I.State) : p.Follows [] (p.advance s).2.rest := by
  induction p generalizing s with
  | done result => exact .refl _
  | read k ih => exact .read s (ih s s)
  | write f p ih => exact .write (ih (f s))
  | await request k ih => exact .refl _

theorem asks {request : I.Request} {k : Except I.Error (I.Answer request) → Async I α}
    (h : p.Follows log (.await request k)) : p.Asks log request := by
  generalize hq : Async.await request k = q at h
  induction h with
  | refl p =>
      cases hq
      exact .here request k
  | read s _ ih => exact .read s (ih hq)
  | write _ ih => exact .write (ih hq)
  | await answer _ ih => exact .await answer (ih hq)

theorem runs {result : Except I.Error α} (h : p.Follows log (.done result)) :
    p.Runs log result := by
  generalize hq : Async.done result = q at h
  induction h with
  | refl p =>
      cases hq
      exact .done result
  | read s _ ih => exact .read s (ih hq)
  | write _ ih => exact .write (ih hq)
  | await answer _ ih => exact .await answer (ih hq)

/-- A call goes through the first part of a sequence, or through all of it and on. -/
theorem of_andThen {p : Async I β} {next : Except I.Error β → Async I α}
    (h : (p.andThen next).Follows log q) :
    (∃ p', p.Follows log p' ∧ q = p'.andThen next) ∨
      ∃ first rest mid, log = first ++ rest ∧ p.Runs first mid ∧ (next mid).Follows rest q := by
  induction p generalizing log with
  | done mid => exact .inr ⟨[], log, mid, rfl, .done mid, h⟩
  | read k ih =>
      cases h with
      | refl => exact .inl ⟨_, .refl _, rfl⟩
      | read s h =>
          obtain ⟨p', hp', hq⟩ | ⟨first, rest, mid, hlog, hfirst, hrest⟩ := ih s h
          · exact .inl ⟨p', .read s hp', hq⟩
          · exact .inr ⟨first, rest, mid, hlog, .read s hfirst, hrest⟩
  | write f p ih =>
      cases h with
      | refl => exact .inl ⟨_, .refl _, rfl⟩
      | write h =>
          obtain ⟨p', hp', hq⟩ | ⟨first, rest, mid, hlog, hfirst, hrest⟩ := ih h
          · exact .inl ⟨p', .write hp', hq⟩
          · exact .inr ⟨first, rest, mid, hlog, .write hfirst, hrest⟩
  | await request k ih =>
      cases h with
      | refl => exact .inl ⟨_, .refl _, rfl⟩
      | await answer h =>
          obtain ⟨p', hp', hq⟩ | ⟨first, rest, mid, rfl, hfirst, hrest⟩ := ih answer h
          · exact .inl ⟨p', .await answer hp', hq⟩
          · exact .inr ⟨_ :: first, rest, mid, rfl, .await answer hfirst, hrest⟩

end Follows

/-- Any call can end, if only because its requests fail. -/
theorem exists_runs (p : Async I α) (s : I.State) (e : I.Error) :
    ∃ log result, p.Runs log result := by
  induction p with
  | done result => exact ⟨[], result, .done result⟩
  | read k ih =>
      obtain ⟨log, result, h⟩ := ih s
      exact ⟨log, result, .read s h⟩
  | write f p ih =>
      obtain ⟨log, result, h⟩ := ih
      exact ⟨log, result, .write h⟩
  | await request k ih =>
      obtain ⟨log, result, h⟩ := ih (.error e)
      exact ⟨_, result, .await (.error e) h⟩

/-- Given `n`, the code spends at each request no more than it has been given by then, and
ends so. It reads and writes the shared state by requests alone. -/
def Affords (cost gain : Exchange I → ℕ) (ends : Except I.Error α → ℕ → Prop) :
    Async I α → ℕ → Prop
  | .done result, n => ends result n
  | .read _, _ => False
  | .write _ _, _ => False
  | .await request k, n => ∀ answer,
      cost ⟨request, answer⟩ ≤ n + gain ⟨request, answer⟩ ∧
        Affords cost gain ends (k answer) (n + gain ⟨request, answer⟩ - cost ⟨request, answer⟩)

section Affords

variable {cost gain : Exchange I → ℕ} {ends ends' : Except I.Error α → ℕ → Prop} {n m : ℕ}

theorem Affords.mono {p : Async I α} (h : p.Affords cost gain ends n) (hn : n ≤ m)
    (hends : ∀ result n m, ends result n → n ≤ m → ends' result m) :
    p.Affords cost gain ends' m := by
  induction p generalizing n m with
  | done result => exact hends result n m h hn
  | read k ih => exact h
  | write f p ih => exact h
  | await request k ih =>
      intro answer
      obtain ⟨hcost, hrest⟩ := h answer
      exact ⟨by omega, ih answer hrest (by omega)⟩

theorem Affords.andThen {p : Async I β} {next : Except I.Error β → Async I α}
    (h : p.Affords cost gain (fun result m => (next result).Affords cost gain ends m) n) :
    (p.andThen next).Affords cost gain ends n := by
  induction p generalizing n with
  | done result => exact h
  | read k ih => exact h
  | write f p ih => exact h
  | await request k ih =>
      intro answer
      obtain ⟨hcost, hrest⟩ := h answer
      exact ⟨hcost, ih answer hrest⟩

/-- So much is left at least, of code that returned and of code that threw. -/
def Leaves (returned thrown : ℕ) : Except I.Error α → ℕ → Prop
  | .ok _, n => returned ≤ n
  | .error _, n => thrown ≤ n

variable {returned thrown returned' thrown' : ℕ}

theorem Leaves.mono {result : Except I.Error α} (h : Leaves returned thrown result n)
    (hreturned : returned' ≤ returned) (hthrown : thrown' ≤ thrown) (hn : n ≤ m) :
    Leaves returned' thrown' result m := by
  cases result with
  | ok a => exact hreturned.trans (le_trans h hn)
  | error e => exact hthrown.trans (le_trans h hn)

/-- Given more, code that leaves less. -/
theorem Affords.weaken {p : Async I α} (h : p.Affords cost gain (Leaves returned thrown) n)
    (hn : n ≤ m) (hreturned : returned' ≤ returned) (hthrown : thrown' ≤ thrown) :
    p.Affords cost gain (Leaves returned' thrown') m :=
  h.mono hn fun _ _ _ h' => h'.mono hreturned hthrown

theorem Affords.bind {p : Async I β} {next : β → Async I α}
    (h : p.Affords cost gain (Leaves m thrown) n)
    (hnext : ∀ b, (next b).Affords cost gain (Leaves returned thrown) m) :
    (p >>= next).Affords cost gain (Leaves returned thrown) n := by
  refine Affords.andThen (h.mono le_rfl ?_)
  intro result k k' hk hk'
  cases result with
  | ok b => exact (hnext b).weaken (le_trans hk hk') le_rfl le_rfl
  | error e => exact le_trans hk hk'

theorem Affords.tryCatch {p : Async I α} {handler : I.Error → Async I α}
    (h : p.Affords cost gain (Leaves returned m) n)
    (hhandler : ∀ e, (handler e).Affords cost gain (Leaves returned thrown) m) :
    (MonadExcept.tryCatch p handler).Affords cost gain (Leaves returned thrown) n := by
  refine Affords.andThen (h.mono le_rfl ?_)
  intro result k k' hk hk'
  cases result with
  | ok a => exact le_trans hk hk'
  | error e => exact (hhandler e).weaken (le_trans hk hk') le_rfl le_rfl

/-- What a call comes to, as a value. -/
theorem Affords.outcome {p : Async I α} (h : p.Affords cost gain (Leaves m m) n) :
    p.outcome.Affords cost gain (Leaves m thrown) n := by
  refine Affords.andThen (h.mono le_rfl ?_)
  intro result k k' hk hk'
  cases result with
  | ok a => exact le_trans hk hk'
  | error e => exact le_trans hk hk'

theorem affords_ofExcept {result : Except I.Error α} (hreturned : returned ≤ n)
    (hthrown : thrown ≤ n) : (ofExcept result).Affords cost gain (Leaves returned thrown) n := by
  cases result with
  | ok a => exact hreturned
  | error e => exact hthrown

theorem affords_pure {a : α} (h : returned ≤ n) :
    (pure a : Async I α).Affords cost gain (Leaves returned thrown) n := h

theorem affords_throw {e : I.Error} (h : thrown ≤ n) :
    (throw e : Async I α).Affords cost gain (Leaves returned thrown) n := h

theorem affords_ask {request : I.Request}
    (hreturned : ∀ a, cost ⟨request, .ok a⟩ + returned ≤ n + gain ⟨request, .ok a⟩)
    (hthrown : ∀ e, cost ⟨request, .error e⟩ + thrown ≤ n + gain ⟨request, .error e⟩) :
    (ask request).Affords cost gain (Leaves returned thrown) n := by
  intro answer
  cases answer with
  | ok a =>
      have ha := hreturned a
      exact ⟨by omega, show returned ≤ _ by omega⟩
  | error e =>
      have he := hthrown e
      exact ⟨by omega, show thrown ≤ _ by omega⟩

/-- A request that costs nothing. -/
theorem affords_free {request : I.Request} (h : ∀ answer, cost ⟨request, answer⟩ = 0) :
    (ask request).Affords cost gain (Leaves n n) n :=
  affords_ask (fun a => by rw [h]; omega) fun e => by rw [h]; omega

/-- A request whose answer decides what was given. -/
theorem Affords.ask_bind {request : I.Request} {next : I.Answer request → Async I α}
    (hcost : ∀ answer, cost ⟨request, answer⟩ = 0)
    (hnext : ∀ a, (next a).Affords cost gain (Leaves returned thrown)
      (n + gain ⟨request, .ok a⟩))
    (hthrown : thrown ≤ n) :
    (ask request >>= next).Affords cost gain (Leaves returned thrown) n := by
  intro answer
  refine ⟨by rw [hcost]; exact Nat.zero_le _, ?_⟩
  rw [hcost, Nat.sub_zero]
  cases answer with
  | ok a => exact hnext a
  | error e => exact le_trans hthrown (Nat.le_add_right _ _)

/-- What a conversation cost. -/
def total (f : Exchange I → ℕ) (log : List (Exchange I)) : ℕ := (log.map f).sum

@[simp] theorem total_nil (f : Exchange I → ℕ) : total f [] = 0 := rfl

@[simp] theorem total_cons (f : Exchange I → ℕ) (exchange : Exchange I)
    (log : List (Exchange I)) : total f (exchange :: log) = f exchange + total f log := by
  simp [total]

/-- The code keeps within what it has been given, as far as it has come. -/
theorem Affords.follows {p q : Async I α} {log : List (Exchange I)}
    (h : p.Affords cost gain ends n) (hfollows : p.Follows log q) :
    total cost log ≤ n + total gain log ∧
      q.Affords cost gain ends (n + total gain log - total cost log) := by
  induction hfollows generalizing n with
  | refl p => simpa using h
  | read _ _ => exact h.elim
  | write _ _ => exact h.elim
  | @await request k log q answer _ ih =>
      obtain ⟨hcost, hrest⟩ := h answer
      obtain ⟨hlog, hleft⟩ := ih hrest
      rw [total_cons, total_cons]
      refine ⟨by omega, ?_⟩
      rwa [show n + (gain ⟨request, answer⟩ + total gain log) -
          (cost ⟨request, answer⟩ + total cost log) =
        n + gain ⟨request, answer⟩ - cost ⟨request, answer⟩ + total gain log -
          total cost log by omega]

/-- What code cannot afford it does not ask. -/
theorem Affords.asks {p : Async I α} {log : List (Exchange I)} {request : I.Request}
    (h : p.Affords cost gain ends n) (hasks : p.Asks log request)
    (answer : Except I.Error (I.Answer request)) :
    total cost log + cost ⟨request, answer⟩ ≤ n + total gain log + gain ⟨request, answer⟩ := by
  induction hasks generalizing n with
  | here request k =>
      have hcost := (h answer).1
      rw [total_nil, total_nil]
      omega
  | read _ _ => exact h.elim
  | write _ _ => exact h.elim
  | @await earlier k log request answer' _ ih =>
      obtain ⟨hcost, hrest⟩ := h answer'
      have hlater := ih hrest answer
      rw [total_cons, total_cons]
      omega

/-- The answers decide how far such code goes and what it comes to. -/
theorem Affords.runs_unique {p : Async I α} {first first' rest rest' : List (Exchange I)}
    {result result' : Except I.Error α} (h : p.Affords cost gain ends n)
    (hruns : p.Runs first result) (hruns' : p.Runs first' result')
    (hlog : first ++ rest = first' ++ rest') : result = result' := by
  induction hruns generalizing n first' with
  | done result =>
      cases hruns'
      rfl
  | read _ _ => exact h.elim
  | write _ _ => exact h.elim
  | await answer _ ih =>
      cases hruns' with
      | await answer' hruns' =>
          obtain ⟨hsame, hrest⟩ := List.cons.inj hlog
          cases hsame
          exact ih (h answer).2 hruns' hrest

/-- Code that writes nothing leaves the state as it is up to its next request. -/
theorem Affords.advance {p : Async I α} (h : p.Affords cost gain ends n) (s : I.State) :
    (p.advance s).1 = s := by
  induction p generalizing s with
  | done result => rfl
  | read k ih => exact h.elim
  | write f p ih => exact h.elim
  | await request k ih => rfl

end Affords

end Async

namespace Program

/-- From one configuration the run comes to another, having served these requests. -/
inductive Records (program : Program I ι α) (config : Config I ι α) :
    History I ι → Config I ι α → Prop
  | refl : Records program config [] config
  | call {history : History I ι} {config' config'' : Config I ι α} {c : ι} :
      Records program config history config' → config'.calls c = none →
      config'.Moves c config'.state ⟨config'.state, .ready (program.code c)⟩ config'' →
      Records program config history config''
  | run {history : History I ι} {config' config'' : Config I ι α} {c : ι} {born : I.State}
      {p : Async I α} :
      Records program config history config' → config'.calls c = some ⟨born, .ready p⟩ →
      config'.Moves c (p.advance config'.state).1 ⟨born, (p.advance config'.state).2⟩ config'' →
      Records program config history config''
  | serve {history : History I ι} {config' config'' : Config I ι α} {c : ι} {born : I.State}
      {request : I.Request} {k : Except I.Error (I.Answer request) → Async I α}
      {answer : Except I.Error (I.Answer request)} {s' : I.State} :
      Records program config history config' →
      config'.calls c = some ⟨born, .waiting request k⟩ →
      program.serves c request config'.state answer s' →
      config'.Moves c s' ⟨born, .ready (k answer)⟩ config'' →
      Records program config (history ++ [(c, ⟨request, answer⟩)]) config''
  | act {history : History I ι} {config' : Config I ι α} {s' : I.State} :
      Records program config history config' → program.environment config'.state s' →
      Records program config history ⟨s', config'.calls⟩

variable {program : Program I ι α} {config config' : Config I ι α} {history : History I ι}

/-- What a run goes on to do comes after its history. -/
theorem Records.reaches {config'' : Config I ι α} (h : program.Records config history config')
    (hreaches : program.Reaches config' config'') :
    ∃ later, program.Records config (history ++ later) config'' := by
  induction hreaches with
  | refl => exact ⟨[], (List.append_nil history).symm ▸ h⟩
  | step _ hstep ih =>
      obtain ⟨later, hrecords⟩ := ih
      cases hstep with
      | call hnone hmoves => exact ⟨_, .call hrecords hnone hmoves⟩
      | run hready hmoves => exact ⟨_, .run hrecords hready hmoves⟩
      | serve hwaiting hserves hmoves =>
          have hserved := hrecords.serve hwaiting hserves hmoves
          rw [List.append_assoc] at hserved
          exact ⟨_, hserved⟩
      | act hact => exact ⟨_, .act hrecords hact⟩

/-- Every run has a history. -/
theorem Reaches.records (h : program.Reaches config config') :
    ∃ history, program.Records config history config' :=
  Records.refl.reaches h

/-- The program whose requests are served by such exchanges only. -/
def serving (program : Program I ι α) (served : ι → Exchange I → Prop) : Program I ι α where
  code := program.code
  serves c request s answer s' := program.serves c request s answer s' ∧ served c ⟨request, answer⟩
  environment := program.environment

/-- A run is one of the program that serves what its history holds. -/
theorem Records.serving {served : ι → Exchange I → Prop}
    (h : program.Records config history config')
    (hserved : ∀ entry ∈ history, served entry.1 entry.2) :
    (program.serving served).Reaches config config' := by
  induction h with
  | refl => exact .refl _
  | call _ hnone hmoves ih => exact .step (ih hserved) (.call hnone hmoves)
  | run _ hready hmoves ih => exact .step (ih hserved) (.run hready hmoves)
  | serve _ hwaiting hserves hmoves ih =>
      have hlast := hserved _ (List.mem_append_right _ (List.mem_singleton_self _))
      exact .step (ih fun entry hentry => hserved entry (List.mem_append_left _ hentry))
        (.serve hwaiting ⟨hserves, hlast⟩ hmoves)
  | act _ hact ih => exact .step (ih hserved) (.act hact)

end Program

/-- How requests are answered, and what becomes of the state. -/
abbrev Server (I : Setting) :=
  (request : I.Request) → I.State → Except I.Error (I.Answer request) × I.State

/-- A call on its own, from a state: its conversation, and the state it leaves. -/
def Async.play (server : Server I) : Async I α → I.State → List (Exchange I) × I.State
  | .done _, s => ([], s)
  | .read k, s => (k s).play server s
  | .write f p, s => p.play server (f s)
  | .await request k, s =>
    let served := server request s
    let rest := (k served.1).play server served.2
    (⟨request, served.1⟩ :: rest.1, rest.2)

section Play

variable {program : Program I ι α} {config config' : Config I ι α} {history : History I ι}
  {server : Server I} {c : ι}

/-- A call that has run to its next request goes on to its end. -/
theorem Program.Records.playOn {born s : I.State}
    (hserver : ∀ request s, program.serves c request s (server request s).1 (server request s).2)
    (p : Async I α) (h : program.Records config history config')
    (hstate : config'.state = (p.advance s).1)
    (hcall : config'.calls c = some ⟨born, (p.advance s).2⟩) :
    ∃ config'', program.Records config (history ++ (p.play server s).1.map fun exchange =>
        (c, exchange)) config'' ∧ config''.state = (p.play server s).2 ∧
      ∀ other, other ≠ c → config''.calls other = config'.calls other := by
  induction p generalizing s history config' with
  | done result => exact ⟨config', by simpa [Async.play] using h, hstate, fun _ _ => rfl⟩
  | read k ih => exact ih s h hstate hcall
  | write f p ih => exact ih h hstate hcall
  | await request k ih =>
      obtain ⟨served, hserved⟩ := config'.exists_moves c (server request s).2
        ⟨born, .ready (k (server request s).1)⟩
      obtain ⟨ran, hran⟩ := served.exists_moves c ((k (server request s).1).advance served.state).1
        ⟨born, ((k (server request s).1).advance served.state).2⟩
      have hserve : program.serves c request config'.state (server request s).1
          (server request s).2 := by
        rw [hstate]
        exact hserver request s
      have hrecords := (h.serve hcall hserve hserved).run hserved.moved hran
      rw [hserved.state] at hran
      obtain ⟨config'', hplayed, hend, hothers⟩ :=
        ih (server request s).1 hrecords hran.state hran.moved
      refine ⟨config'', ?_, hend, ?_⟩
      · simpa [Async.play] using hplayed
      · intro other hother
        rw [hothers other hother, hran.others other hother, hserved.others other hother]

/-- A call is made and comes to its end before any other goes on. -/
theorem Program.Records.play
    (hserver : ∀ request s, program.serves c request s (server request s).1 (server request s).2)
    (h : program.Records config history config') (hnone : config'.calls c = none) :
    ∃ config'', program.Records config
        (history ++ ((program.code c).play server config'.state).1.map fun exchange =>
          (c, exchange)) config'' ∧
      config''.state = ((program.code c).play server config'.state).2 ∧
      ∀ other, other ≠ c → config''.calls other = config'.calls other := by
  obtain ⟨made, hmade⟩ :=
    config'.exists_moves c config'.state ⟨config'.state, .ready (program.code c)⟩
  obtain ⟨ran, hran⟩ := made.exists_moves c ((program.code c).advance made.state).1
    ⟨config'.state, ((program.code c).advance made.state).2⟩
  have hrecords := (h.call hnone hmade).run hmade.moved hran
  rw [hmade.state] at hran
  obtain ⟨config'', hplayed, hend, hothers⟩ := hrecords.playOn hserver _ hran.state hran.moved
  refine ⟨config'', hplayed, hend, ?_⟩
  intro other hother
  rw [hothers other hother, hran.others other hother, hmade.others other hother]

end Play

section Histories

variable [DecidableEq ι]

/-- What one call made of a history. -/
def History.of (history : History I ι) (c : ι) : List (Exchange I) :=
  (history.filter fun entry => entry.1 = c).map Prod.snd

theorem History.of_append (history history' : History I ι) (c : ι) :
    History.of (history ++ history') c = history.of c ++ History.of history' c := by
  simp [History.of]

theorem History.of_single (c c' : ι) (exchange : Exchange I) :
    History.of [(c, exchange)] c' = if c = c' then [exchange] else [] := by
  by_cases h : c = c'
  · simp [History.of, h]
  · simp [History.of, h]

theorem History.mem_of {history : History I ι} {c : ι} {exchange : Exchange I} :
    exchange ∈ history.of c ↔ (c, exchange) ∈ history := by
  simp [History.of]

/-- A call has come as far as its part of the history. -/
def Activation.CameFrom (code : Async I α) (log : List (Exchange I)) :
    Option (Activation I α) → Prop
  | none => log = []
  | some activation => code.Follows log activation.thread.rest

variable {program : Program I ι α} {config config' : Config I ι α} {history : History I ι}
  {s : I.State}

/-- What one call makes of a history is a conversation of its code. -/
theorem Program.Records.cameFrom (h : program.Records (Program.initial s) history config)
    (c : ι) : Activation.CameFrom (program.code c) (history.of c) (config.calls c) := by
  induction h with
  | refl => exact rfl
  | @call history config' config'' moved _ hnone hmoves ih =>
      by_cases hc : c = moved
      · subst hc
        rw [hnone] at ih
        rw [hmoves.moved, Activation.CameFrom, show history.of c = [] from ih]
        exact .refl _
      · rwa [hmoves.others c hc]
  | @run history config' config'' moved born p _ hready hmoves ih =>
      by_cases hc : c = moved
      · subst hc
        rw [hready] at ih
        rw [hmoves.moved, Activation.CameFrom]
        simpa using Async.Follows.append ih (Async.Follows.advance p config'.state)
      · rwa [hmoves.others c hc]
  | @serve history config' config'' moved born request k answer s' _ hwaiting _ hmoves ih =>
      rw [History.of_append, History.of_single]
      by_cases hc : c = moved
      · subst hc
        rw [hwaiting] at ih
        rw [hmoves.moved, Activation.CameFrom, if_pos rfl]
        exact Async.Follows.append ih (.await answer (.refl _))
      · rw [if_neg (Ne.symm hc), List.append_nil, hmoves.others c hc]
        exact ih
  | act _ _ ih => exact ih

/-- What a call has asked so far begins one of its conversations, and is all of it once the call
has ended. -/
theorem Program.Records.exists_runs (h : program.Records (Program.initial s) history config)
    (c : ι) (e : I.Error) : ∃ later answer, (program.code c).Runs (history.of c ++ later) answer ∧
      ∀ born result, config.calls c = some ⟨born, .finished result⟩ →
        later = [] ∧ result = answer := by
  have hcame := h.cameFrom c
  cases hcall : config.calls c with
  | none =>
      rw [hcall] at hcame
      obtain ⟨later, answer, hruns⟩ := (program.code c).exists_runs s e
      rw [show history.of c = [] from hcame]
      exact ⟨later, answer, hruns, nofun⟩
  | some activation =>
      rw [hcall] at hcame
      obtain ⟨later, answer, hruns⟩ := activation.thread.rest.exists_runs s e
      refine ⟨later, answer, Async.Follows.append_runs hcame hruns, ?_⟩
      rintro born result ⟨⟩
      obtain ⟨rfl, rfl⟩ := Async.runs_done.mp hruns
      exact ⟨rfl, rfl⟩

/-- Each request of a history was asked by the code of its call after what came before. -/
theorem Program.Records.asks (h : program.Records (Program.initial s) history config)
    {before after : History I ι} {c : ι} {exchange : Exchange I}
    (hhistory : history = before ++ (c, exchange) :: after) :
    (program.code c).Asks (before.of c) exchange.request := by
  induction h generalizing after with
  | refl => simp at hhistory
  | call _ _ _ ih => exact ih hhistory
  | run _ _ _ ih => exact ih hhistory
  | @serve history config' config'' moved born request k answer s' hrecords hwaiting _ _ ih =>
      obtain rfl | ⟨after', last, rfl⟩ := after.eq_nil_or_concat
      · rw [List.append_cons, List.append_nil] at hhistory
        obtain ⟨rfl, hlast⟩ := List.append_inj' hhistory rfl
        obtain ⟨rfl, rfl⟩ := Prod.mk.inj (List.singleton_inj.mp hlast)
        have hcame := hrecords.cameFrom moved
        rw [hwaiting] at hcame
        exact Async.Follows.asks hcame
      · rw [List.concat_eq_append, ← List.cons_append, ← List.append_assoc] at hhistory
        exact ih (List.append_inj' hhistory rfl).1
  | act _ _ ih => exact ih hhistory

/-- What a history cost. -/
def History.total (f : Exchange I → ℕ) (history : History I ι) : ℕ :=
  (history.map fun entry => f entry.2).sum

omit [DecidableEq ι] in
@[simp] theorem History.total_nil (f : Exchange I → ℕ) : History.total f ([] : History I ι) = 0 :=
  rfl

omit [DecidableEq ι] in
@[simp] theorem History.total_append (f : Exchange I → ℕ) (history history' : History I ι) :
    History.total f (history ++ history') = history.total f + History.total f history' := by
  simp [History.total]

omit [DecidableEq ι] in
@[simp] theorem History.total_single (f : Exchange I → ℕ) (c : ι) (exchange : Exchange I) :
    History.total f [(c, exchange)] = f exchange := by
  simp [History.total]

omit [DecidableEq ι] in
theorem History.total_ite (p : Exchange I → Bool) (history : History I ι) :
    (history.total fun exchange => if p exchange then 1 else 0) =
      history.countP fun entry => p entry.2 := by
  induction history with
  | nil => rfl
  | cons entry rest ih =>
      rw [List.countP_cons, ← ih, Nat.add_comm]
      exact List.sum_cons

/-- One call's part of the cost and the others'. -/
theorem History.total_split (f : Exchange I → ℕ) (history : History I ι) (c : ι) :
    history.total f = Async.total f (history.of c) +
      History.total f (history.filter fun entry => !decide (entry.1 = c)) := by
  have hperm := List.filter_append_perm (fun entry : ι × Exchange I => decide (entry.1 = c)) history
  have hsum := (hperm.map fun entry => f entry.2).sum_eq
  rw [List.map_append, List.sum_append] at hsum
  rw [History.total, ← hsum, Async.total, History.of, List.map_map, History.total]
  rfl

theorem History.of_others (history : History I ι) {c other : ι} (h : other ≠ c) :
    History.of (history.filter fun entry => !decide (entry.1 = c)) other = history.of other := by
  rw [History.of, History.of, List.filter_filter]
  congr 1
  refine List.filter_congr ?_
  intro entry _
  by_cases hentry : entry.1 = other
  · simp [hentry, h]
  · simp [hentry]

/-- Where each call keeps within what it has been given, all calls do. -/
theorem History.total_le {cost gain : Exchange I → ℕ} {history : History I ι} {given : ι → ℕ}
    {first : ι} (hothers : ∀ c, c ≠ first → given c = 0)
    (h : ∀ c, Async.total cost (history.of c) ≤ given c + Async.total gain (history.of c)) :
    history.total cost ≤ given first + history.total gain := by
  suffices hnone : ∀ (n : ℕ) (history : History I ι), history.length ≤ n →
      (∀ c, Async.total cost (history.of c) ≤ Async.total gain (history.of c)) →
      history.total cost ≤ history.total gain by
    have hrest := hnone _ (history.filter fun entry => !decide (entry.1 = first)) le_rfl ?_
    · have hfirst := h first
      rw [history.total_split cost first, history.total_split gain first]
      omega
    · intro c
      by_cases hc : c = first
      · subst hc
        simp [History.of, List.filter_filter]
      · rw [History.of_others history hc]
        simpa [hothers c hc] using h c
  -- the calls of a history one after the other, each with all it made
  intro n
  induction n with
  | zero =>
      intro history hlength _
      rw [List.length_eq_zero_iff.mp (Nat.le_zero.mp hlength)]
      exact le_rfl
  | succ n ih =>
      intro history hlength hcalls
      cases history with
      | nil => exact le_rfl
      | cons entry rest =>
          rw [History.total_split cost _ entry.1, History.total_split gain _ entry.1]
          refine Nat.add_le_add (hcalls entry.1) (ih _ ?_ ?_)
          · rw [List.filter_cons_of_neg (by simp)]
            exact (List.length_filter_le _ _).trans (Nat.le_of_succ_le_succ hlength)
          · intro c
            by_cases hc : c = entry.1
            · subst hc
              simp [History.of, List.filter_filter]
            · rw [History.of_others _ hc]
              exact hcalls c

/-- In every run all calls together keep within what they have been given. -/
theorem Program.Records.total_le {cost gain : Exchange I → ℕ} {given : ι → ℕ} {first : ι}
    (h : program.Records (Program.initial s) history config)
    (hcode : ∀ c, (program.code c).Affords cost gain (Async.Leaves 0 0) (given c))
    (hothers : ∀ c, c ≠ first → given c = 0) :
    history.total cost ≤ given first + history.total gain := by
  refine History.total_le hothers ?_
  intro c
  have hcame := h.cameFrom c
  revert hcame
  cases config.calls c with
  | none =>
      intro hnone
      rw [show history.of c = [] from hnone]
      exact Nat.zero_le _
  | some activation =>
      intro hcame
      exact ((hcode c).follows hcame).1

/-- What each served request keeps, of code that writes nothing itself. -/
theorem Program.Records.invariant {Inv : I.State → History I ι → Prop}
    {cost gain : Exchange I → ℕ} {given : ι → ℕ}
    (h : program.Records (Program.initial s) history config)
    (hcode : ∀ c, (program.code c).Affords cost gain (Async.Leaves 0 0) (given c))
    (hinitial : Inv s [])
    (hserves : ∀ c request s answer s' history, Inv s history →
      program.serves c request s answer s' → Inv s' (history ++ [(c, ⟨request, answer⟩)]))
    (henvironment : ∀ s s' history, Inv s history → program.environment s s' → Inv s' history) :
    Inv config.state history := by
  induction h with
  | refl => exact hinitial
  | call _ _ hmoves ih =>
      rw [hmoves.state]
      exact ih
  | @run history config' config'' c born p hrecords hready hmoves ih =>
      have hcame := hrecords.cameFrom c
      rw [hready] at hcame
      have hsame := ((hcode c).follows hcame).2.advance config'.state
      rw [hmoves.state]
      exact hsame.symm ▸ ih
  | serve _ _ hserved hmoves ih =>
      rw [hmoves.state]
      exact hserves _ _ _ _ _ _ ih hserved
  | act _ hact ih => exact henvironment _ _ _ ih hact

end Histories

end Concurrency
