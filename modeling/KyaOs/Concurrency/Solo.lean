import KyaOs.Concurrency.Async

/-!
# A call on its own

`Leads` is what one call does where nobody interferes: from a state it comes to another,
finished or waiting for an answer. It is a run of the program; a contract speaks of it,
since a call that nobody disturbs may rely on anything. A call that is only left a fact it
relies on ends as its contract says, in every run; and it ends in one if its requests are
served.
-/

namespace Concurrency

variable {I : Setting} {ι α β γ : Type}

namespace Async

/-- How requests are answered to one call. -/
abbrev Serving (I : Setting) : Type :=
  (request : I.Request) → I.State → Except I.Error (I.Answer request) → I.State → Prop

/-- Where a call comes to when it runs alone. -/
inductive Leads (serves : Serving I) : Async I α → I.State → I.State → Thread I α → Prop
  | done {result : Except I.Error α} {s : I.State} :
      Leads serves (.done result) s s (.finished result)
  | read {k : I.State → Async I α} {s s' : I.State} {thread : Thread I α} :
      Leads serves (k s) s s' thread → Leads serves (.read k) s s' thread
  | write {f : I.State → I.State} {p : Async I α} {s s' : I.State} {thread : Thread I α} :
      Leads serves p (f s) s' thread → Leads serves (.write f p) s s' thread
  | waits {request : I.Request} {k : Except I.Error (I.Answer request) → Async I α} {s : I.State} :
      Leads serves (.await request k) s s (.waiting request k)
  | served {request : I.Request} {k : Except I.Error (I.Answer request) → Async I α}
      {answer : Except I.Error (I.Answer request)} {s s' s'' : I.State} {thread : Thread I α} :
      serves request s answer s' → Leads serves (k answer) s' s'' thread →
      Leads serves (.await request k) s s'' thread

namespace Leads

variable {serves : Serving I} {s s' s'' : I.State}

theorem andThen {p : Async I α} {next : Except I.Error α → Async I β}
    {result : Except I.Error α} {thread : Thread I β} (h : p.Leads serves s s' (.finished result))
    (hnext : (next result).Leads serves s' s'' thread) :
    (p.andThen next).Leads serves s s'' thread := by
  generalize hfinished : Thread.finished result = finished at h
  induction h with
  | done =>
      cases hfinished
      exact hnext
  | read _ ih => exact .read (ih hnext hfinished)
  | write _ ih => exact .write (ih hnext hfinished)
  | waits => cases hfinished
  | served hserves _ ih => exact .served hserves (ih hnext hfinished)

theorem andThen_waiting {p : Async I α} {next : Except I.Error α → Async I β}
    {request : I.Request} {k : Except I.Error (I.Answer request) → Async I α}
    (h : p.Leads serves s s' (.waiting request k)) :
    (p.andThen next).Leads serves s s' (.waiting request fun answer =>
      (k answer).andThen next) := by
  generalize hwaiting : Thread.waiting request k = waiting at h
  induction h with
  | done => cases hwaiting
  | read _ ih => exact .read (ih hwaiting)
  | write _ ih => exact .write (ih hwaiting)
  | waits =>
      cases hwaiting
      exact .waits
  | served hserves _ ih => exact .served hserves (ih hwaiting)

theorem bind {p : Async I α} {next : α → Async I β} {a : α} {thread : Thread I β}
    (h : p.Leads serves s s' (.finished (.ok a))) (hnext : (next a).Leads serves s' s'' thread) :
    (p >>= next).Leads serves s s'' thread :=
  andThen h hnext

theorem bind_error {p : Async I α} {next : α → Async I β} {e : I.Error}
    (h : p.Leads serves s s' (.finished (.error e))) :
    (p >>= next).Leads serves s s' (.finished (.error e)) :=
  andThen h .done

theorem ask {request : I.Request} {answer : Except I.Error (I.Answer request)}
    (h : serves request s answer s') : (Async.ask request).Leads serves s s' (.finished answer) :=
  .served h .done

/-- An answered request, and the rest. -/
theorem ask_bind {request : I.Request} {next : I.Answer request → Async I α}
    {answer : I.Answer request} {thread : Thread I α} (h : serves request s (.ok answer) s')
    (hnext : (next answer).Leads serves s' s'' thread) :
    (Async.ask request >>= next).Leads serves s s'' thread :=
  bind (ask h) hnext

theorem ofExcept {result : Except I.Error α} :
    (Async.ofExcept result).Leads serves s s (.finished result) :=
  .done

theorem check {result : Except I.Error α} {a : α} {next : α → Async I β} {thread : Thread I β}
    (h : result = .ok a) (hnext : (next a).Leads serves s s' thread) :
    (Async.ofExcept result >>= next).Leads serves s s' thread :=
  h ▸ bind .done hnext

theorem state {next : I.State → Async I α} {thread : Thread I α}
    (h : (next s).Leads serves s s' thread) :
    (Async.state >>= next).Leads serves s s' thread :=
  .read h

theorem update {f : I.State → I.State} {next : Unit → Async I α} {thread : Thread I α}
    (h : (next ()).Leads serves (f s) s' thread) :
    (Async.update f >>= next).Leads serves s s' thread :=
  .write h

theorem tryCatch_ok {p : Async I α} {handler : I.Error → Async I α} {a : α}
    (h : p.Leads serves s s' (.finished (.ok a))) :
    (tryCatch p handler).Leads serves s s' (.finished (.ok a)) :=
  andThen h .done

theorem tryCatch_error {p : Async I α} {handler : I.Error → Async I α} {e : I.Error}
    {thread : Thread I α} (h : p.Leads serves s s' (.finished (.error e)))
    (hhandler : (handler e).Leads serves s' s'' thread) :
    (tryCatch p handler).Leads serves s s'' thread :=
  andThen h hhandler

theorem finally_ {p : Async I α} {cleanup : I.State → I.State} {result : Except I.Error α}
    (h : p.Leads serves s s' (.finished result)) :
    (p.finally_ cleanup).Leads serves s (cleanup s') (.finished result) :=
  andThen h (.write .done)

/-- A call alone up to a request, and alone again from its answer on. -/
def Pauses (serves : Serving I) (p : Async I α) (s mid : I.State) (request : I.Request)
    (answer : Except I.Error (I.Answer request)) (resumed s' : I.State) (thread : Thread I α) :
    Prop :=
  ∃ k, p.Leads serves s mid (.waiting request k) ∧ (k answer).Leads serves resumed s' thread

section Pauses

variable {request : I.Request} {answer : Except I.Error (I.Answer request)}
  {mid resumed : I.State}

theorem Pauses.ask : Pauses serves (Async.ask request) s s request answer s' s'
    (.finished answer) :=
  ⟨.done, .waits, .done⟩

theorem Pauses.andThen {p : Async I α} {next : Except I.Error α → Async I β}
    {result : Except I.Error α} {thread : Thread I β}
    (h : Pauses serves p s mid request answer resumed s' (.finished result))
    (hnext : (next result).Leads serves s' s'' thread) :
    Pauses serves (p.andThen next) s mid request answer resumed s'' thread := by
  obtain ⟨k, hwaiting, hfinished⟩ := h
  exact ⟨_, andThen_waiting hwaiting, Leads.andThen hfinished hnext⟩

theorem Pauses.bind {p : Async I α} {next : α → Async I β} {a : α} {thread : Thread I β}
    (h : Pauses serves p s mid request answer resumed s' (.finished (.ok a)))
    (hnext : (next a).Leads serves s' s'' thread) :
    Pauses serves (p >>= next) s mid request answer resumed s'' thread :=
  Pauses.andThen h hnext

/-- What comes before the pause. -/
theorem Pauses.after {p : Async I α} {next : α → Async I β} {a : α} {thread : Thread I β}
    (h : p.Leads serves s s' (.finished (.ok a)))
    (hnext : Pauses serves (next a) s' mid request answer resumed s'' thread) :
    Pauses serves (p >>= next) s mid request answer resumed s'' thread := by
  obtain ⟨k, hwaiting, hfinished⟩ := hnext
  exact ⟨k, Leads.bind h hwaiting, hfinished⟩

theorem Pauses.check {result : Except I.Error α} {a : α} {next : α → Async I β}
    {thread : Thread I β} (h : result = .ok a)
    (hnext : Pauses serves (next a) s mid request answer resumed s' thread) :
    Pauses serves (Async.ofExcept result >>= next) s mid request answer resumed s' thread :=
  h ▸ .after .done hnext

/-- What comes after a pause, however the call ends. -/
theorem Pauses.tryCatch_ok {p : Async I α} {handler : I.Error → Async I α} {a : α}
    (h : Pauses serves p s mid request answer resumed s' (.finished (.ok a))) :
    Pauses serves (tryCatch p handler) s mid request answer resumed s' (.finished (.ok a)) :=
  Pauses.andThen h .done

theorem Pauses.finally_ {p : Async I α} {cleanup : I.State → I.State}
    {result : Except I.Error α}
    (h : Pauses serves p s mid request answer resumed s' (.finished result)) :
    Pauses serves (p.finally_ cleanup) s mid request answer resumed (cleanup s')
      (.finished result) :=
  Pauses.andThen h (.write .done)

theorem resume {p : Async I α} {k : Except I.Error (I.Answer request) → Async I α}
    {thread : Thread I α} (h : p.Leads serves s mid (.waiting request k))
    (hserves : serves request mid answer resumed)
    (hresumed : (k answer).Leads serves resumed s' thread) : p.Leads serves s s' thread := by
  generalize hwaiting : Thread.waiting request k = waiting at h
  induction h with
  | done => cases hwaiting
  | read _ ih => exact .read (ih hserves hwaiting)
  | write _ ih => exact .write (ih hserves hwaiting)
  | waits =>
      cases hwaiting
      exact .served hserves hresumed
  | served hfirst _ ih => exact .served hfirst (ih hserves hwaiting)

/-- A pause in which nothing happens. -/
theorem Pauses.leads {p : Async I α} {thread : Thread I α}
    (h : Pauses serves p s mid request answer resumed s' thread)
    (hserves : serves request mid answer resumed) : p.Leads serves s s' thread := by
  obtain ⟨k, hwaiting, hresumed⟩ := h
  exact resume hwaiting hserves hresumed

end Pauses

theorem of_andThen {p : Async I α} {next : Except I.Error α → Async I β}
    {result : Except I.Error β} (h : (p.andThen next).Leads serves s s' (.finished result)) :
    ∃ first mid, p.Leads serves s mid (.finished first) ∧
      (next first).Leads serves mid s' (.finished result) := by
  induction p generalizing s with
  | done first => exact ⟨first, s, .done, h⟩
  | read k ih =>
      cases h with
      | read h =>
          obtain ⟨first, mid, hfirst, hnext⟩ := ih s h
          exact ⟨first, mid, .read hfirst, hnext⟩
  | write f p ih =>
      cases h with
      | write h =>
          obtain ⟨first, mid, hfirst, hnext⟩ := ih h
          exact ⟨first, mid, .write hfirst, hnext⟩
  | await request k ih =>
      cases h with
      | served hserves h =>
          obtain ⟨first, mid, hfirst, hnext⟩ := ih _ h
          exact ⟨first, mid, .served hserves hfirst, hnext⟩

end Leads

end Async

section Alone

variable {program : Program I ι α} {config config' config'' : Config I ι α} {c : ι}
  {born s s' s'' : I.State}

theorem Config.Moves.trans {activation activation' : Activation I α}
    (h : config.Moves c s activation config') (h' : config'.Moves c s' activation' config'') :
    config.Moves c s' activation' config'' :=
  ⟨h'.state, h'.moved, fun other hother => (h'.others other hother).trans (h.others other hother)⟩

/-- From its first await on, a call can come to where it leads. -/
theorem Async.Leads.reaches_advanced {p : Async I α} {thread : Thread I α}
    (h : p.Leads (program.serves c) s s' thread) (config : Config I ι α)
    (hat : config.Moves c (p.advance s).1 ⟨born, (p.advance s).2⟩ config) :
    ∃ config', program.Reaches config config' ∧ config.Moves c s' ⟨born, thread⟩ config' := by
  induction h generalizing config with
  | done => exact ⟨config, .refl config, hat⟩
  | read _ ih => exact ih config hat
  | write _ ih => exact ih config hat
  | waits => exact ⟨config, .refl config, hat⟩
  | @served request k answer s s' s'' thread hserves _ ih =>
      obtain ⟨served, hserved⟩ := config.exists_moves c s' ⟨born, .ready (k answer)⟩
      have hstate : config.state = s := hat.state
      have hserve : program.Step config served := .serve hat.moved (hstate ▸ hserves) hserved
      obtain ⟨run, hrun⟩ := served.exists_moves c ((k answer).advance served.state).1
        ⟨born, ((k answer).advance served.state).2⟩
      have hstep : program.Step served run := .run hserved.moved hrun
      rw [hserved.state] at hrun
      obtain ⟨config', hreaches, hmoves⟩ := ih run ⟨hrun.state, hrun.moved, fun _ _ => rfl⟩
      exact ⟨config', .trans (.step (.step (.refl config) hserve) hstep) hreaches,
        hserved.trans (hrun.trans hmoves)⟩

/-- A call that is ready can come to where it leads. -/
theorem Async.Leads.reaches {p : Async I α} {thread : Thread I α}
    (h : p.Leads (program.serves c) config.state s' thread)
    (hready : config.calls c = some ⟨born, .ready p⟩) :
    ∃ config', program.Reaches config config' ∧ config.Moves c s' ⟨born, thread⟩ config' := by
  obtain ⟨run, hrun⟩ := config.exists_moves c (p.advance config.state).1
    ⟨born, (p.advance config.state).2⟩
  obtain ⟨config', hreaches, hmoves⟩ :=
    h.reaches_advanced run ⟨hrun.state, hrun.moved, fun _ _ => rfl⟩
  exact ⟨config', .trans (.step (.refl config) (.run hready hrun)) hreaches, hrun.trans hmoves⟩

/-- A call that waits can be served and come to where it leads. -/
theorem Async.Leads.reaches_served {request : I.Request}
    {k : Except I.Error (I.Answer request) → Async I α}
    {answer : Except I.Error (I.Answer request)} {thread : Thread I α}
    (hwaiting : config.calls c = some ⟨born, .waiting request k⟩)
    (hserves : program.serves c request config.state answer s)
    (h : (k answer).Leads (program.serves c) s s' thread) :
    ∃ config', program.Reaches config config' ∧ config.Moves c s' ⟨born, thread⟩ config' := by
  obtain ⟨served, hserved⟩ := config.exists_moves c s ⟨born, .ready (k answer)⟩
  have hstep : program.Step config served := .serve hwaiting hserves hserved
  rw [← hserved.state] at h
  obtain ⟨config', hreaches, hmoves⟩ := h.reaches hserved.moved
  exact ⟨config', .trans (.step (.refl config) hstep) hreaches, hserved.trans hmoves⟩

/-- A call can be made and come to where it leads. -/
theorem Async.Leads.reaches_called {thread : Thread I α}
    (h : (program.code c).Leads (program.serves c) config.state s' thread)
    (hnone : config.calls c = none) :
    ∃ config', program.Reaches config config' ∧
      config.Moves c s' ⟨config.state, thread⟩ config' := by
  obtain ⟨called, hcalled⟩ := config.exists_moves c config.state
    ⟨config.state, .ready (program.code c)⟩
  have hstep : program.Step config called := .call hnone hcalled
  rw [← hcalled.state] at h
  obtain ⟨config', hreaches, hmoves⟩ := h.reaches hcalled.moved
  exact ⟨config', .trans (.step (.refl config) hstep) hreaches, hcalled.trans hmoves⟩

/-- The run of a single call. -/
theorem Async.Leads.run {thread : Thread I α}
    (h : (program.code c).Leads (program.serves c) s s' thread) :
    ∃ config, program.Reaches (Program.initial s) config ∧ config.state = s' ∧
      config.calls c = some ⟨s, thread⟩ := by
  have hinitial : (Program.initial s : Config I ι α).state = s := rfl
  rw [← hinitial] at h
  obtain ⟨config, hreaches, hmoves⟩ := h.reaches_called rfl
  exact ⟨config, hreaches, hmoves.state, hmoves.moved⟩

/-- The run of two calls, the second made where the first has led. -/
theorem Async.Leads.run_both {other : ι} {thread thread' : Thread I α} (hne : other ≠ c)
    (h : (program.code c).Leads (program.serves c) s s' thread)
    (h' : (program.code other).Leads (program.serves other) s' s'' thread') :
    ∃ config, program.Reaches (Program.initial s) config ∧ config.state = s'' ∧
      config.calls c = some ⟨s, thread⟩ ∧ config.calls other = some ⟨s', thread'⟩ ∧
      ∀ third, third ≠ c → third ≠ other → config.calls third = none := by
  have hinitial : (Program.initial s : Config I ι α).state = s := rfl
  rw [← hinitial] at h
  obtain ⟨first, hreaches, hfirst⟩ := h.reaches_called rfl
  have hstate : first.state = s' := hfirst.state
  rw [← hstate] at h'
  obtain ⟨config, hreaches', hmoves⟩ := h'.reaches_called (hfirst.others other hne)
  refine ⟨config, hreaches.trans hreaches', hmoves.state,
    (hmoves.others c hne.symm).trans hfirst.moved, ?_, ?_⟩
  · rw [hmoves.moved, hstate]
  · exact fun third hc hother => (hmoves.others third hother).trans (hfirst.others third hc)

end Alone

/-- A call, and what else happens. -/
def lone (code : Async I α) (serves : Async.Serving I)
    (environment : I.State → I.State → Prop) : Program I Unit α where
  code _ := code
  serves _ := serves
  environment := environment

/-- A run from the state in which the call ends with the result. -/
def EndsWith (program : Program I Unit α) (start : I.State) (result : Except I.Error α) : Prop :=
  ∃ config born, program.Reaches (Program.initial start) config ∧
    config.calls () = some ⟨born, .finished result⟩

/-- The call may rely on the fact while it is not itself undone. -/
def keeping (serves : Async.Serving I) (fact : I.State → Prop) : Protocol I Unit Unit where
  inv _ := True
  rely _ w w' := fact w.1 → fact w'.1
  fresh _ w := fact w.1
  serves _ := serves

namespace Protocol

variable {serves : Async.Serving I} {fact : I.State → Prop}

theorem guarantee_keeping (w w' : I.State × Unit) : (keeping serves fact).guarantee () w w' :=
  fun _ hother => absurd rfl hother

/-- An answer that leaves the fact. -/
theorem Contract.ask_keeping {request : I.Request}
    {fits : Except I.Error (I.Answer request) → Prop}
    (h : ∀ s answer s', fact s → serves request s answer s' → fits answer ∧ fact s') :
    (keeping serves fact).Contract () (fun w => fact w.1) (Async.ask request)
      fun answer w => fits answer ∧ fact w.1 := by
  refine .ask ?_ fun w => guarantee_keeping w w
  intro w asked _ hfact _ hrely answer s' hserves
  obtain ⟨hfits, hkept⟩ := h asked.1 answer s' (hrely hfact) hserves
  exact ⟨(), trivial, guarantee_keeping _ _, fun _ _ hresumed => ⟨hfits, hresumed hkept⟩⟩

/-- An answer that uses the fact up. -/
theorem Contract.ask_last {request : I.Request} {fits : Except I.Error (I.Answer request) → Prop}
    (h : ∀ s answer s', fact s → serves request s answer s' → fits answer) :
    (keeping serves fact).Contract () (fun w => fact w.1) (Async.ask request)
      fun answer _ => fits answer := by
  refine .ask ?_ fun w => guarantee_keeping w w
  intro w asked _ hfact _ hrely answer s' hserves
  exact ⟨(), trivial, guarantee_keeping _ _, fun _ _ _ =>
    h asked.1 answer s' (hrely hfact) hserves⟩

/-- Each call keeps the protocol that its contract is in. -/
theorem discipline_lone {code : Async I α} {environment : I.State → I.State → Prop}
    {ends : Except I.Error α → Prop}
    (hcontract : (keeping serves fact).Contract () (fun w => fact w.1) code
      fun result _ => ends result)
    (henvironment : ∀ s s', environment s s' → fact s → fact s') :
    Discipline (lone code serves environment) (keeping serves fact)
      fun _ _ result _ => ends result where
  rely_refl _ _ h := h
  rely_trans _ _ _ _ h h' hfact := h' (h hfact)
  serves _ _ _ _ _ h := h
  environment w s' _ hstep := ⟨(), trivial, fun _ => henvironment w.1 s' hstep⟩
  fresh_stable _ _ _ hfact _ hrely := hrely hfact
  code := by
    intro c born _ hfresh w _ hrely
    exact hcontract w w.1 w.2 trivial (guarantee_keeping w w) (hrely hfresh)
  post_stable _ _ _ _ _ h _ _ := h

end Protocol

/-- A call whose requests are served comes to an end. -/
theorem Async.Leads.exists_finished {serves : Async.Serving I}
    (hserves : ∀ request s, ∃ answer s', serves request s answer s') (p : Async I α)
    (s : I.State) : ∃ result s', p.Leads serves s s' (.finished result) := by
  induction p generalizing s with
  | done result => exact ⟨result, s, .done⟩
  | read k ih =>
      obtain ⟨result, s', h⟩ := ih s s
      exact ⟨result, s', .read h⟩
  | write f p ih =>
      obtain ⟨result, s', h⟩ := ih (f s)
      exact ⟨result, s', .write h⟩
  | await request k ih =>
      obtain ⟨answer, s', hanswer⟩ := hserves request s
      obtain ⟨result, s'', h⟩ := ih answer s'
      exact ⟨result, s'', .served hanswer h⟩

/-- A call ends with a result in some run, and with no other in any. -/
theorem endsWith_iff {code : Async I α} {serves : Async.Serving I} {fact : I.State → Prop}
    {environment : I.State → I.State → Prop} {result : Except I.Error α}
    (hcontract : (keeping serves fact).Contract () (fun w => fact w.1) code
      fun ended _ => ended = result)
    (hserves : ∀ request s, ∃ answer s', serves request s answer s')
    (henvironment : ∀ s s', environment s s' → fact s → fact s') {start : I.State}
    (hstart : fact start) {ended : Except I.Error α} :
    EndsWith (lone code serves environment) start ended ↔ ended = result := by
  have hends : ∀ {ended}, EndsWith (lone code serves environment) start ended →
      ended = result := by
    rintro ended ⟨config, born, hreaches, hfinished⟩
    have hdiscipline := Protocol.discipline_lone hcontract henvironment
    have hinv : (keeping serves fact).inv (start, ()) := trivial
    obtain ⟨_, -, -, hsound⟩ := hreaches.sound hdiscipline (sound_initial hinv fun _ => hstart)
    exact hsound () _ hfinished
  constructor
  · exact hends
  · rintro rfl
    obtain ⟨found, s', hleads⟩ := Async.Leads.exists_finished hserves code start
    have hrun : ((lone code serves environment).code ()).Leads
        ((lone code serves environment).serves ()) start s' (.finished found) := hleads
    obtain ⟨config, hreaches, -, hfinished⟩ := hrun.run
    have hfound : EndsWith (lone code serves environment) start found :=
      ⟨config, start, hreaches, hfinished⟩
    exact hends hfound ▸ hfound

end Concurrency
