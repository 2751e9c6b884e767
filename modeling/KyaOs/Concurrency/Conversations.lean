import KyaOs.Concurrency.Async

/-!
# What a call asks and is answered

A call is followed by its conversation alone: the requests it makes, in order, each with
any answer. Where nothing is assumed of the answers, this covers every run of the call
among other calls. `Runs` is a conversation to its end, `Asks` one up to a request, and
the rules take either apart along `do` notation.
-/

namespace Concurrency

/-- A request and its answer. -/
structure Exchange (I : Setting) where
  request : I.Request
  answer : Except I.Error (I.Answer request)

namespace Async

variable {I : Setting} {α β : Type}

/-- Having made the requests of the log, and got its answers, the call ends. -/
inductive Runs : Async I α → List (Exchange I) → Except I.Error α → Prop
  | done (result : Except I.Error α) : Runs (.done result) [] result
  | read {k : I.State → Async I α} {log : List (Exchange I)} {result : Except I.Error α}
      (s : I.State) (h : Runs (k s) log result) : Runs (.read k) log result
  | write {f : I.State → I.State} {p : Async I α} {log : List (Exchange I)}
      {result : Except I.Error α} (h : Runs p log result) : Runs (.write f p) log result
  | await {request : I.Request} {k : Except I.Error (I.Answer request) → Async I α}
      {log : List (Exchange I)} {result : Except I.Error α}
      (answer : Except I.Error (I.Answer request)) (h : Runs (k answer) log result) :
      Runs (.await request k) (⟨request, answer⟩ :: log) result

/-- After the requests and answers of the log, the call makes this request. -/
inductive Asks : Async I α → List (Exchange I) → I.Request → Prop
  | here (request : I.Request) (k : Except I.Error (I.Answer request) → Async I α) :
      Asks (.await request k) [] request
  | read {k : I.State → Async I α} {log : List (Exchange I)} {request : I.Request}
      (s : I.State) (h : Asks (k s) log request) : Asks (.read k) log request
  | write {f : I.State → I.State} {p : Async I α} {log : List (Exchange I)}
      {request : I.Request} (h : Asks p log request) : Asks (.write f p) log request
  | await {earlier : I.Request} {k : Except I.Error (I.Answer earlier) → Async I α}
      {log : List (Exchange I)} {request : I.Request}
      (answer : Except I.Error (I.Answer earlier)) (h : Asks (k answer) log request) :
      Asks (.await earlier k) (⟨earlier, answer⟩ :: log) request

/-- The call makes only such requests. -/
def Only (allowed : I.Request → Prop) : Async I α → Prop
  | .done _ => True
  | .read k => ∀ s, Only allowed (k s)
  | .write _ p => Only allowed p
  | .await request k => allowed request ∧ ∀ answer, Only allowed (k answer)

section Runs

variable {log : List (Exchange I)}

theorem runs_done {result result' : Except I.Error α} :
    (done result : Async I α).Runs log result' ↔ log = [] ∧ result' = result := by
  constructor
  · intro h
    cases h
    exact ⟨rfl, rfl⟩
  · rintro ⟨rfl, rfl⟩
    exact .done _

theorem runs_pure {a : α} {result : Except I.Error α} :
    (pure a : Async I α).Runs log result ↔ log = [] ∧ result = .ok a := runs_done

theorem runs_throw {e : I.Error} {result : Except I.Error α} :
    (throw e : Async I α).Runs log result ↔ log = [] ∧ result = .error e := runs_done

theorem runs_ofExcept {result result' : Except I.Error α} :
    (ofExcept result).Runs log result' ↔ log = [] ∧ result' = result := runs_done

theorem runs_ask {request : I.Request} {answer : Except I.Error (I.Answer request)} :
    (ask request).Runs log answer ↔ log = [⟨request, answer⟩] := by
  constructor
  · intro h
    cases h with
    | await _ hdone =>
      obtain ⟨rfl, rfl⟩ := runs_done.mp hdone
      rfl
  · rintro rfl
    exact .await answer (.done answer)

theorem runs_andThen {p : Async I α} {next : Except I.Error α → Async I β}
    {result : Except I.Error β} :
    (p.andThen next).Runs log result ↔
      ∃ first rest mid, log = first ++ rest ∧ p.Runs first mid ∧
        (next mid).Runs rest result := by
  constructor
  · intro h
    induction p generalizing log with
    | done mid => exact ⟨[], log, mid, rfl, .done mid, h⟩
    | read k ih =>
        cases h with
        | read s h =>
          obtain ⟨first, rest, mid, hlog, hfirst, hrest⟩ := ih s h
          exact ⟨first, rest, mid, hlog, .read s hfirst, hrest⟩
    | write f p ih =>
        cases h with
        | write h =>
          obtain ⟨first, rest, mid, hlog, hfirst, hrest⟩ := ih h
          exact ⟨first, rest, mid, hlog, .write hfirst, hrest⟩
    | await request k ih =>
        cases h with
        | await answer h =>
          obtain ⟨first, rest, mid, rfl, hfirst, hrest⟩ := ih answer h
          exact ⟨_ :: first, rest, mid, rfl, .await answer hfirst, hrest⟩
  · rintro ⟨first, rest, mid, rfl, hfirst, hrest⟩
    induction hfirst with
    | done => exact hrest
    | read s _ ih => exact .read s (ih hrest)
    | write _ ih => exact .write (ih hrest)
    | await answer _ ih => exact .await answer (ih hrest)

/-- A sequence returned through its first part, or threw there or after it. -/
theorem runs_bind {p : Async I α} {next : α → Async I β} {result : Except I.Error β} :
    (p >>= next).Runs log result ↔
      (∃ first rest a, log = first ++ rest ∧ p.Runs first (.ok a) ∧
        (next a).Runs rest result) ∨
      ∃ e, p.Runs log (.error e) ∧ result = .error e := by
  rw [show (p >>= next) = p.andThen (onReturn next) from rfl, runs_andThen]
  constructor
  · rintro ⟨first, rest, mid, rfl, hfirst, hrest⟩
    cases mid with
    | ok a => exact .inl ⟨first, rest, a, rfl, hfirst, hrest⟩
    | error e =>
        obtain ⟨rfl, rfl⟩ := runs_done.mp hrest
        exact .inr ⟨e, by rwa [List.append_nil], rfl⟩
  · rintro (⟨first, rest, a, rfl, hfirst, hrest⟩ | ⟨e, hp, rfl⟩)
    · exact ⟨first, rest, .ok a, rfl, hfirst, hrest⟩
    · exact ⟨log, [], .error e, (List.append_nil log).symm, hp, .done _⟩

theorem runs_bind_ok {p : Async I α} {next : α → Async I β} {b : β} :
    (p >>= next).Runs log (.ok b) ↔
      ∃ first rest a, log = first ++ rest ∧ p.Runs first (.ok a) ∧
        (next a).Runs rest (.ok b) := by
  rw [runs_bind]
  constructor
  · rintro (h | ⟨e, -, hthrown⟩)
    · exact h
    · cases hthrown
  · exact .inl

theorem runs_tryCatch {p : Async I α} {handler : I.Error → Async I α}
    {result : Except I.Error α} :
    (tryCatch p handler).Runs log result ↔
      (∃ a, p.Runs log (.ok a) ∧ result = .ok a) ∨
      ∃ first rest e, log = first ++ rest ∧ p.Runs first (.error e) ∧
        (handler e).Runs rest result := by
  rw [show tryCatch p handler = p.andThen (onThrow handler) from rfl, runs_andThen]
  constructor
  · rintro ⟨first, rest, mid, rfl, hfirst, hrest⟩
    cases mid with
    | ok a =>
        obtain ⟨rfl, rfl⟩ := runs_done.mp hrest
        exact .inl ⟨a, by rwa [List.append_nil], rfl⟩
    | error e => exact .inr ⟨first, rest, e, rfl, hfirst, hrest⟩
  · rintro (⟨a, hp, rfl⟩ | ⟨first, rest, e, rfl, hfirst, hrest⟩)
    · exact ⟨log, [], .ok a, (List.append_nil log).symm, hp, .done _⟩
    · exact ⟨first, rest, .error e, rfl, hfirst, hrest⟩

theorem runs_check {a : α} {next : α → Async I β} {result : Except I.Error β} :
    (ofExcept (.ok a) >>= next).Runs log result ↔ (next a).Runs log result := Iff.rfl

theorem runs_ask_bind {request : I.Request} {next : I.Answer request → Async I β}
    {result : Except I.Error β} :
    (ask request >>= next).Runs log result ↔
      ∃ answer rest, log = ⟨request, answer⟩ :: rest ∧ (onReturn next answer).Runs rest result := by
  constructor
  · intro h
    cases h with
    | await answer h => exact ⟨answer, _, rfl, h⟩
  · rintro ⟨answer, rest, rfl, h⟩
    exact .await answer h

/-- A conversation holds only requests the call can make. -/
theorem Only.requests {allowed : I.Request → Prop} {p : Async I α}
    {result : Except I.Error α} (h : p.Only allowed) (hruns : p.Runs log result) :
    ∀ exchange ∈ log, allowed exchange.request := by
  induction hruns with
  | done result => exact fun _ hmem => absurd hmem List.not_mem_nil
  | read s _ ih => exact ih (h s)
  | write _ ih => exact ih h
  | await answer _ ih =>
      intro exchange hmem
      cases List.mem_cons.mp hmem with
      | inl hhead => exact hhead ▸ h.1
      | inr htail => exact ih (h.2 answer) exchange htail

end Runs

section Asks

variable {log : List (Exchange I)} {request : I.Request}

theorem not_asks_done {result : Except I.Error α} :
    ¬ (done result : Async I α).Asks log request := by
  intro h
  cases h

theorem asks_ask {asked : I.Request} :
    (ask asked).Asks log request ↔ log = [] ∧ request = asked := by
  constructor
  · intro h
    cases h with
    | here => exact ⟨rfl, rfl⟩
    | await _ hdone => exact absurd hdone not_asks_done
  · rintro ⟨rfl, rfl⟩
    exact .here _ _

theorem asks_andThen {p : Async I α} {next : Except I.Error α → Async I β} :
    (p.andThen next).Asks log request ↔
      p.Asks log request ∨
      ∃ first rest mid, log = first ++ rest ∧ p.Runs first mid ∧
        (next mid).Asks rest request := by
  constructor
  · intro h
    induction p generalizing log with
    | done mid => exact .inr ⟨[], log, mid, rfl, .done mid, h⟩
    | read k ih =>
        cases h with
        | read s h =>
          obtain hasks | ⟨first, rest, mid, hlog, hfirst, hrest⟩ := ih s h
          · exact .inl (.read s hasks)
          · exact .inr ⟨first, rest, mid, hlog, .read s hfirst, hrest⟩
    | write f p ih =>
        cases h with
        | write h =>
          obtain hasks | ⟨first, rest, mid, hlog, hfirst, hrest⟩ := ih h
          · exact .inl (.write hasks)
          · exact .inr ⟨first, rest, mid, hlog, .write hfirst, hrest⟩
    | await asked k ih =>
        cases h with
        | here => exact .inl (.here _ _)
        | await answer h =>
          obtain hasks | ⟨first, rest, mid, rfl, hfirst, hrest⟩ := ih answer h
          · exact .inl (.await answer hasks)
          · exact .inr ⟨_ :: first, rest, mid, rfl, .await answer hfirst, hrest⟩
  · rintro (h | ⟨first, rest, mid, rfl, hfirst, hrest⟩)
    · induction h with
      | here asked k => exact .here _ _
      | read s _ ih => exact .read s ih
      | write _ ih => exact .write ih
      | await answer _ ih => exact .await answer ih
    · induction hfirst with
      | done => exact hrest
      | read s _ ih => exact .read s (ih hrest)
      | write _ ih => exact .write (ih hrest)
      | await answer _ ih => exact .await answer (ih hrest)

/-- A request of a sequence is made in its first part, or after that returned. -/
theorem asks_bind {p : Async I α} {next : α → Async I β} :
    (p >>= next).Asks log request ↔
      p.Asks log request ∨
      ∃ first rest a, log = first ++ rest ∧ p.Runs first (.ok a) ∧
        (next a).Asks rest request := by
  rw [show (p >>= next) = p.andThen (onReturn next) from rfl, asks_andThen]
  constructor
  · rintro (h | ⟨first, rest, mid, rfl, hfirst, hrest⟩)
    · exact .inl h
    · cases mid with
      | ok a => exact .inr ⟨first, rest, a, rfl, hfirst, hrest⟩
      | error e => exact absurd hrest not_asks_done
  · rintro (h | ⟨first, rest, a, rfl, hfirst, hrest⟩)
    · exact .inl h
    · exact .inr ⟨first, rest, .ok a, rfl, hfirst, hrest⟩

/-- The conversation with an environment that answers by the request alone, up to the first
request to stop at. -/
def upTo (environment : (request : I.Request) → Except I.Error (I.Answer request))
    (stop : I.Request → Bool) (s : I.State) : Async I α → Option (List (Exchange I) × I.Request)
  | .done _ => none
  | .read k => upTo environment stop s (k s)
  | .write _ p => upTo environment stop s p
  | .await request k =>
    if stop request then some ([], request)
    else (upTo environment stop s (k (environment request))).map fun found =>
      (⟨request, environment request⟩ :: found.1, found.2)

theorem asks_of_upTo {environment : (request : I.Request) → Except I.Error (I.Answer request)}
    {stop : I.Request → Bool} {s : I.State} {p : Async I α}
    (h : upTo environment stop s p = some (log, request)) : p.Asks log request := by
  induction p generalizing log with
  | done result => cases h
  | read k ih => exact .read s (ih s h)
  | write f p ih => exact .write (ih h)
  | await asked k ih =>
      rw [upTo] at h
      split at h
      · cases h
        exact .here _ _
      · obtain ⟨found, hfound, heq⟩ := Option.map_eq_some_iff.mp h
        cases heq
        exact .await _ (ih _ hfound)

theorem Only.asks {allowed : I.Request → Prop} {p : Async I α} (h : p.Only allowed)
    (hasks : p.Asks log request) : allowed request := by
  induction hasks with
  | here asked k => exact h.1
  | read s _ ih => exact ih (h s)
  | write _ ih => exact ih h
  | await answer _ ih => exact ih (h.2 answer)

/-- So were all requests before it. -/
theorem Only.earlier {allowed : I.Request → Prop} {p : Async I α} (h : p.Only allowed)
    (hasks : p.Asks log request) : ∀ exchange ∈ log, allowed exchange.request := by
  induction hasks with
  | here asked k => exact fun _ hmem => absurd hmem List.not_mem_nil
  | read s _ ih => exact ih (h s)
  | write _ ih => exact ih h
  | await answer _ ih =>
      intro exchange hmem
      cases List.mem_cons.mp hmem with
      | inl hhead => exact hhead ▸ h.1
      | inr htail => exact ih (h.2 answer) exchange htail

end Asks

section Only

variable {allowed : I.Request → Prop}

theorem only_done {result : Except I.Error α} : (done result : Async I α).Only allowed := trivial

theorem only_pure {a : α} : (pure a : Async I α).Only allowed := trivial

theorem only_ofExcept {result : Except I.Error α} : (ofExcept result).Only allowed := trivial

theorem only_ask {request : I.Request} (h : allowed request) : (ask request).Only allowed :=
  ⟨h, fun _ => trivial⟩

theorem Only.mono {allowed' : I.Request → Prop} {p : Async I α} (h : p.Only allowed)
    (hallowed : ∀ request, allowed request → allowed' request) : p.Only allowed' := by
  induction p with
  | done result => trivial
  | read k ih => exact fun s => ih s (h s)
  | write f p ih => exact ih h
  | await request k ih => exact ⟨hallowed request h.1, fun answer => ih answer (h.2 answer)⟩

/-- What follows need keep to the requests only after what the first part can come to. -/
theorem Only.andThen_runs {p : Async I α} {next : Except I.Error α → Async I β}
    (h : p.Only allowed) (hnext : ∀ log mid, p.Runs log mid → (next mid).Only allowed) :
    (p.andThen next).Only allowed := by
  induction p with
  | done mid => exact hnext [] mid (.done mid)
  | read k ih => exact fun s => ih s (h s) fun log mid hruns => hnext log mid (.read s hruns)
  | write f p ih => exact ih h fun log mid hruns => hnext log mid (.write hruns)
  | await request k ih =>
      exact ⟨h.1, fun answer => ih answer (h.2 answer) fun log mid hruns =>
        hnext (⟨request, answer⟩ :: log) mid (.await answer hruns)⟩

theorem Only.andThen {p : Async I α} {next : Except I.Error α → Async I β}
    (h : p.Only allowed) (hnext : ∀ mid, (next mid).Only allowed) :
    (p.andThen next).Only allowed :=
  h.andThen_runs fun _ mid _ => hnext mid

theorem Only.bind_runs {p : Async I α} {next : α → Async I β} (h : p.Only allowed)
    (hnext : ∀ log a, p.Runs log (.ok a) → (next a).Only allowed) :
    (p >>= next).Only allowed := by
  refine h.andThen_runs ?_
  intro log mid hruns
  cases mid with
  | ok a => exact hnext log a hruns
  | error e => trivial

theorem Only.bind {p : Async I α} {next : α → Async I β} (h : p.Only allowed)
    (hnext : ∀ a, (next a).Only allowed) : (p >>= next).Only allowed :=
  h.bind_runs fun _ a _ => hnext a

theorem Only.tryCatch {p : Async I α} {handler : I.Error → Async I α} (h : p.Only allowed)
    (hhandler : ∀ e, (handler e).Only allowed) :
    (MonadExcept.tryCatch p handler).Only allowed := by
  refine h.andThen ?_
  intro mid
  cases mid with
  | ok a => trivial
  | error e => exact hhandler e

end Only

section Answered

variable {answered : Exchange I → Prop}

/-- The call returns the value when its requests are answered so. -/
def Returns (answered : Exchange I → Prop) (p : Async I α) (a : α) : Prop :=
  ∃ log, (∀ exchange ∈ log, answered exchange) ∧ p.Runs log (.ok a)

def Throws (answered : Exchange I → Prop) (p : Async I α) (e : I.Error) : Prop :=
  ∃ log, (∀ exchange ∈ log, answered exchange) ∧ p.Runs log (.error e)

/-- The call returns, whenever it ends and however its requests are so answered. -/
def NeverThrows (answered : Exchange I → Prop) (p : Async I α) : Prop :=
  ∀ e, ¬ Throws answered p e

theorem forall_mem_append {first rest : List (Exchange I)} :
    (∀ exchange ∈ first ++ rest, answered exchange) ↔
      (∀ exchange ∈ first, answered exchange) ∧ ∀ exchange ∈ rest, answered exchange := by
  simp only [List.mem_append, or_imp, forall_and]

@[simp] theorem returns_ofExcept {result : Except I.Error α} {a : α} :
    Returns answered (ofExcept result) a ↔ result = .ok a := by
  constructor
  · rintro ⟨log, -, h⟩
    exact (runs_ofExcept.mp h).2.symm
  · rintro rfl
    exact ⟨[], by simp, .done _⟩

@[simp] theorem returns_pure {a b : α} : Returns answered (pure a : Async I α) b ↔ a = b := by
  rw [show (pure a : Async I α) = ofExcept (.ok a) from rfl, returns_ofExcept, Except.ok.injEq]

@[simp] theorem throws_ofExcept {result : Except I.Error α} {e : I.Error} :
    Throws answered (ofExcept result) e ↔ result = .error e := by
  constructor
  · rintro ⟨log, -, h⟩
    exact (runs_ofExcept.mp h).2.symm
  · rintro rfl
    exact ⟨[], by simp, .done _⟩

theorem returns_bind {p : Async I α} {next : α → Async I β} {b : β} :
    Returns answered (p >>= next) b ↔
      ∃ a, Returns answered p a ∧ Returns answered (next a) b := by
  constructor
  · rintro ⟨log, hlog, h⟩
    obtain ⟨first, rest, a, rfl, hfirst, hrest⟩ := runs_bind_ok.mp h
    obtain ⟨hanswered, hanswered'⟩ := forall_mem_append.mp hlog
    exact ⟨a, ⟨first, hanswered, hfirst⟩, ⟨rest, hanswered', hrest⟩⟩
  · rintro ⟨a, ⟨first, hanswered, hfirst⟩, ⟨rest, hanswered', hrest⟩⟩
    exact ⟨first ++ rest, forall_mem_append.mpr ⟨hanswered, hanswered'⟩,
      runs_bind_ok.mpr ⟨first, rest, a, rfl, hfirst, hrest⟩⟩

theorem throws_bind {p : Async I α} {next : α → Async I β} {e : I.Error} :
    Throws answered (p >>= next) e ↔
      Throws answered p e ∨ ∃ a, Returns answered p a ∧ Throws answered (next a) e := by
  constructor
  · rintro ⟨log, hlog, h⟩
    obtain ⟨first, rest, a, rfl, hfirst, hrest⟩ | ⟨e', hp, hsame⟩ := runs_bind.mp h
    · obtain ⟨hanswered, hanswered'⟩ := forall_mem_append.mp hlog
      exact .inr ⟨a, ⟨first, hanswered, hfirst⟩, ⟨rest, hanswered', hrest⟩⟩
    · cases hsame
      exact .inl ⟨log, hlog, hp⟩
  · rintro (⟨log, hlog, hp⟩ | ⟨a, ⟨first, hanswered, hfirst⟩, ⟨rest, hanswered', hrest⟩⟩)
    · exact ⟨log, hlog, runs_bind.mpr (.inr ⟨e, hp, rfl⟩)⟩
    · exact ⟨first ++ rest, forall_mem_append.mpr ⟨hanswered, hanswered'⟩,
        runs_bind.mpr (.inl ⟨first, rest, a, rfl, hfirst, hrest⟩)⟩

theorem returns_tryCatch {p : Async I α} {handler : I.Error → Async I α} {a : α} :
    Returns answered (tryCatch p handler) a ↔
      Returns answered p a ∨ ∃ e, Throws answered p e ∧ Returns answered (handler e) a := by
  constructor
  · rintro ⟨log, hlog, h⟩
    obtain ⟨a', hp, hsame⟩ | ⟨first, rest, e, rfl, hfirst, hrest⟩ := runs_tryCatch.mp h
    · cases hsame
      exact .inl ⟨log, hlog, hp⟩
    · obtain ⟨hanswered, hanswered'⟩ := forall_mem_append.mp hlog
      exact .inr ⟨e, ⟨first, hanswered, hfirst⟩, ⟨rest, hanswered', hrest⟩⟩
  · rintro (⟨log, hlog, hp⟩ | ⟨e, ⟨first, hanswered, hfirst⟩, ⟨rest, hanswered', hrest⟩⟩)
    · exact ⟨log, hlog, runs_tryCatch.mpr (.inl ⟨a, hp, rfl⟩)⟩
    · exact ⟨first ++ rest, forall_mem_append.mpr ⟨hanswered, hanswered'⟩,
        runs_tryCatch.mpr (.inr ⟨first, rest, e, rfl, hfirst, hrest⟩)⟩

theorem throws_tryCatch {p : Async I α} {handler : I.Error → Async I α} {e : I.Error} :
    Throws answered (tryCatch p handler) e ↔
      ∃ e', Throws answered p e' ∧ Throws answered (handler e') e := by
  constructor
  · rintro ⟨log, hlog, h⟩
    obtain ⟨a', hp, hsame⟩ | ⟨first, rest, e', rfl, hfirst, hrest⟩ := runs_tryCatch.mp h
    · cases hsame
    · obtain ⟨hanswered, hanswered'⟩ := forall_mem_append.mp hlog
      exact ⟨e', ⟨first, hanswered, hfirst⟩, ⟨rest, hanswered', hrest⟩⟩
  · rintro ⟨e', ⟨first, hanswered, hfirst⟩, ⟨rest, hanswered', hrest⟩⟩
    exact ⟨first ++ rest, forall_mem_append.mpr ⟨hanswered, hanswered'⟩,
      runs_tryCatch.mpr (.inr ⟨first, rest, e', rfl, hfirst, hrest⟩)⟩

theorem returns_ask {request : I.Request} {a : I.Answer request} :
    Returns answered (ask request) a ↔ answered ⟨request, .ok a⟩ := by
  constructor
  · rintro ⟨log, hlog, h⟩
    obtain rfl := runs_ask.mp h
    exact hlog _ (List.mem_singleton_self _)
  · intro h
    exact ⟨[⟨request, .ok a⟩], by simpa using h, runs_ask.mpr rfl⟩

theorem throws_ask {request : I.Request} {e : I.Error} :
    Throws answered (ask request) e ↔ answered ⟨request, .error e⟩ := by
  constructor
  · rintro ⟨log, hlog, h⟩
    obtain rfl := runs_ask.mp h
    exact hlog _ (List.mem_singleton_self _)
  · intro h
    exact ⟨[⟨request, .error e⟩], by simpa using h, runs_ask.mpr rfl⟩

@[simp] theorem neverThrows_ofExcept {result : Except I.Error α} :
    NeverThrows answered (ofExcept result) ↔ ∃ a, result = .ok a := by
  simp only [NeverThrows, throws_ofExcept]
  cases result <;> simp

@[simp] theorem neverThrows_pure {a : α} : NeverThrows answered (pure a : Async I α) :=
  neverThrows_ofExcept.mpr ⟨a, rfl⟩

theorem neverThrows_bind {p : Async I α} {next : α → Async I β} :
    NeverThrows answered (p >>= next) ↔
      NeverThrows answered p ∧ ∀ a, Returns answered p a → NeverThrows answered (next a) := by
  simp only [NeverThrows, throws_bind, not_or, not_exists, not_and, forall_and]
  exact and_congr_right fun _ =>
    ⟨fun h a ha e => h e a ha, fun h e a ha => h a ha e⟩

theorem neverThrows_tryCatch {p : Async I α} {handler : I.Error → Async I α} :
    NeverThrows answered (tryCatch p handler) ↔
      ∀ e, Throws answered p e → NeverThrows answered (handler e) := by
  simp only [NeverThrows, throws_tryCatch, not_exists, not_and]
  exact ⟨fun h e he e' => h e' e he, fun h e' e he => h e he e'⟩

/-- What the call comes to, returned or thrown, as a value. -/
def outcome (p : Async I α) : Async I (Except I.Error α) :=
  p.andThen fun result => .done (.ok result)

theorem runs_outcome {p : Async I α} {log : List (Exchange I)}
    {result : Except I.Error (Except I.Error α)} :
    p.outcome.Runs log result ↔ ∃ mid, p.Runs log mid ∧ result = .ok mid := by
  rw [outcome, runs_andThen]
  constructor
  · rintro ⟨first, rest, mid, rfl, hfirst, hrest⟩
    obtain ⟨rfl, rfl⟩ := runs_done.mp hrest
    exact ⟨mid, by rwa [List.append_nil], rfl⟩
  · rintro ⟨mid, hp, rfl⟩
    exact ⟨log, [], mid, (List.append_nil log).symm, hp, .done _⟩

/-- What follows a call goes on from what it came to, returned or thrown. -/
theorem runs_outcome_bind {p : Async I α} {next : Except I.Error α → Async I β}
    {log : List (Exchange I)} {result : Except I.Error β} :
    (p.outcome >>= next).Runs log result ↔
      ∃ first rest mid, log = first ++ rest ∧ p.Runs first mid ∧ (next mid).Runs rest result := by
  rw [runs_bind]
  constructor
  · rintro (⟨first, rest, _, rfl, hfirst, hrest⟩ | ⟨e, hthrown, -⟩)
    · obtain ⟨mid, hmid, hreturned⟩ := runs_outcome.mp hfirst
      obtain rfl := Except.ok.inj hreturned
      exact ⟨first, rest, _, rfl, hmid, hrest⟩
    · obtain ⟨_, -, hreturned⟩ := runs_outcome.mp hthrown
      cases hreturned
  · rintro ⟨first, rest, mid, rfl, hmid, hrest⟩
    exact .inl ⟨first, rest, mid, rfl, runs_outcome.mpr ⟨mid, hmid, rfl⟩, hrest⟩

/-- The same of a single request. -/
theorem runs_outcome_ask_bind {request : I.Request}
    {next : Except I.Error (I.Answer request) → Async I β} {log : List (Exchange I)}
    {result : Except I.Error β} :
    ((ask request).outcome >>= next).Runs log result ↔
      ∃ answer rest, log = ⟨request, answer⟩ :: rest ∧ (next answer).Runs rest result := by
  rw [runs_outcome_bind]
  constructor
  · rintro ⟨_, rest, answer, rfl, hask, hrest⟩
    obtain rfl := runs_ask.mp hask
    exact ⟨answer, rest, rfl, hrest⟩
  · rintro ⟨answer, rest, rfl, hrest⟩
    exact ⟨[_], rest, answer, rfl, runs_ask.mpr rfl, hrest⟩

@[simp] theorem neverThrows_outcome {p : Async I α} : NeverThrows answered p.outcome := by
  rintro e ⟨log, -, h⟩
  obtain ⟨mid, -, hresult⟩ := runs_outcome.mp h
  cases hresult

theorem returns_outcome {p : Async I α} {result : Except I.Error α} :
    Returns answered p.outcome result ↔
      ∃ log, (∀ exchange ∈ log, answered exchange) ∧ p.Runs log result := by
  simp only [Returns, runs_outcome, Except.ok.injEq, exists_eq_right']

@[simp] theorem returns_outcome_ok {p : Async I α} {a : α} :
    Returns answered p.outcome (.ok a) ↔ Returns answered p a := returns_outcome

@[simp] theorem returns_outcome_error {p : Async I α} {e : I.Error} :
    Returns answered p.outcome (.error e) ↔ Throws answered p e := returns_outcome

/-- What follows a call whose error is caught. -/
theorem neverThrows_outcome_bind {p : Async I α} {next : Except I.Error α → Async I β} :
    NeverThrows answered (p.outcome >>= next) ↔
      (∀ a, Returns answered p a → NeverThrows answered (next (.ok a))) ∧
      ∀ e, Throws answered p e → NeverThrows answered (next (.error e)) := by
  rw [neverThrows_bind, and_iff_right neverThrows_outcome]
  constructor
  · intro h
    exact ⟨fun a ha => h (.ok a) (returns_outcome_ok.mpr ha),
      fun e he => h (.error e) (returns_outcome_error.mpr he)⟩
  · intro h result hresult
    cases result with
    | ok a => exact h.1 a (returns_outcome_ok.mp hresult)
    | error e => exact h.2 e (returns_outcome_error.mp hresult)

end Answered

end Async

/-- What comes after a call, returned or thrown. -/
theorem Protocol.Contract.outcome_bind {ι γ : Type} {P : Protocol I ι γ} {c : ι}
    {pre : I.State × γ → Prop} {p : Async I α} {next : Except I.Error α → Async I β}
    {mid : Except I.Error α → I.State × γ → Prop} {post : Except I.Error β → I.State × γ → Prop}
    (h : P.Contract c pre p mid) (hnext : ∀ result, P.Contract c (mid result) (next result) post) :
    P.Contract c pre (p.outcome >>= next) post := by
  intro start s g hinv hguarantee hstart
  rw [wp_bind, Async.outcome, wp_andThen]
  refine wp_mono ?_ (h start s g hinv hguarantee hstart)
  rintro result start s ⟨g, hinv, hguarantee, hresult⟩
  exact hnext result start s g hinv hguarantee hresult

end Concurrency
