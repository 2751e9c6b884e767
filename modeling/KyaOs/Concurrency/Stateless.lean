import KyaOs.Concurrency.Conversations

/-!
# Code that keeps to itself

Code that neither reads nor writes the shared state sees of the other calls only what its
requests are answered. Where each request has one answer, so has the code one end, whatever
runs beside it.
-/

namespace Concurrency

variable {I : Setting} {ι γ α β : Type}

namespace Async

/-- The code touches no shared state, and makes only such requests. -/
def Stateless (asks : I.Request → Prop) : Async I α → Prop
  | .done _ => True
  | .read _ => False
  | .write _ _ => False
  | .await request k => asks request ∧ ∀ answer, Stateless asks (k answer)

variable {asks : I.Request → Prop} {p : Async I α}

theorem stateless_pure (a : α) : (pure a : Async I α).Stateless asks := trivial

theorem stateless_ofExcept (result : Except I.Error α) : (ofExcept result).Stateless asks :=
  trivial

theorem stateless_ask {request : I.Request} (h : asks request) :
    (ask request).Stateless asks := ⟨h, fun _ => trivial⟩

theorem Stateless.andThen {next : Except I.Error α → Async I β} (h : p.Stateless asks)
    (hnext : ∀ result, (next result).Stateless asks) : (p.andThen next).Stateless asks := by
  induction p with
  | done result => exact hnext result
  | read k ih => exact h.elim
  | write f p ih => exact h.elim
  | await request k ih =>
      refine ⟨h.1, ?_⟩
      intro answer
      exact ih answer (h.2 answer)

theorem Stateless.bind {next : α → Async I β} (h : p.Stateless asks)
    (hnext : ∀ a, (next a).Stateless asks) : (p >>= next).Stateless asks := by
  refine h.andThen ?_
  intro result
  cases result with
  | ok a => exact hnext a
  | error e => trivial

theorem Stateless.tryCatch {handler : I.Error → Async I α} (h : p.Stateless asks)
    (hhandler : ∀ e, (handler e).Stateless asks) : (tryCatch p handler).Stateless asks := by
  refine h.andThen ?_
  intro result
  cases result with
  | ok a => trivial
  | error e => exact hhandler e

/-- Answers that the requests determine lead to one end. -/
theorem Stateless.unique {answered : Exchange I → Prop} (h : p.Stateless asks)
    (hanswered : ∀ request answer answer', asks request → answered ⟨request, answer⟩ →
      answered ⟨request, answer'⟩ → answer = answer')
    {log log' : List (Exchange I)} {result result' : Except I.Error α} (hruns : p.Runs log result)
    (hlog : ∀ exchange ∈ log, answered exchange) (hruns' : p.Runs log' result')
    (hlog' : ∀ exchange ∈ log', answered exchange) : result = result' := by
  induction hruns generalizing log' with
  | done result =>
      cases hruns'
      rfl
  | read s _ ih => exact h.elim
  | write _ ih => exact h.elim
  | await answer _ ih =>
      cases hruns' with
      | await answer' hruns' =>
          obtain ⟨hhead, htail⟩ := List.forall_mem_cons.mp hlog
          obtain ⟨hhead', htail'⟩ := List.forall_mem_cons.mp hlog'
          have hsame := hanswered _ _ _ h.1 hhead hhead'
          subst hsame
          exact ih (h.2 answer) htail hruns' htail'

end Async

/-- Both return, and what they return is related, or both throw the same. -/
inductive SameEnd {ε : Type} (R : α → β → Prop) : Except ε α → Except ε β → Prop
  | ok {a : α} {b : β} (h : R a b) : SameEnd R (.ok a) (.ok b)
  | error (e : ε) : SameEnd R (.error e) (.error e)

/-- Among other calls `p` ends as some run of `q` on such answers does. -/
def Protocol.EndsLike (P : Protocol I ι γ) (c : ι) (answered : Exchange I → Prop)
    (R : α → β → Prop) (p : Async I α) (q : Async I β) : Prop :=
  P.Contract c (fun _ => True) p fun result _ =>
    ∃ log plain, q.Runs log plain ∧ (∀ exchange ∈ log, answered exchange) ∧ SameEnd R result plain

namespace Protocol.EndsLike

variable {α' β' : Type} {P : Protocol I ι γ} {c : ι} {asks : I.Request → Prop}
  {answered : Exchange I → Prop} {R : α → β → Prop} {R' : α' → β' → Prop}

theorem bind {p : Async I α} {q : Async I β} {next : α → Async I α'} {next' : β → Async I β'}
    (h : P.EndsLike c answered R p q)
    (hnext : ∀ a b, R a b → P.EndsLike c answered R' (next a) (next' b)) :
    P.EndsLike c answered R' (p >>= next) (q >>= next') := by
  refine Contract.bind h ?_ ?_
  · intro a
    refine .of_pre (fun _ _ h => h) ?_
    rintro ⟨log, plain, hruns, hlog, hends⟩
    cases hends with
    | @ok _ b hrelated =>
        refine ((hnext a b hrelated).mono_pre fun _ _ _ => trivial).mono_post ?_
        rintro result w - ⟨rest, plain, hruns', hrest, hends⟩
        exact ⟨log ++ rest, plain, Async.runs_bind.mpr (.inl ⟨log, rest, b, rfl, hruns, hruns'⟩),
          List.forall_mem_append.mpr ⟨hlog, hrest⟩, hends⟩
  · rintro e w - ⟨log, plain, hruns, hlog, hends⟩
    cases hends with
    | error => exact ⟨log, .error e, Async.runs_bind.mpr (.inr ⟨e, hruns, rfl⟩), hlog, .error e⟩

theorem ofExcept {result : Except I.Error α} {result' : Except I.Error β}
    (h : SameEnd R result result') :
    P.EndsLike c answered R (Async.ofExcept result) (Async.ofExcept result') :=
  Contract.ofExcept fun _ _ _ => ⟨[], result', .done result', List.forall_mem_nil _, h⟩

/-- The same computation without awaits, whose result is known. -/
theorem check (result : Except I.Error α) :
    P.EndsLike c answered (fun a b => a = b ∧ result = .ok a) (Async.ofExcept result)
      (Async.ofExcept result) := by
  cases result with
  | ok a => exact ofExcept (.ok ⟨rfl, rfl⟩)
  | error e => exact ofExcept (.error e)

theorem pure {a : α} {b : β} (h : R a b) :
    P.EndsLike c answered R (pure a : Async I α) (pure b : Async I β) :=
  ofExcept (.ok h)

/-- What is returned is what a run of `q` returned. -/
theorem ran {p : Async I α} {q : Async I β} (h : P.EndsLike c answered R p q) :
    P.EndsLike c answered (fun a b => R a b ∧ ∃ log, q.Runs log (.ok b)) p q := by
  refine Contract.mono_post h ?_
  rintro result w - ⟨log, plain, hruns, hlog, hends⟩
  refine ⟨log, plain, hruns, hlog, ?_⟩
  cases hends with
  | ok hrelated => exact .ok ⟨hrelated, log, hruns⟩
  | error e => exact .error e

/-- Code that keeps to itself ends as its answers lead it. -/
theorem of_stateless {p : Async I α} (h : p.Stateless asks) (hrefl : ∀ w, P.guarantee c w w)
    (hserves : ∀ request s answer s', asks request → P.serves c request s answer s' →
      s' = s ∧ answered ⟨request, answer⟩) : P.EndsLike c answered Eq p p := by
  induction p with
  | done result =>
      refine ofExcept ?_
      cases result with
      | ok a => exact .ok rfl
      | error e => exact .error e
  | read k ih => exact h.elim
  | write f p ih => exact h.elim
  | await request k ih =>
      intro start s g hinv hguarantee _
      refine ⟨g, hinv, hguarantee, ?_⟩
      intro asked hasked hrely answer s' hserved
      obtain ⟨rfl, hanswer⟩ := hserves request asked.1 answer s' h.1 hserved
      refine ⟨asked.2, hasked, hrefl asked, ?_⟩
      intro resumed hresumed hrely'
      refine Protocol.wp_mono ?_
        (ih answer (h.2 answer) resumed resumed.1 resumed.2 hresumed (hrefl resumed) trivial)
      rintro result start s ⟨g, hinv, hguarantee, log, plain, hruns, hlog, hends⟩
      exact ⟨g, hinv, hguarantee, _, plain, .await answer hruns,
        List.forall_mem_cons.mpr ⟨hanswer, hlog⟩, hends⟩

end Protocol.EndsLike

end Concurrency
