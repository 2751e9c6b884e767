import KyaOs.Concurrency.Async
import Mathlib.Data.List.Nodup

/-!
# Calls that pass a gate

Some code is decided by one request: the answer that opens the gate leads only to the
ends of an admitted call, and without it a call ends refused. `Gated` says so of the code
alone, whatever else is answered. In every run the admitted calls then stand in the order
the gate let them through, and what one admission keeps of the shared state holds
throughout.
-/

namespace Concurrency

variable {I : Setting} {ι α : Type}

/-- A request that decides calls. -/
structure Gate (I : Setting) where
  isGate : I.Request → Prop
  /-- The answers that let a call through. -/
  opens : (request : I.Request) → Except I.Error (I.Answer request) → Prop
  /-- The answers that requests can come to. -/
  permits : (request : I.Request) → Except I.Error (I.Answer request) → Prop
  /-- What the code knows when it asks at the gate. -/
  asks : I.Request → Prop

/-- How a call ends that was let through on a request, and how it ends otherwise. -/
structure Ends (I : Setting) (α : Type) where
  admitted : I.Request → Except I.Error α → Prop
  refused : Except I.Error α → Prop

namespace Async

/-- Code that meets no gate: it changes nothing and ends so. -/
def Decided (G : Gate I) (ends : Except I.Error α → Prop) : Async I α → Prop
  | .done result => ends result
  | .read k => ∀ s, Decided G ends (k s)
  | .write _ _ => False
  | .await request k =>
    ¬ G.isGate request ∧ ∀ answer, G.permits request answer → Decided G ends (k answer)

/-- Code that the gate has still to decide. -/
def Gated (G : Gate I) (E : Ends I α) : Async I α → Prop
  | .done result => E.refused result
  | .read k => ∀ s, Gated G E (k s)
  | .write _ _ => False
  | .await request k =>
    (G.isGate request → G.asks request ∧ ∀ answer,
      (G.opens request answer → (k answer).Decided G (E.admitted request)) ∧
        (¬ G.opens request answer → (k answer).Decided G E.refused)) ∧
      (¬ G.isGate request → ∀ answer, G.permits request answer → Gated G E (k answer))

variable {β : Type} {G : Gate I} {E : Ends I α} {ends : Except I.Error α → Prop}

/-- A call that is refused already. -/
theorem Gated.of_decided {p : Async I α} (h : p.Decided G E.refused) : p.Gated G E := by
  induction p with
  | done result => exact h
  | read k ih => exact fun s => ih s (h s)
  | write f p ih => exact h
  | await request k ih =>
      refine ⟨fun hgate => absurd hgate h.1, ?_⟩
      intro _ answer hanswer
      exact ih answer (h.2 answer hanswer)

theorem Decided.andThen {mid : Except I.Error β → Prop} {p : Async I β}
    {next : Except I.Error β → Async I α} (h : p.Decided G mid)
    (hnext : ∀ result, mid result → (next result).Decided G ends) :
    (p.andThen next).Decided G ends := by
  induction p with
  | done result => exact hnext result h
  | read k ih => exact fun s => ih s (h s)
  | write f p ih => exact h.elim
  | await request k ih =>
      refine ⟨h.1, ?_⟩
      intro answer hanswer
      exact ih answer (h.2 answer hanswer)

/-- What comes before the gate. -/
theorem Gated.after {mid : Except I.Error β → Prop} {p : Async I β}
    {next : Except I.Error β → Async I α} (h : p.Decided G mid)
    (hnext : ∀ result, mid result → (next result).Gated G E) : (p.andThen next).Gated G E := by
  induction p with
  | done result => exact hnext result h
  | read k ih => exact fun s => ih s (h s)
  | write f p ih => exact h.elim
  | await request k ih =>
      refine ⟨fun hgate => absurd hgate h.1, ?_⟩
      intro _ answer hanswer
      exact ih answer (h.2 answer hanswer)

theorem Decided.bind {mid : Except I.Error β → Prop} {p : Async I β} {next : β → Async I α}
    (h : p.Decided G mid) (hok : ∀ b, mid (.ok b) → (next b).Decided G ends)
    (herror : ∀ e, mid (.error e) → ends (.error e)) : (p >>= next).Decided G ends := by
  refine h.andThen ?_
  intro result hresult
  cases result with
  | ok b => exact hok b hresult
  | error e => exact herror e hresult

theorem Gated.bind {mid : Except I.Error β → Prop} {p : Async I β} {next : β → Async I α}
    (h : p.Decided G mid) (hok : ∀ b, mid (.ok b) → (next b).Gated G E)
    (herror : ∀ e, mid (.error e) → E.refused (.error e)) : (p >>= next).Gated G E := by
  refine .after h ?_
  intro result hresult
  cases result with
  | ok b => exact hok b hresult
  | error e => exact herror e hresult

/-- A computation that meets no gate, before it. -/
theorem Gated.check {result : Except I.Error β} {b : β} {next : β → Async I α}
    (hresult : result = .ok b) (h : (next b).Gated G E) :
    (Async.ofExcept result >>= next).Gated G E := by
  subst hresult
  exact h

/-- What comes after it. -/
theorem Gated.andThen {E' : Ends I β} {p : Async I β} {next : Except I.Error β → Async I α}
    (h : p.Gated G E') (hadmitted : ∀ request result, G.asks request →
      E'.admitted request result → (next result).Decided G (E.admitted request))
    (hrefused : ∀ result, E'.refused result → (next result).Decided G E.refused) :
    (p.andThen next).Gated G E := by
  induction p with
  | done result => exact .of_decided (hrefused result h)
  | read k ih => exact fun s => ih s (h s)
  | write f p ih => exact h.elim
  | await request k ih =>
      obtain ⟨hgate, hother⟩ := h
      refine ⟨?_, ?_⟩
      · intro hisGate
        obtain ⟨hasks, hanswers⟩ := hgate hisGate
        refine ⟨hasks, ?_⟩
        intro answer
        refine ⟨?_, ?_⟩
        · intro hopens
          exact ((hanswers answer).1 hopens).andThen fun result => hadmitted request result hasks
        · intro hshut
          exact ((hanswers answer).2 hshut).andThen hrefused
      · intro hisGate answer hanswer
        exact ih answer (hother hisGate answer hanswer)

end Async

namespace Thread

variable {G : Gate I} {E : Ends I α} {ends : Except I.Error α → Prop}

/-- How far a decided call has come. -/
def Decided (G : Gate I) (ends : Except I.Error α → Prop) : Thread I α → Prop
  | .ready p => p.Decided G ends
  | .waiting request k => (Async.await request k).Decided G ends
  | .finished result => ends result

/-- How far a call has come that the gate has not let through. -/
def Gated (G : Gate I) (E : Ends I α) : Thread I α → Prop
  | .ready p => p.Gated G E
  | .waiting request k => (Async.await request k).Gated G E
  | .finished result => E.refused result

theorem decided_advance {p : Async I α} (h : p.Decided G ends) (s : I.State) :
    (p.advance s).1 = s ∧ (p.advance s).2.Decided G ends := by
  induction p generalizing s with
  | done result => exact ⟨rfl, h⟩
  | read k ih => exact ih s (h s) s
  | write f p ih => exact h.elim
  | await request k ih => exact ⟨rfl, h⟩

theorem gated_advance {p : Async I α} (h : p.Gated G E) (s : I.State) :
    (p.advance s).1 = s ∧ (p.advance s).2.Gated G E := by
  induction p generalizing s with
  | done result => exact ⟨rfl, h⟩
  | read k ih => exact ih s (h s) s
  | write f p ih => exact h.elim
  | await request k ih => exact ⟨rfl, h⟩

end Thread

/-- A program whose calls all pass a gate, and what admissions keep of the shared state:
`kept s log` speaks of the calls let through so far, oldest first. -/
structure Guards (program : Program I ι α) (G : ι → Gate I) (E : ι → Ends I α)
    (kept : I.State → List ι → Prop) : Prop where
  code : ∀ c, (program.code c).Gated (G c) (E c)
  permits : ∀ c request s answer s', program.serves c request s answer s' →
    (G c).permits request answer
  passes : ∀ c request s answer s' log, kept s log → c ∉ log →
    program.serves c request s answer s' → (G c).isGate request → (G c).asks request →
      (G c).opens request answer → kept s' (log ++ [c])
  serves : ∀ c request s answer s' log, kept s log →
    program.serves c request s answer s' →
      ((G c).isGate request → ¬ (G c).opens request answer) → kept s' log
  environment : ∀ s s' log, kept s log → program.environment s s' → kept s' log

/-- A call that the log names was let through; any other was not. -/
def Stands (G : ι → Gate I) (E : ι → Ends I α) (log : List ι) (c : ι)
    (thread : Thread I α) : Prop :=
  (c ∈ log ∧ ∃ request, (G c).asks request ∧ thread.Decided (G c) ((E c).admitted request)) ∨
    (c ∉ log ∧ thread.Gated (G c) (E c))

namespace Guards

variable {program : Program I ι α} {G : ι → Gate I} {E : ι → Ends I α}
  {kept : I.State → List ι → Prop} {config config' config'' : Config I ι α} {c : ι}

/-- What every step keeps. -/
structure Logged (G : ι → Gate I) (E : ι → Ends I α) (kept : I.State → List ι → Prop)
    (config : Config I ι α) (log : List ι) : Prop where
  kept : kept config.state log
  nodup : log.Nodup
  made : ∀ c ∈ log, config.calls c ≠ none
  stands : ∀ c activation, config.calls c = some activation → Stands G E log c activation.thread

/-- One call has moved, and the log holds the others as before. -/
theorem Logged.moved {log log' : List ι} (h : Logged G E kept config log) {s' : I.State}
    {activation : Activation I α} (hmoves : config.Moves c s' activation config')
    (hkept : kept s' log') (hnodup : log'.Nodup) (hothers : ∀ other, other ≠ c →
      (other ∈ log' ↔ other ∈ log)) (hstands : Stands G E log' c activation.thread) :
    Logged G E kept config' log' := by
  refine ⟨hmoves.state ▸ hkept, hnodup, ?_, ?_⟩
  · intro other hother
    by_cases hsame : other = c
    · subst hsame
      rw [hmoves.moved]
      nofun
    · rw [hmoves.others other hsame]
      exact h.made other ((hothers other hsame).mp hother)
  · intro other activation' hother
    by_cases hsame : other = c
    · subst hsame
      rw [hmoves.moved] at hother
      cases hother
      exact hstands
    · rw [hmoves.others other hsame] at hother
      simpa only [Stands, hothers other hsame] using h.stands other activation' hother

/-- The gate lets a waiting call through. -/
theorem Logged.concat (D : Guards program G E kept) {log : List ι} (h : Logged G E kept config log)
    {born : I.State} {request : I.Request}
    {k : Except I.Error (I.Answer request) → Async I α}
    {answer : Except I.Error (I.Answer request)} {s' : I.State}
    (hwaiting : config.calls c = some ⟨born, .waiting request k⟩)
    (hserves : program.serves c request config.state answer s')
    (hmoves : config.Moves c s' ⟨born, .ready (k answer)⟩ config')
    (hisGate : (G c).isGate request) (hopens : (G c).opens request answer) :
    Logged G E kept config' (log ++ [c]) := by
  cases h.stands c _ hwaiting with
  | inl hpassed =>
      obtain ⟨-, _, -, hshut, -⟩ := hpassed
      exact absurd hisGate hshut
  | inr hgated =>
      obtain ⟨hc, hgate, -⟩ := hgated
      obtain ⟨hasks, hanswers⟩ := hgate hisGate
      refine h.moved hmoves (D.passes c request _ answer s' log h.kept hc hserves hisGate
        hasks hopens) ?_ ?_ ?_
      · rw [List.nodup_append']
        exact ⟨h.nodup, List.nodup_singleton c, List.disjoint_singleton.mpr hc⟩
      · intro other hne
        simp [hne]
      · exact .inl ⟨by simp, request, hasks, (hanswers answer).1 hopens⟩

theorem Logged.step (D : Guards program G E kept) {log : List ι} (h : Logged G E kept config log)
    (hstep : program.Step config config') :
    ∃ log', log <+: log' ∧ Logged G E kept config' log' := by
  cases hstep with
  | @call _ c hnone hmoves =>
      have hfresh : c ∉ log := fun hc => h.made c hc hnone
      refine ⟨log, List.prefix_refl log, ?_⟩
      exact h.moved hmoves h.kept h.nodup (fun _ _ => Iff.rfl) (.inr ⟨hfresh, D.code c⟩)
  | @run _ c born p hready hmoves =>
      refine ⟨log, List.prefix_refl log, ?_⟩
      cases h.stands c _ hready with
      | inl hpassed =>
          obtain ⟨hc, request, hasks, hdecided⟩ := hpassed
          obtain ⟨hsame, hthread⟩ := Thread.decided_advance hdecided config.state
          exact h.moved hmoves (by rw [hsame]; exact h.kept) h.nodup (fun _ _ => Iff.rfl)
            (.inl ⟨hc, request, hasks, hthread⟩)
      | inr hgated =>
          obtain ⟨hc, hgated⟩ := hgated
          obtain ⟨hsame, hthread⟩ := Thread.gated_advance hgated config.state
          exact h.moved hmoves (by rw [hsame]; exact h.kept) h.nodup (fun _ _ => Iff.rfl)
            (.inr ⟨hc, hthread⟩)
  | @serve _ c born request k answer s' hwaiting hserves hmoves =>
      have hpermits := D.permits c request _ answer s' hserves
      cases h.stands c _ hwaiting with
      | inl hpassed =>
          obtain ⟨hc, asked, hasks, hshut, hrest⟩ := hpassed
          have hkept := D.serves c request _ answer s' log h.kept hserves
            fun hgate => absurd hgate hshut
          exact ⟨log, List.prefix_refl log, h.moved hmoves hkept h.nodup (fun _ _ => Iff.rfl)
            (.inl ⟨hc, asked, hasks, hrest answer hpermits⟩)⟩
      | inr hgated =>
          obtain ⟨hc, hgate, hother⟩ := hgated
          by_cases hopen : (G c).isGate request ∧ (G c).opens request answer
          · exact ⟨log ++ [c], List.prefix_append log [c],
              h.concat D hwaiting hserves hmoves hopen.1 hopen.2⟩
          · have hshut : (G c).isGate request → ¬ (G c).opens request answer :=
              fun hisGate hopens => hopen ⟨hisGate, hopens⟩
            refine ⟨log, List.prefix_refl log, ?_⟩
            refine h.moved hmoves (D.serves c request _ answer s' log h.kept hserves hshut)
              h.nodup (fun _ _ => Iff.rfl) (.inr ⟨hc, ?_⟩)
            by_cases hisGate : (G c).isGate request
            · exact .of_decided (((hgate hisGate).2 answer).2 (hshut hisGate))
            · exact hother hisGate answer hpermits
  | act henvironment =>
      exact ⟨log, List.prefix_refl log,
        D.environment _ _ log h.kept henvironment, h.nodup, h.made, h.stands⟩

theorem Logged.reaches (D : Guards program G E kept) (hreaches : program.Reaches config config')
    {log : List ι} (h : Logged G E kept config log) :
    ∃ log', log <+: log' ∧ Logged G E kept config' log' := by
  induction hreaches with
  | refl => exact ⟨log, List.prefix_refl log, h⟩
  | step _ hstep ih =>
      obtain ⟨log', hprefix, h'⟩ := ih
      obtain ⟨log'', hprefix', h''⟩ := h'.step D hstep
      exact ⟨log'', hprefix.trans hprefix', h''⟩

theorem logged_initial {s : I.State} (h : kept s []) :
    Logged G E kept (Program.initial s : Config I ι α) [] :=
  ⟨h, List.nodup_nil, nofun, nofun⟩

/-- A call that ended as no refused call does was let through. -/
theorem Logged.mem {log : List ι} (h : Logged G E kept config log) {born : I.State}
    {result : Except I.Error α} (hc : config.calls c = some ⟨born, .finished result⟩)
    (hresult : ¬ (E c).refused result) : c ∈ log := by
  cases h.stands c _ hc with
  | inl hpassed => exact hpassed.1
  | inr hgated => exact absurd hgated.2 hresult

/-- How a call ends that was let through. -/
theorem Logged.ends {log : List ι} (h : Logged G E kept config log) (hmem : c ∈ log)
    {born : I.State} {result : Except I.Error α}
    (hc : config.calls c = some ⟨born, .finished result⟩) :
    ∃ request, (G c).asks request ∧ (E c).admitted request result := by
  cases h.stands c _ hc with
  | inl hpassed => exact hpassed.2
  | inr hgated => exact absurd hmem hgated.1

/-- Only a call that the gate lets through changes what it keeps watch over. -/
theorem Logged.changed {δ : Type} (D : Guards program G E kept) (watched : I.State → δ)
    (hserves : ∀ c request s answer s', program.serves c request s answer s' →
      ((G c).isGate request → ¬ (G c).opens request answer) → watched s' = watched s)
    {log : List ι} (h : Logged G E kept config log) (hstep : program.Step config config')
    (hmoved : config'.calls c ≠ config.calls c)
    (hchanged : watched config'.state ≠ watched config.state) :
    ∃ log', c ∈ log' ∧ Logged G E kept config' log' := by
  cases hstep with
  | @call _ other hnone hmoves => exact absurd (congrArg watched hmoves.state) hchanged
  | @run _ other born p hready hmoves =>
      have hsame : (p.advance config.state).1 = config.state := by
        cases h.stands other _ hready with
        | inl hpassed =>
            obtain ⟨-, request, -, hdecided⟩ := hpassed
            exact (Thread.decided_advance hdecided config.state).1
        | inr hgated => exact (Thread.gated_advance hgated.2 config.state).1
      exact absurd (congrArg watched (hmoves.state.trans hsame)) hchanged
  | @serve _ other born request k answer s' hwaiting hserve hmoves =>
      have hother : c = other := by
        by_contra hne
        exact hmoved (hmoves.others c hne)
      subst hother
      have hopen : (G c).isGate request ∧ (G c).opens request answer := by
        by_contra hshut
        refine hchanged (hmoves.state ▸ hserves c request _ answer s' hserve ?_)
        exact fun hisGate hopens => hshut ⟨hisGate, hopens⟩
      exact ⟨log ++ [c], by simp, h.concat D hwaiting hserve hmoves hopen.1 hopen.2⟩
  | act _ => exact absurd rfl hmoved

end Guards

end Concurrency
