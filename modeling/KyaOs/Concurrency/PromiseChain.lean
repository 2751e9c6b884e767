import Mathlib.Data.List.Induction
import Mathlib.Data.List.Nodup
import Mathlib.Logic.Function.Basic
import Mathlib.Tactic.Basic

/-!
# A mutex of chained tasks

For each key a map holds the task that entered last. A new task on the key takes
that task as its predecessor, becomes the last itself, and starts once its
predecessor has settled, in success or failure. `Ordered` is what every run
keeps; from it follow mutual exclusion, that tasks on one key start in the order
they entered, and that a settled task holds up nobody.
-/

namespace PromiseChain

variable {κ : Type*}

inductive Stage where
  | waiting (predecessor : Option Nat)
  | running
  | settled

/-- The tasks in the order they entered, each with its key; the task that entered
last on each key; and how far each task has come. -/
structure Chain (κ : Type*) where
  entered : List (Nat × κ)
  last : κ → Option Nat
  stage : Nat → Option Stage

/-- A task may start: it waits for nobody, or for a task that has settled. -/
def Chain.MayStart (chain : Chain κ) (task : Nat) : Prop :=
  ∃ predecessor, chain.stage task = some (.waiting predecessor) ∧
    ∀ earlier, predecessor = some earlier → chain.stage earlier = some .settled

def Chain.setStage (chain : Chain κ) (task : Nat) (stage : Stage) : Chain κ :=
  { chain with stage := Function.update chain.stage task (some stage) }

variable [DecidableEq κ]

def Chain.enter (chain : Chain κ) (task : Nat) (key : κ) : Chain κ where
  entered := chain.entered ++ [(task, key)]
  last := Function.update chain.last key (some task)
  stage := Function.update chain.stage task (some (.waiting (chain.last key)))

inductive Chain.Step : Chain κ → Chain κ → Prop
  | enter {chain : Chain κ} {task : Nat} (key : κ) :
      chain.stage task = none → Step chain (chain.enter task key)
  | start {chain : Chain κ} {task : Nat} :
      chain.MayStart task → Step chain (chain.setStage task .running)
  | settle {chain : Chain κ} {task : Nat} :
      chain.stage task = some .running → Step chain (chain.setStage task .settled)

/-- The task that entered last on a key. -/
def lastOn (entered : List (Nat × κ)) (key : κ) : Option Nat :=
  ((entered.filter (·.2 = key)).getLast?).map (·.1)

/-- What every run of a chain keeps. -/
structure Chain.Ordered (chain : Chain κ) : Prop where
  last : ∀ key, chain.last key = lastOn chain.entered key
  nodup : (chain.entered.map (·.1)).Nodup
  known : ∀ task, (∃ key, (task, key) ∈ chain.entered) ↔ chain.stage task ≠ none
  predecessor : ∀ before task key after predecessor,
    chain.entered = before ++ (task, key) :: after →
      chain.stage task = some (.waiting predecessor) → predecessor = lastOn before key
  order : ∀ before task key after,
    chain.entered = before ++ (task, key) :: after →
      (chain.stage task = some .running ∨ chain.stage task = some .settled) →
        ∀ earlier, (earlier, key) ∈ before → chain.stage earlier = some .settled

variable {chain chain' : Chain κ}

theorem lastOn_concat (entered : List (Nat × κ)) (task : Nat) (key other : κ) :
    lastOn (entered ++ [(task, key)]) other =
      if key = other then some task else lastOn entered other := by
  by_cases h : key = other
  · simp [lastOn, List.filter_append, h]
  · simp [lastOn, List.filter_append, h]

/-- Everyone before the last task on a key entered before it. -/
theorem mem_of_lastOn {before : List (Nat × κ)} {key : κ} {earlier : Nat}
    (hmem : (earlier, key) ∈ before) :
    ∃ last, lastOn before key = some last ∧ ∃ front back,
      before = front ++ (last, key) :: back ∧ (earlier = last ∨ (earlier, key) ∈ front) := by
  induction before using List.reverseRecOn with
  | nil => cases hmem
  | append_singleton before entry ih =>
      obtain ⟨task, other⟩ := entry
      by_cases hkey : other = key
      · subst hkey
        refine ⟨task, by rw [lastOn_concat, if_pos rfl], before, [], rfl, ?_⟩
        rcases List.mem_append.mp hmem with hfront | hsame
        · exact .inr hfront
        · exact .inl (Prod.mk.inj (List.mem_singleton.mp hsame)).1
      · have hfront : (earlier, key) ∈ before := by
          rcases List.mem_append.mp hmem with hfront | hsame
          · exact hfront
          · exact (hkey (Prod.mk.inj (List.mem_singleton.mp hsame)).2.symm).elim
        obtain ⟨last, hlast, front, back, rfl, hcases⟩ := ih hfront
        exact ⟨last, by rw [lastOn_concat, if_neg hkey, hlast], front, back ++ [(task, other)],
          by simp, hcases⟩

/-- When a task may start, everyone who entered before it on its key has settled. -/
theorem Chain.Ordered.settled_before (h : chain.Ordered) {before after : List (Nat × κ)}
    {task : Nat} {key : κ} (hentered : chain.entered = before ++ (task, key) :: after)
    (hstart : chain.MayStart task) :
    ∀ earlier, (earlier, key) ∈ before → chain.stage earlier = some .settled := by
  obtain ⟨predecessor, hwaiting, hsettled⟩ := hstart
  intro earlier hmem
  obtain ⟨last, hlast, front, back, rfl, hcases⟩ := mem_of_lastOn hmem
  have hlastSettled := hsettled last
    ((h.predecessor _ _ _ _ predecessor hentered hwaiting).trans hlast)
  rcases hcases with rfl | hfront
  · exact hlastSettled
  · exact h.order front last key (back ++ (task, key) :: after) (by simp [hentered])
      (.inr hlastSettled) earlier hfront

theorem ordered_empty : (⟨[], fun _ => none, fun _ => none⟩ : Chain κ).Ordered where
  last := by simp [lastOn]
  nodup := by simp
  known := by simp
  predecessor := by simp
  order := by simp

/-- A later stage for a task that has entered. -/
theorem Chain.Ordered.setStage (h : chain.Ordered) {task : Nat} {old stage : Stage}
    (hold : chain.stage task = some old)
    (hwaiting : ∀ predecessor, stage ≠ .waiting predecessor)
    (hsettled : old = .settled → stage = .settled)
    (hbefore : ∀ before key after, chain.entered = before ++ (task, key) :: after →
      ∀ earlier, (earlier, key) ∈ before → chain.stage earlier = some .settled) :
    (chain.setStage task stage).Ordered where
  last := h.last
  nodup := h.nodup
  known := by
    intro other
    by_cases hsame : other = task
    · subst hsame
      simpa [Chain.setStage] using (h.known other).mpr (by simp [hold])
    · simpa [Chain.setStage, hsame] using h.known other
  predecessor := by
    intro before other key after predecessor hentered hother
    by_cases hsame : other = task
    · subst hsame
      simp only [Chain.setStage, Function.update_self, Option.some.injEq] at hother
      exact (hwaiting predecessor hother).elim
    · simp only [Chain.setStage, Function.update_of_ne hsame] at hother
      exact h.predecessor before other key after predecessor hentered hother
  order := by
    have hkept : ∀ other, chain.stage other = some .settled →
        (chain.setStage task stage).stage other = some .settled := by
      intro other hother
      by_cases hsame : other = task
      · subst hsame
        simp only [Chain.setStage, Function.update_self, Option.some.injEq]
        exact hsettled (Option.some.inj (hold.symm.trans hother))
      · simpa only [Chain.setStage, Function.update_of_ne hsame] using hother
    intro before other key after hentered hother earlier hmem
    by_cases hsame : other = task
    · subst hsame
      exact hkept earlier (hbefore before key after hentered earlier hmem)
    · simp only [Chain.setStage, Function.update_of_ne hsame] at hother
      exact hkept earlier (h.order before other key after hentered hother earlier hmem)

theorem Chain.Ordered.enter (h : chain.Ordered) {task : Nat} (key : κ)
    (hnew : chain.stage task = none) : (chain.enter task key).Ordered := by
  have hfresh : ∀ other, (task, other) ∉ chain.entered := fun other hmem =>
    (h.known task).mp ⟨other, hmem⟩ hnew
  have hsplit : ∀ before other key' after,
      chain.entered ++ [(task, key)] = before ++ (other, key') :: after →
        (other = task ∧ key' = key ∧ before = chain.entered) ∨
          (other ≠ task ∧ ∃ after', chain.entered = before ++ (other, key') :: after') := by
    intro before other key' after hentered
    rcases List.eq_nil_or_concat after with rfl | ⟨after', entry, rfl⟩
    · obtain ⟨hbefore, hentry⟩ := List.append_inj' hentered rfl
      obtain ⟨rfl, rfl⟩ := Prod.mk.inj (List.singleton_inj.mp hentry)
      exact .inl ⟨rfl, rfl, hbefore.symm⟩
    · rw [List.concat_eq_append, ← List.cons_append, ← List.append_assoc] at hentered
      obtain ⟨hold, -⟩ := List.append_inj' hentered rfl
      refine .inr ⟨?_, after', hold⟩
      rintro rfl
      exact hfresh key' (hold ▸ List.mem_append_right _ List.mem_cons_self)
  have hstage : ∀ other, other ≠ task → (chain.enter task key).stage other = chain.stage other :=
    fun other hne => Function.update_of_ne hne _ _
  have hother : ∀ {before after : List (Nat × κ)} {earlier : Nat} {key' : κ} {other : Nat},
      chain.entered = before ++ (other, key') :: after → (earlier, key') ∈ before →
        earlier ≠ task := by
    rintro before after earlier key' other hentered hmem rfl
    exact hfresh key' (hentered ▸ List.mem_append_left _ hmem)
  refine ⟨fun other => ?_, ?_, fun other => ?_, ?_, ?_⟩
  · simp only [Chain.enter, lastOn_concat]
    by_cases hkey : key = other
    · simp [hkey]
    · rw [if_neg hkey, Function.update_of_ne (Ne.symm hkey), h.last]
  · rw [Chain.enter, List.map_append, List.nodup_append']
    refine ⟨h.nodup, by simp, ?_⟩
    simp only [List.map_cons, List.map_nil, List.disjoint_singleton]
    intro hmem
    obtain ⟨⟨same, other⟩, hsame, rfl⟩ := List.mem_map.mp hmem
    exact hfresh other hsame
  · by_cases hsame : other = task
    · subst hsame
      simp only [Chain.enter, Function.update_self, ne_eq, reduceCtorEq, not_false_eq_true,
        iff_true]
      exact ⟨key, by simp⟩
    · rw [hstage other hsame, ← h.known other]
      simp [Chain.enter, hsame]
  · intro before other key' after predecessor hentered hwaiting
    rcases hsplit before other key' after hentered with ⟨rfl, rfl, rfl⟩ | ⟨hne, after', hold⟩
    · simp only [Chain.enter, Function.update_self, Option.some.injEq, Stage.waiting.injEq]
        at hwaiting
      rw [← hwaiting, h.last]
    · rw [hstage other hne] at hwaiting
      exact h.predecessor before other key' after' predecessor hold hwaiting
  · intro before other key' after hentered hstarted earlier hmem
    rcases hsplit before other key' after hentered with ⟨rfl, rfl, rfl⟩ | ⟨hne, after', hold⟩
    · simp [Chain.enter] at hstarted
    · rw [hstage other hne] at hstarted
      rw [hstage earlier (hother hold hmem)]
      exact h.order before other key' after' hold hstarted earlier hmem

theorem Chain.Ordered.step (h : chain.Ordered) (hstep : chain.Step chain') : chain'.Ordered := by
  cases hstep with
  | enter key hnew => exact h.enter key hnew
  | start hstart =>
      obtain ⟨predecessor, hwaiting, -⟩ := id hstart
      exact h.setStage hwaiting nofun nofun fun before key after hentered =>
        h.settled_before hentered hstart
  | settle hrunning =>
      exact h.setStage hrunning nofun (fun _ => rfl) fun before key after hentered =>
        h.order before _ key after hentered (.inl hrunning)

/-- While a task runs, everyone who entered after it on its key waits. -/
theorem Chain.Ordered.waiting_after (h : chain.Ordered) {before after : List (Nat × κ)}
    {task later : Nat} {key : κ} (hentered : chain.entered = before ++ (task, key) :: after)
    (hrunning : chain.stage task = some .running) (hlater : (later, key) ∈ after) :
    ∃ predecessor, chain.stage later = some (.waiting predecessor) := by
  obtain ⟨middle, back, rfl⟩ := List.append_of_mem hlater
  have hsettled : ∀ stage, chain.stage later = some stage →
      (stage = .running ∨ stage = .settled) → chain.stage task = some .settled := by
    intro stage hstage hstarted
    refine h.order (before ++ (task, key) :: middle) later key back (by simp [hentered]) ?_ task
      (by simp)
    rcases hstarted with rfl | rfl
    · exact .inl hstage
    · exact .inr hstage
  have hknown : chain.stage later ≠ none := (h.known later).mp ⟨key, by simp [hentered]⟩
  obtain ⟨stage, hstage⟩ := Option.ne_none_iff_exists'.mp hknown
  cases stage with
  | waiting predecessor => exact ⟨predecessor, hstage⟩
  | running =>
      have := hsettled .running hstage (.inl rfl)
      rw [hrunning] at this
      cases this
  | settled =>
      have := hsettled .settled hstage (.inr rfl)
      rw [hrunning] at this
      cases this

/-- Mutual exclusion: one task runs on a key. -/
theorem Chain.Ordered.running_unique (h : chain.Ordered) {a b : Nat} {key : κ}
    (ha : (a, key) ∈ chain.entered) (hb : (b, key) ∈ chain.entered)
    (harunning : chain.stage a = some .running) (hbrunning : chain.stage b = some .running) :
    a = b := by
  obtain ⟨before, after, hentered⟩ := List.append_of_mem ha
  rw [hentered] at hb
  rcases List.mem_append.mp hb with hbefore | hrest
  · have := h.order before a key after hentered (.inl harunning) b hbefore
    rw [hbrunning] at this
    cases this
  · rcases List.mem_cons.mp hrest with hsame | hafter
    · exact (Prod.mk.inj hsame).1.symm
    · obtain ⟨predecessor, hwaiting⟩ := h.waiting_after hentered harunning hafter
      rw [hbrunning] at hwaiting
      cases hwaiting

/-- A task whose elders on its key have all settled, however they ended, has
settled too, runs, or may start. -/
theorem Chain.Ordered.not_blocked (h : chain.Ordered) {before after : List (Nat × κ)}
    {task : Nat} {key : κ} (hentered : chain.entered = before ++ (task, key) :: after)
    (hsettled : ∀ earlier, (earlier, key) ∈ before → chain.stage earlier = some .settled) :
    chain.stage task = some .settled ∨ chain.stage task = some .running ∨
      chain.MayStart task := by
  have hknown : chain.stage task ≠ none := (h.known task).mp ⟨key, by simp [hentered]⟩
  obtain ⟨stage, hstage⟩ := Option.ne_none_iff_exists'.mp hknown
  cases stage with
  | settled => exact .inl hstage
  | running => exact .inr (.inl hstage)
  | waiting predecessor =>
      refine .inr (.inr ⟨predecessor, hstage, fun earlier hearlier => ?_⟩)
      have hlast := h.predecessor before task key after predecessor hentered hstage
      rw [hearlier] at hlast
      obtain ⟨entry, hentry, hfst⟩ := Option.map_eq_some_iff.mp hlast.symm
      have hmem := List.mem_filter.mp (List.mem_of_getLast? hentry)
      refine hsettled earlier ?_
      have : entry = (earlier, key) := Prod.ext hfst (by simpa using hmem.2)
      exact this ▸ hmem.1

end PromiseChain
