import Disruptor.Dsl.Visibility
import Disruptor.EventProcessor.Advance

/-!
# `shutdown(timeoutMillis)`

The loop of `shutdown(timeoutMillis)` looks at the clock each time that `hasBacklog()` has found a
backlog, and throws a `TimeoutException` once the deadline has passed. It throws before it halts
anything: the consumers go on, and the program may publish and shut down again.
-/

namespace Disruptor.BatchEventProcessor

variable {ι : Type*}

/-- `processEvents` has found no alert and has not ended. -/
def Pc.InLoop : Pc → Prop
  | .alerted | .exited _ => False
  | _ => True

/-- The thread of the processor is on its way into the loop of `processEvents`, or in it. -/
def RunPc.Live (f : Fields) : RunPc ι → Prop
  | .enterRun => f.running = .IDLE ∧ f.alerted = false
  | .clearAlert | .notifyStart | .checkRunning => f.running = .RUNNING ∧ f.alerted = false
  | .processEvents s _ => f.running = .RUNNING ∧ f.alerted = false ∧ s.pc.InLoop
  | _ => False

variable {view : WaitView ι} {f : Fields} {pc : RunPc ι}

/-- A thread that goes round its loop is in it. -/
lemma RunPc.Turns.live (h : pc.Turns view f) : pc.Live f := by
  cases pc with
  | processEvents s call =>
    obtain ⟨hrunning, halerted, hturns, -⟩ := h
    refine ⟨hrunning, halerted, ?_⟩
    rw [State.Turns] at hturns
    revert hturns
    cases s.pc <;> simp [State.TurnsAt, Pc.InLoop]
  | enterRun | clearAlert | notifyStart | checkRunning => exact h
  | _ => exact h.elim

end Disruptor.BatchEventProcessor

namespace Disruptor.Dsl

open Disruptor.Core BatchEventProcessor

variable {H X P : Type}

/-- The system, with what the main thread knows of the call of `shutdown(timeoutMillis)` that it is
in. -/
structure TimedState (H X P : Type) where
  config : Config H X P
  deadline : Int := -1
  /-- `hasBacklog()` has returned true, and the loop has not yet looked at the clock. -/
  backlogFound : Bool := false

/-- A step of the system, or one of `shutdown(timeoutMillis)` that reads the clock. -/
inductive TimedLabel (H X P : Type) where
  | step (label : Label H X P)
  | shutdown (timeoutMillis currentTimeMillis : Int)
  /-- The body of the loop. -/
  | checkDeadline (currentTimeMillis : Int)

namespace TimedState

variable [DecidableEq X] [DecidableEq P]

/-- The call throws: the main thread is back in the program. -/
def throwTimeout (t : TimedState H X P) : TimedState H X P :=
  { config :=
      ⟨t.config.shared, Function.update t.config.threads .main
        { pc := .client .idle, groups := Main.groups (t.config.threads .main) }⟩ }

variable [DecidableEq H]

/-- One step. `shutdown()` is `shutdown(-1)`. -/
def step (processor : Nat → BatchEventProcessor) (waitStrategy : WaitStrategy)
    (t : TimedState H X P) : TimedLabel H X P → Option (TimedState H X P)
  | .step ⟨.main, .shutdown⟩ => none
  | .step ⟨.main, a⟩ =>
    if t.backlogFound then none
    else
      ((system H X P processor waitStrategy).next t.config ⟨.main, a⟩).map fun c =>
        { t with
          config := c
          backlogFound :=
            match mainPc t.config, mainPc c with
            | .checkSequence _ _ _, .hasBacklog => true
            | _, _ => false }
  | .step label =>
    ((system H X P processor waitStrategy).next t.config label).map fun c => { t with config := c }
  | .shutdown timeoutMillis currentTimeMillis =>
    ((system H X P processor waitStrategy).next t.config ⟨.main, .shutdown⟩).map fun c =>
      { config := c
        deadline := if timeoutMillis < 0 then -1 else currentTimeMillis + timeoutMillis }
  | .checkDeadline currentTimeMillis =>
    if t.backlogFound then
      if t.deadline ≥ 0 ∧ currentTimeMillis ≥ t.deadline then some t.throwTimeout
      else some { t with backlogFound := false }
    else none

end TimedState

/-- Before the first call of the main thread. -/
def timedInitial (H X P : Type) (producerType : ProducerType) (b : BufferSize) : TimedState H X P :=
  { config := initial H X P producerType b }

/-! ### No consumer is halted before the backlog is gone -/

/-- The threads of the consumers are in their loops. -/
def AllLive (c : Config H X P) : Prop :=
  ∀ k, (processorPc c k).Live (c.shared.disruptor.processors k)

/-- They go round them, and have found no alert. -/
def AllTurn (c : Config H X P) : Prop :=
  ∀ k, (processorPc c k).Turns (c.shared.view k) (c.shared.disruptor.processors k)

lemma AllTurn.live {c : Config H X P} (h : AllTurn c) : AllLive c := fun k => (h k).live

variable [DecidableEq H] [DecidableEq X] {s s' : Shared H X}

/-- Building halts nobody. -/
lemma kept_running (running : Nat → Running) (alerted : Nat → Bool) :
    Kept fun d : Disruptor H X => ∀ k, (d.processors k).running = running k ∧
      (d.processors k).alerted = alerted k where
  createOne := by
    intro d barrierSequences c hd
    cases c <;> exact hd
  addGatingSequences := fun d sequences hd => hd
  removeGatingSequence := fun d sequence hd => hd
  repository := fun d r hd => hd

omit [DecidableEq H] [DecidableEq X] in
/-- `shutdown()` changes no processor before it halts them. -/
lemma lifecycleStep_beforeHalt {pc pc' : MainPc X} (hs : lifecycleStep s pc = some (s', pc')) :
    (pc.PastBacklog → pc'.PastBacklog) ∧
      (¬ pc.PastBacklog → s'.disruptor.processors = s.disruptor.processors) := by
  unfold lifecycleStep at hs
  split at hs
  case h_5 | h_6 =>
    split_ifs at hs <;> obtain ⟨rfl, rfl⟩ := Prod.mk.inj (Option.some.inj hs) <;>
      simp [MainPc.PastBacklog]
  case h_8 =>
    split at hs <;> obtain ⟨rfl, rfl⟩ := Prod.mk.inj (Option.some.inj hs) <;>
      simp [MainPc.PastBacklog]
  case h_10 => cases hs
  all_goals
    obtain ⟨rfl, rfl⟩ := Prod.mk.inj (Option.some.inj hs)
    simp [MainPc.PastBacklog]

variable [DecidableEq P] {processor : Nat → BatchEventProcessor} {waitStrategy : WaitStrategy}
  {c c' : Config H X P}

/-- What the main thread does to the processors before it halts them. -/
lemma main_next_processors {a : MainAction H X}
    (hs : (system H X P processor waitStrategy).next c ⟨.main, a⟩ = some c')
    (hpast : ¬ (mainPc c').PastBacklog) :
    ¬ (mainPc c).PastBacklog ∧ ∀ k,
      (c'.shared.disruptor.processors k).running = (c.shared.disruptor.processors k).running ∧
      (c'.shared.disruptor.processors k).alerted = (c.shared.disruptor.processors k).alerted := by
  have hpc : (∃ cl, mainPc c = .client cl) → ¬ (mainPc c).PastBacklog := by
    rintro ⟨cl, hcl⟩
    rw [hcl]
    exact id
  rcases main_next_cases hs with ⟨call, l', -, hidle, -, hbuild⟩ |
    ⟨ca, cl, cl', -, hclient, -, hstep⟩ | ⟨rfl, heq, -⟩ | ⟨rfl, heq, -⟩ | ⟨-, hlifecycle⟩
  · refine ⟨hpc ⟨_, hidle⟩, ?_⟩
    obtain ⟨-, -, ⟨heq, -⟩ | ⟨d, group, hperform, heq⟩⟩ := buildStep_eq hbuild
    · simp [heq]
    · rw [heq]
      exact (kept_running _ _).perform (fun _ => ⟨rfl, rfl⟩) hperform
  · refine ⟨hpc ⟨_, hclient⟩, ?_⟩
    obtain ⟨q, granted, published, heq⟩ := clientStep_frame hstep
    simp [heq, Shared.setSequencer]
  · refine ⟨hpc ⟨_, main_next_idle (Or.inl rfl) hs⟩, ?_⟩
    rw [heq]
    unfold Shared.start
    split_ifs <;> simp
  · refine ⟨hpc ⟨_, main_next_idle (Or.inr rfl) hs⟩, ?_⟩
    simp [heq]
  · obtain ⟨hkeeps, hsame⟩ := lifecycleStep_beforeHalt hlifecycle
    have hnot : ¬ (mainPc c).PastBacklog := fun hp => hpast (hkeeps hp)
    refine ⟨hnot, ?_⟩
    simp [hsame hnot]

/-- The step is one of the thread of the `k`-th processor, or changes neither its fields nor its
place. -/
lemma processor_of_next {t : Thread P X} {a : Action H X t} (ht : t ≠ .main) (k : Nat)
    (hs : (system H X P processor waitStrategy).next c ⟨t, a⟩ = some c') :
    (∃ own : RunAction, (⟨t, a⟩ : Label H X P) = ⟨.processor k, own⟩ ∧
      runStep (processor k) (c.shared.barrier waitStrategy k) (c.shared.view k)
        (c.shared.disruptor.processors k) (processorPc c k) own =
          some (c'.shared.disruptor.processors k, processorPc c' k)) ∨
    t ≠ .processor k ∧ c'.shared.disruptor.processors k = c.shared.disruptor.processors k ∧
      processorPc c' k = processorPc c k := by
  obtain ⟨s', l', hstep, rfl⟩ := (ThreadPool.next_eq_some _).mp hs
  have hpc : t ≠ .processor k →
      processorPc (H := H) ⟨s', Function.update c.threads t l'⟩ k = processorPc c k :=
    fun hne => processorPc_update_of_ne (Ne.symm hne) _ _ _
  cases t with
  | main => exact absurd rfl ht
  | producer p =>
    obtain ⟨q, granted, published, rfl⟩ := clientStep_frame (producerStep_eq hstep).2.2
    exact Or.inr ⟨by simp, rfl, hpc (by simp)⟩
  | processor j =>
    obtain ⟨-, f, hrun, rfl⟩ := processorStep_eq hstep
    by_cases hk : k = j
    · subst hk
      refine Or.inl ⟨a, rfl, ?_⟩
      rw [processorPc_update_self]
      simp only [Shared.setProcessor, Function.update_self]
      exact hrun
    · have hne : (.processor j : Thread P X) ≠ .processor k := by simpa using Ne.symm hk
      refine Or.inr ⟨hne, ?_, hpc hne⟩
      simp only [Shared.setProcessor, Function.update_of_ne hk]
  | custom x =>
    simp only [system, Option.map_eq_some_iff] at hstep
    obtain ⟨s₁, hcustom, heq⟩ := hstep
    obtain ⟨rfl, -⟩ := Prod.mk.inj heq
    obtain ⟨-, ⟨value, rfl, -⟩ | ⟨running, rfl⟩⟩ := customStep_eq hcustom <;>
      exact Or.inr ⟨by simp, rfl, hpc (by simp)⟩

/-- What is known of the processors before the backlog is gone, when it depends on `running_` and
the alert alone and the steps of their own threads keep it. -/
lemma processors_of_next {Q : Nat → Fields → RunPc (ProcessorId X) → Prop}
    (hfields : ∀ {k f f' pc}, Q k f pc → f'.running = f.running ∧ f'.alerted = f.alerted →
      Q k f' pc) {a : Label H X P}
    (hs : (system H X P processor waitStrategy).next c a = some c')
    (hown : ∀ k (own : RunAction) f' pc', a = ⟨.processor k, own⟩ →
      Q k (c.shared.disruptor.processors k) (processorPc c k) →
      runStep (processor k) (c.shared.barrier waitStrategy k) (c.shared.view k)
        (c.shared.disruptor.processors k) (processorPc c k) own = some (f', pc') → Q k f' pc')
    (h : ¬ (mainPc c).PastBacklog →
      ∀ k, Q k (c.shared.disruptor.processors k) (processorPc c k))
    (hpast : ¬ (mainPc c').PastBacklog) :
    ∀ k, Q k (c'.shared.disruptor.processors k) (processorPc c' k) := by
  obtain ⟨t, a⟩ := a
  by_cases ht : t = .main
  · subst ht
    obtain ⟨hnot, hsame⟩ := main_next_processors hs hpast
    intro k
    have hpc : processorPc c' k = processorPc c k := by
      obtain ⟨s', l', -, rfl⟩ := (ThreadPool.next_eq_some _).mp hs
      exact processorPc_update_of_ne (by simp) _ _ _
    rw [hpc]
    exact hfields (h hnot k) (hsame k)
  · have hmain : mainPc c' = mainPc c := by
      obtain ⟨s', l', -, rfl⟩ := (ThreadPool.next_eq_some _).mp hs
      exact mainPc_update_of_ne ht _ _ _
    rw [hmain] at hpast
    intro k
    obtain ⟨own, heq, hrun⟩ | ⟨-, hfields, hpc⟩ := processor_of_next ht k hs
    · exact hown k own _ _ heq (h hpast k) hrun
    · rw [hfields, hpc]
      exact h hpast k

omit [DecidableEq H] [DecidableEq X] [DecidableEq P] in
lemma clientStep_available {cl cl' : Client X} {a : ClientAction}
    (hs : clientStep s cl a = some (s', cl')) :
    s'.sequencer.available.isSome = s.sequencer.available.isSome := by
  unfold Dsl.clientStep at hs
  split at hs
  · split_ifs at hs
    obtain ⟨rfl, -⟩ := Prod.mk.inj (Option.some.inj hs)
    show (s.sequencer.enter _).2.available.isSome = _
    cases s.sequencer <;> simp [Sequencer.enter, Sequencer.available]
  · rename_i call spurious
    simp only [Option.map_eq_some_iff] at hs
    obtain ⟨r, hcall, heq⟩ := hs
    obtain ⟨rfl, -⟩ := Prod.mk.inj heq
    show r.2.available.isSome = _
    revert hcall
    cases s.sequencer <;> cases call <;> rintro ⟨⟩ <;> simp [Sequencer.available]
  · split_ifs at hs <;> obtain ⟨rfl, -⟩ := Prod.mk.inj (Option.some.inj hs) <;> rfl
  · obtain ⟨rfl, -⟩ := Prod.mk.inj (Option.some.inj hs)
    show (s.sequencer.publishStep _ _).1.available.isSome = _
    cases s.sequencer <;> simp [Sequencer.publishStep, Sequencer.available]
  · cases hs

/-- A sequencer keeps its kind. -/
lemma available_of_next {a : Label H X P}
    (hs : (system H X P processor waitStrategy).next c a = some c') :
    c'.shared.sequencer.available.isSome = c.shared.sequencer.available.isSome := by
  obtain ⟨t, a⟩ := a
  cases t with
  | main =>
    rcases main_next_cases hs with ⟨call, l', -, -, -, hbuild⟩ | ⟨ca, cl, cl', -, -, -, hclient⟩ |
      ⟨-, heq, -⟩ | ⟨-, heq, -⟩ | ⟨-, hlifecycle⟩
    · obtain ⟨-, -, ⟨heq, -⟩ | ⟨d, group, hperform, heq⟩⟩ := buildStep_eq hbuild
      · rw [heq]
      · have hd : Built c.shared.disruptor d :=
          (kept_built _).perform ⟨rfl, rfl, rfl, rfl, fun _ => id, fun _ => Or.inl rfl⟩ hperform
        rw [heq]
        exact hd.available
    · exact clientStep_available hclient
    · rw [heq]
      unfold Shared.start
      split_ifs <;> rfl
    · rw [heq]
      rfl
    · rw [(lifecycleStep_keeps hlifecycle).1]
  | producer p =>
    obtain ⟨s', l', hstep, rfl⟩ := (ThreadPool.next_eq_some _).mp hs
    exact clientStep_available (producerStep_eq hstep).2.2
  | processor k =>
    obtain ⟨s', pc', hstep, rfl⟩ := (ThreadPool.next_eq_some _).mp hs
    obtain ⟨-, f, -, rfl⟩ := processorStep_eq hstep
    rfl
  | custom y =>
    obtain ⟨s', l', hstep, rfl⟩ := (ThreadPool.next_eq_some _).mp hs
    simp only [system, Option.map_eq_some_iff] at hstep
    obtain ⟨s₁, hcustom, heq⟩ := hstep
    obtain ⟨rfl, -⟩ := Prod.mk.inj heq
    obtain ⟨-, ⟨value, rfl, -⟩ | ⟨running, rfl⟩⟩ := customStep_eq hcustom <;> rfl

/-- While no handler throws, no step before the backlog is gone halts a consumer. -/
lemma allTurn_next {a : Label H X P} (hturns : ¬ (mainPc c).PastBacklog → AllTurn c)
    (hs : (system H X P processor waitStrategy).next c a = some c')
    (hreturns : ∀ k i, a = ⟨.processor k, .input i⟩ → ¬ i.Throws)
    (hpast : ¬ (mainPc c').PastBacklog) : AllTurn c' := by
  intro k
  have hkept := processors_of_next (Q := fun k f pc => pc.Turns (c.shared.view k) f)
    (fun hk hf => hk.of_fields hf.1 hf.2 rfl) hs ?_ hturns hpast k
  · exact hkept.of_fields rfl rfl (available_of_next hs)
  · rintro j own f' pc' rfl hj hrun
    refine runStep_turns hj rfl ?_ hrun
    rintro i rfl
    exact hreturns j i rfl

/-! ### The calls -/

namespace TimedState

variable {t t' : TimedState H X P} {label : TimedLabel H X P}

/-- What a step does. -/
lemma step_cases (hs : t.step processor waitStrategy label = some t') :
    (∃ a, label = .step a ∧ a ≠ ⟨.main, .shutdown⟩ ∧
      (system H X P processor waitStrategy).next t.config a = some t'.config ∧
      (t'.backlogFound = true → mainPc t'.config = .hasBacklog ∨
        a.1 ≠ .main ∧ t.backlogFound = true)) ∨
    (∃ timeoutMillis currentTimeMillis, label = .shutdown timeoutMillis currentTimeMillis ∧
      (system H X P processor waitStrategy).next t.config ⟨.main, .shutdown⟩ = some t'.config ∧
      t'.backlogFound = false) ∨
    ∃ currentTimeMillis, label = .checkDeadline currentTimeMillis ∧ t.backlogFound = true ∧
      (0 ≤ t.deadline ∧ t.deadline ≤ currentTimeMillis ∧ t' = t.throwTimeout ∨
        t' = { t with backlogFound := false }) := by
  unfold step at hs
  split at hs
  · cases hs
  · rename_i a hne
    split_ifs at hs
    simp only [Option.map_eq_some_iff] at hs
    obtain ⟨c, hnext, rfl⟩ := hs
    refine Or.inl ⟨_, rfl, ?_, hnext, ?_⟩
    · intro heq
      obtain rfl : a = .shutdown := eq_of_heq (Sigma.mk.inj heq).2
      exact hne rfl
    · intro hfound
      simp only at hfound
      split at hfound
      · rename_i hpc
        exact Or.inl hpc
      · cases hfound
  · rename_i a hnot hmain
    simp only [Option.map_eq_some_iff] at hs
    obtain ⟨c, hnext, rfl⟩ := hs
    obtain ⟨u, act⟩ := a
    refine Or.inl ⟨_, rfl, fun heq => hnot (by rw [heq]), hnext, ?_⟩
    intro hfound
    refine Or.inr ⟨?_, hfound⟩
    rintro rfl
    exact hmain act rfl
  · simp only [Option.map_eq_some_iff] at hs
    obtain ⟨c, hnext, rfl⟩ := hs
    exact Or.inr (Or.inl ⟨_, _, rfl, hnext, rfl⟩)
  · rename_i now
    split_ifs at hs with hfound hdeadline
    · obtain rfl := Option.some.inj hs
      exact Or.inr (Or.inr ⟨now, rfl, hfound, Or.inl ⟨hdeadline.1, hdeadline.2, rfl⟩⟩)
    · obtain rfl := Option.some.inj hs
      exact Or.inr (Or.inr ⟨now, rfl, hfound, Or.inr rfl⟩)

/-- The program publishes, and shuts down, after `start()`, no handler throws, no call chains zero
consumers after a group, and `hasBacklog()` skips no consumer that has a backlog. -/
def Meets (x : Transition (TimedState H X P) (TimedLabel H X P)) : Prop :=
  (∀ a, x.act = .step a → Graceful ⟨x.pre.config, a, x.post.config⟩ ∧
    ChainsConsumers ⟨x.pre.config, a, x.post.config⟩ ∧
      NoneSkipped ⟨x.pre.config, a, x.post.config⟩) ∧
  ∀ timeoutMillis currentTimeMillis, x.act = .shutdown timeoutMillis currentTimeMillis →
    x.pre.config.shared.disruptor.started = true

/-- What holds before and after every step. -/
structure Inv (processor : Nat → BatchEventProcessor) (waitStrategy : WaitStrategy)
    (t : TimedState H X P) : Prop where
  drain : DrainInv processor waitStrategy t.config
  found : t.backlogFound = true → mainPc t.config = .hasBacklog
  turns : ¬ (mainPc t.config).PastBacklog → AllTurn t.config

omit [DecidableEq H] in
@[simp] lemma throwTimeout_shared (t : TimedState H X P) :
    t.throwTimeout.config.shared = t.config.shared := rfl

omit [DecidableEq H] in
@[simp] lemma throwTimeout_mainPc (t : TimedState H X P) :
    mainPc t.throwTimeout.config = .client .idle :=
  mainPc_update_main _ _ _

omit [DecidableEq H] in
@[simp] lemma throwTimeout_processorPc (t : TimedState H X P) (k : Nat) :
    processorPc t.throwTimeout.config k = processorPc t.config k :=
  processorPc_update_of_ne (by simp) _ _ _

/-- A call that throws leaves everything that was established before it. -/
lemma Inv.throwTimeout (h : Inv processor waitStrategy t) (hfound : t.backlogFound = true) :
    Inv processor waitStrategy t.throwTimeout := by
  obtain ⟨hdrain, hpc, hturns⟩ := h
  have hstarted : t.config.shared.disruptor.started = true := by
    have hbacklog := hdrain.backlog
    rw [hpc hfound] at hbacklog
    exact hbacklog.1
  constructor
  · refine ⟨hdrain.holds.update trivial, hdrain.anchored, ?_, ?_, hdrain.startValues, ?_⟩
    · intro k
      rw [throwTimeout_processorPc]
      exact hdrain.quiet k
    · intro hf
      exact absurd (hf.symm.trans hstarted) (by simp)
    · rw [throwTimeout_mainPc]
      trivial
  · rintro ⟨⟩
  · intro _ k
    rw [throwTimeout_processorPc]
    refine hturns ?_ k
    rw [hpc hfound]
    exact id

/-- Every step keeps the invariant. -/
lemma Inv.step (h : Inv processor waitStrategy t)
    (hs : t.step processor waitStrategy label = some t') (hmeets : Meets ⟨t, label, t'⟩) :
    Inv processor waitStrategy t' := by
  rcases step_cases hs with ⟨a, rfl, -, hnext, hfound⟩ | ⟨timeout, now, rfl, hnext, hnone⟩ |
    ⟨now, rfl, hfound, ⟨-, -, rfl⟩ | rfl⟩
  · obtain ⟨hgraceful, hchains, hskip⟩ := hmeets.1 a rfl
    refine ⟨h.drain.next hnext hgraceful hchains hskip, ?_,
      allTurn_next h.turns hnext hgraceful.2.2⟩
    intro hset
    rcases hfound hset with hpc | ⟨hne, hold⟩
    · exact hpc
    · obtain ⟨s', l', -, heq⟩ := (ThreadPool.next_eq_some _).mp hnext
      rw [heq, mainPc_update_of_ne hne]
      exact h.found hold
  · have hgraceful : Graceful ⟨t.config, ⟨.main, .shutdown⟩, t'.config⟩ :=
      ⟨by rintro op ⟨⟩, fun _ => hmeets.2 timeout now rfl, by rintro k i ⟨⟩⟩
    refine ⟨h.drain.next hnext hgraceful (by rintro call ⟨⟩) (by rintro cursor info rest ⟨⟩), ?_,
      allTurn_next h.turns hnext hgraceful.2.2⟩
    intro hset
    rw [hnone] at hset
    cases hset
  · exact h.throwTimeout hfound
  · exact ⟨h.drain, by rintro ⟨⟩, h.turns⟩

omit [DecidableEq P] in
lemma inv_initial (producerType : ProducerType) (b : BufferSize) :
    Inv processor waitStrategy (timedInitial H X P producerType b) :=
  ⟨drainInv_initial producerType b, by rintro ⟨⟩, fun _ _ => ⟨rfl, rfl⟩⟩

/-- The call of `shutdown(timeoutMillis)` throws in this step. -/
def TimesOut (x : Transition (TimedState H X P) (TimedLabel H X P)) : Prop :=
  ∃ currentTimeMillis, x.act = .checkDeadline currentTimeMillis ∧
    mainPc x.post.config = .client .idle

/-- A call that throws does so at its deadline or later, changes nothing that the threads share,
and leaves every consumer in its loop. -/
def TimesOutSafely (x : Transition (TimedState H X P) (TimedLabel H X P)) : Prop :=
  TimesOut x → x.post.config.shared = x.pre.config.shared ∧ AllLive x.post.config ∧
    ∃ currentTimeMillis, x.act = .checkDeadline currentTimeMillis ∧ 0 ≤ x.pre.deadline ∧
      x.pre.deadline ≤ currentTimeMillis

lemma Inv.timesOutSafely (h : Inv processor waitStrategy t)
    (hs : t.step processor waitStrategy label = some t')
    (h' : Inv processor waitStrategy t') : TimesOutSafely ⟨t, label, t'⟩ := by
  rintro ⟨now, hact, hidle⟩
  obtain rfl : label = .checkDeadline now := hact
  rcases step_cases hs with ⟨a, ⟨⟩, -⟩ | ⟨timeout, now, ⟨⟩, -⟩ | ⟨now', heq, hfound, hcase⟩
  obtain rfl : now' = now := (TimedLabel.checkDeadline.inj heq).symm
  rcases hcase with ⟨hdeadline, hle, rfl⟩ | rfl
  · refine ⟨rfl, (h'.turns ?_).live, now', rfl, hdeadline, hle⟩
    rw [throwTimeout_mainPc]
    exact id
  · have hpc : mainPc t.config = .client .idle := hidle
    rw [h.found hfound] at hpc
    cases hpc

/-- In every graceful run in which no call chains zero consumers after a group, and `hasBacklog()`
skips no consumer that has a backlog because its thread has not entered `run()` yet: a program may
shut down with timeouts, and try again after a `TimeoutException`, as often as it likes. When the
loop of a call has found no backlog, every consumer has processed what was published before that
call, and a call that throws halts no consumer and changes nothing. -/
theorem timedShutdown_drains {producerType : ProducerType} {b : BufferSize}
    {as : List (TimedLabel H X P)}
    (hsteps : ∀ x ∈ transitions (TimedState.step processor waitStrategy)
      (timedInitial H X P producerType b) as, Meets x) :
    ∀ x ∈ transitions (TimedState.step processor waitStrategy)
      (timedInitial H X P producerType b) as, AllProcessed x.post.config ∧ TimesOutSafely x := by
  intro x hx
  obtain ⟨hpre, hpost⟩ := transitions_invariant (Inv processor waitStrategy) Meets
    (fun _ _ _ h hs hmeets => h.step hs hmeets) (inv_initial producerType b) hsteps x hx
  exact ⟨hpost.drain.allProcessed, hpre.timesOutSafely (mem_transitions hx).2 hpost⟩

/-- The conditions on a step, evaluated. -/
def meets (x : Transition (TimedState H X P) (TimedLabel H X P)) : Bool :=
  match x.act with
  | .step a => meetsConditions ⟨x.pre.config, a, x.post.config⟩ false
  | .shutdown _ _ => x.pre.config.shared.disruptor.started
  | .checkDeadline _ => true

omit [DecidableEq H] [DecidableEq X] [DecidableEq P] in
lemma meets_sound {x : Transition (TimedState H X P) (TimedLabel H X P)} (h : meets x = true) :
    Meets x := by
  obtain ⟨pre, act, post⟩ := x
  constructor
  · rintro a ⟨⟩
    obtain ⟨hgraceful, hchains, hskip⟩ := meetsConditions_sound h
    exact ⟨hgraceful, hchains, hskip rfl⟩
  · rintro timeout now ⟨⟩
    exact h

end TimedState

/-- An event is published, and the thread of its handler enters `run()`. -/
def publishAndRun : List (Label Bool Empty Empty) :=
  [⟨.main, .build (.handleEventsWith [.handler false])⟩, ⟨.main, .start⟩, ⟨.main, .proceed⟩,
    ⟨.main, .proceed⟩, ⟨.main, .client (.claim (.next 1))⟩, ⟨.main, .client (.translate true)⟩,
    ⟨.main, .client (.proceed false)⟩, ⟨.processor 0, .proceed⟩]

/-- The handler is given the event. -/
def handleEvent : List (Label Bool Empty Empty) :=
  List.replicate 3 ⟨.processor 0, .proceed⟩ ++
    List.replicate 2 ⟨.processor 0, .wait .proceed⟩ ++
    [⟨.processor 0, .input (.onBatchStart none)⟩, ⟨.processor 0, .input (.onEvent none)⟩,
      ⟨.processor 0, .input .endOfBatch⟩]

/-- A call with a timeout finds a backlog at its deadline, the handler then processes its event,
and another call finds no backlog. -/
def timesOutFirst : List (TimedLabel Bool Empty Empty) :=
  publishAndRun.map .step ++ [.shutdown 5 100] ++ List.replicate 3 (.step ⟨.main, .proceed⟩) ++
  [.checkDeadline 105] ++ handleEvent.map .step ++ [.shutdown (-1) 200] ++
  List.replicate 4 (.step ⟨.main, .proceed⟩)

theorem timedShutdown_drains_timesOutFirst :
    ∃ x y, (transitions (TimedState.step (fun _ => ⟨9, .NoRewindHandler, by decide⟩) .BusySpin)
        (timedInitial Bool Empty Empty .SINGLE ⟨1, by decide⟩) timesOutFirst)[12]? = some x ∧
      (transitions (TimedState.step (fun _ => ⟨9, .NoRewindHandler, by decide⟩) .BusySpin)
        (timedInitial Bool Empty Empty .SINGLE ⟨1, by decide⟩) timesOutFirst)[25]? = some y ∧
      TimedState.TimesOut x ∧ AllLive x.post.config ∧ (mainPc y.post.config).PastBacklog ∧
      AllProcessed y.post.config := by
  have hall : (transitions (TimedState.step (fun _ => ⟨9, .NoRewindHandler, by decide⟩) .BusySpin)
      (timedInitial Bool Empty Empty .SINGLE ⟨1, by decide⟩) timesOutFirst).all
        TimedState.meets = true := rfl
  have hmeets := fun x hx => TimedState.meets_sound (List.all_eq_true.mp hall x hx)
  obtain ⟨x, y, hx, hy, hact, hidle, hpc⟩ :
      ∃ x y, (transitions (TimedState.step (fun _ => ⟨9, .NoRewindHandler, by decide⟩) .BusySpin)
          (timedInitial Bool Empty Empty .SINGLE ⟨1, by decide⟩) timesOutFirst)[12]? = some x ∧
        (transitions (TimedState.step (fun _ => ⟨9, .NoRewindHandler, by decide⟩) .BusySpin)
          (timedInitial Bool Empty Empty .SINGLE ⟨1, by decide⟩) timesOutFirst)[25]? = some y ∧
        x.act = .checkDeadline 105 ∧ mainPc x.post.config = .client .idle ∧
        mainPc y.post.config = .halt [⟨.created 0, true⟩] :=
    ⟨_, _, rfl, rfl, rfl, rfl, rfl⟩
  have htimesOut : TimedState.TimesOut x := ⟨105, hact, hidle⟩
  refine ⟨x, y, hx, hy, htimesOut, ?_, ?_, ?_⟩
  · exact ((TimedState.timedShutdown_drains hmeets x (List.mem_of_getElem? hx)).2 htimesOut).2.1
  · rw [hpc]
    trivial
  · exact (TimedState.timedShutdown_drains hmeets y (List.mem_of_getElem? hy)).1

end Disruptor.Dsl
