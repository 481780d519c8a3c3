import Disruptor.Dsl.Shutdown
import Disruptor.EventProcessor.Fatal

/-!
# Fatal exceptions in a running `Disruptor`

After `start()` the threads of a `Disruptor` do to a processor no more than `threadStep` allows, so
that what was proved of one processor among other threads holds here.
-/

namespace Disruptor.Dsl

open Disruptor.Core BatchEventProcessor

variable {H X P : Type} [DecidableEq H] [DecidableEq X] [DecidableEq P]
  {processor : Nat → BatchEventProcessor} {waitStrategy : WaitStrategy} {c c' : Config H X P}
  {s s' : Shared H X} {k : Nat}

/-- The `k`-th processor with its thread. -/
def processorThread (c : Config H X P) (k : Nat) : BatchEventProcessor.Thread (ProcessorId X) :=
  ⟨c.shared.disruptor.processors k, processorPc c k⟩

/-- The fields of a processor are as they were, or it was halted, or its barrier alerted. -/
def OthersStep (f f' : Fields) : Prop :=
  f' = f ∨ f' = { f with running := .HALTED } ∨ f' = { f with alerted := true }

omit [DecidableEq H] [DecidableEq X] [DecidableEq P] in
lemma othersStep_setProcessor {j : Nat} {f : Fields}
    (h : OthersStep (s.disruptor.processors j) f) :
    OthersStep (s.disruptor.processors k) ((s.setProcessor j f).disruptor.processors k) := by
  by_cases hj : k = j
  · subst hj
    simpa [Shared.setProcessor] using h
  · refine Or.inl ?_
    simp [Shared.setProcessor, Function.update_of_ne hj]

omit [DecidableEq H] [DecidableEq X] [DecidableEq P] in
lemma lifecycleStep_processors {pc pc' : MainPc X} (hs : lifecycleStep s pc = some (s', pc')) :
    OthersStep (s.disruptor.processors k) (s'.disruptor.processors k) := by
  unfold lifecycleStep at hs
  split at hs
  case h_8 =>
    split at hs
    · obtain ⟨rfl, -⟩ := Prod.mk.inj (Option.some.inj hs)
      exact othersStep_setProcessor (Or.inr (Or.inl rfl))
    · obtain ⟨rfl, -⟩ := Prod.mk.inj (Option.some.inj hs)
      exact Or.inl rfl
  case h_9 =>
    obtain ⟨rfl, -⟩ := Prod.mk.inj (Option.some.inj hs)
    exact othersStep_setProcessor (Or.inr (Or.inr rfl))
  case h_10 => cases hs
  all_goals
    try split_ifs at hs
    all_goals
      obtain ⟨rfl, -⟩ := Prod.mk.inj (Option.some.inj hs)
      exact Or.inl rfl

/-- What the other threads do to a processor that was started. -/
lemma othersStep_of_next (hstarted : c.shared.disruptor.started = true) {t : Thread P X}
    {a : Action H X t} (hs : (system H X P processor waitStrategy).next c ⟨t, a⟩ = some c')
    (ht : .processor k ≠ t) :
    OthersStep (c.shared.disruptor.processors k) (c'.shared.disruptor.processors k) := by
  obtain ⟨s', l', hstep, rfl⟩ := (ThreadPool.next_eq_some _).mp hs
  cases t with
  | main =>
    rcases mainStep_cases hstep with ⟨call, -, -, hbuild⟩ | ⟨ca, cl, cl', -, -, hclient, -⟩ |
      ⟨-, -, rfl, -⟩ | ⟨-, -, rfl, -⟩ | ⟨-, pc, hlifecycle, -⟩
    · rw [(buildStep_eq hbuild).1] at hstarted
      cases hstarted
    · obtain ⟨q, granted, published, rfl⟩ := clientStep_frame hclient
      exact Or.inl rfl
    · refine Or.inl ?_
      simp only [Shared.start, hstarted, if_true]
    · exact Or.inl rfl
    · exact lifecycleStep_processors hlifecycle
  | producer p =>
    obtain ⟨q, granted, published, rfl⟩ := clientStep_frame (producerStep_eq hstep).2.2
    exact Or.inl rfl
  | processor j =>
    obtain ⟨-, f, -, rfl⟩ := processorStep_eq hstep
    have hne : k ≠ j := fun heq => ht (heq ▸ rfl)
    refine Or.inl ?_
    simp [Shared.setProcessor, Function.update_of_ne hne]
  | custom x =>
    simp only [system, Option.map_eq_some_iff] at hstep
    obtain ⟨s₁, hcustom, heq⟩ := hstep
    obtain ⟨rfl, -⟩ := Prod.mk.inj heq
    obtain ⟨-, ⟨value, rfl, -⟩ | ⟨running, rfl⟩⟩ := customStep_eq hcustom
    · exact Or.inl rfl
    · exact Or.inl rfl

/-- A step of the thread of a processor. -/
lemma processorThread_own {a : RunAction}
    (hs : (system H X P processor waitStrategy).next c ⟨.processor k, a⟩ = some c') :
    threadStep (processor k) (c.shared.barrier waitStrategy k) (processorThread c k)
      (.own (c.shared.view k) a) = some (processorThread c' k) := by
  obtain ⟨s', pc', hstep, rfl⟩ := (ThreadPool.next_eq_some _).mp hs
  obtain ⟨-, f, hrun, rfl⟩ := processorStep_eq hstep
  have hpc : processorPc (H := H) ⟨c.shared.setProcessor k f,
      Function.update c.threads (.processor k) pc'⟩ k = pc' := processorPc_update_self _ _ _ _
  have hfields : (c.shared.setProcessor k f).disruptor.processors k = f := by
    simp [Shared.setProcessor]
  simp only [threadStep, Option.map_eq_some_iff]
  refine ⟨(f, pc'), hrun, ?_⟩
  simp only [processorThread, hpc, hfields]

/-- A step of a `Disruptor` that was started is a step of the thread of a processor, or one of the
others as far as they can be seen there. -/
theorem processorThread_next (hstarted : c.shared.disruptor.started = true) {a : Label H X P}
    (hs : (system H X P processor waitStrategy).next c a = some c') :
    ∃ bs, run (threadStep (processor k) (c.shared.barrier waitStrategy k))
        (processorThread c k) bs =
      some (processorThread c' k) := by
  obtain ⟨t, a⟩ := a
  by_cases ht : Thread.processor k = t
  · subst ht
    refine ⟨[.own (c.shared.view k) a], ?_⟩
    rw [run_cons, processorThread_own hs, Option.bind_some, run_nil]
  · have hothers := othersStep_of_next hstarted hs ht
    obtain ⟨s', l', -, rfl⟩ := (ThreadPool.next_eq_some _).mp hs
    have hpc : processorPc (H := H) ⟨s', Function.update c.threads t l'⟩ k = processorPc c k :=
      processorPc_update_of_ne ht _ _ _
    simp only [processorThread, hpc]
    rcases hothers with heq | heq | heq
    · refine ⟨[], ?_⟩
      rw [run_nil, heq]
    · refine ⟨[.halt], ?_⟩
      rw [heq]
      rfl
    · refine ⟨[.alert], ?_⟩
      rw [heq]
      rfl

/-- What does not change after `start()`. -/
lemma runs_of_next (h : (outline H X P processor waitStrategy).Holds c)
    (hstarted : c.shared.disruptor.started = true) {a : Label H X P}
    (hs : (system H X P processor waitStrategy).next c a = some c') : c.shared.Runs c'.shared := by
  obtain ⟨t, a⟩ := a
  obtain ⟨s', l', hstep, rfl⟩ := (ThreadPool.next_eq_some _).mp hs
  have hrely := (outline H X P processor waitStrategy).step_rely h.shared (h.threads t) hstep
  by_cases ht : t = .main
  · subst ht
    exact ((hrely (.processor 0) (by rintro ⟨⟩)).2.2 hstarted).1
  · exact (hrely .main (Ne.symm ht)).2.1

/-- A run of a `Disruptor` that was started is a run of the thread of each processor. -/
theorem processorThread_run (h : (outline H X P processor waitStrategy).Holds c)
    (hstarted : c.shared.disruptor.started = true) {as : List (Label H X P)}
    (hr : run (system H X P processor waitStrategy).next c as = some c') :
    ∃ bs, run (threadStep (processor k) (c.shared.barrier waitStrategy k))
        (processorThread c k) bs =
      some (processorThread c' k) := by
  obtain ⟨bs, t, hbs, -, -, -, rfl⟩ := run_simulation
    (fun d t => (outline H X P processor waitStrategy).Holds d ∧
      d.shared.disruptor.started = true ∧
      d.shared.barrier waitStrategy k = c.shared.barrier waitStrategy k ∧ t = processorThread d k)
    (by
      rintro d a d' t ⟨hd, hdstarted, hbarrier, rfl⟩ hs
      obtain ⟨bs, hbs⟩ := processorThread_next (k := k) hdstarted hs
      have hruns := runs_of_next hd hdstarted hs
      rw [hbarrier] at hbs
      refine ⟨bs, _, hbs, hd.next hs, hruns.started, ?_, rfl⟩
      rw [← hbarrier]
      simp only [Shared.barrier, hruns.dependentSequences])
    ⟨h, hstarted, rfl, rfl⟩ hr
  exact ⟨bs, hbs⟩

/-- Once a processor whose exception handler has thrown has left `processEvents`, its sequence is
that of the failed event: those that follow it may take the event. -/
theorem failedEvent_released {producerType : ProducerType} {b : BufferSize}
    {as bs : List (Label H X P)} {c₁ c₂ : Config H X P} {sequence : Int}
    (hr : run (system H X P processor waitStrategy).next (initial H X P producerType b) as = some c)
    (hthrows : ∃ s wait, processorPc c k = .processEvents s wait ∧ s.pc = .handleEventException ∧
      s.nextSequence = sequence)
    (hs : (system H X P processor waitStrategy).next c
      ⟨.processor k, .input (.handleEventException false)⟩ = some c₁)
    (hr₁ : run (system H X P processor waitStrategy).next c₁ bs = some c₂)
    (hleft : (processorPc c₂ k).HasLeft) : c₂.shared.values (.created k) = sequence := by
  have hholds := ThreadPool.Outline.Holds.run (initial_holds producerType b) hr
  have hown := processorThread_own hs
  obtain ⟨_, _, hstep, -⟩ := (ThreadPool.next_eq_some _).mp hs
  have hstarted := hholds.shared.started_of_spawned (processorStep_eq hstep).1
  have hruns := runs_of_next hholds hstarted hs
  have hbarrier : c₁.shared.barrier waitStrategy k = c.shared.barrier waitStrategy k := by
    simp only [Shared.barrier, hruns.dependentSequences]
  obtain ⟨cs, hcs⟩ := processorThread_run (k := k) (hholds.next hs) hruns.started hr₁
  rw [hbarrier] at hcs
  obtain ⟨st, wait, hpc, hat, hnext⟩ := hthrows
  have hafter := (afterFatal_of_throws ⟨st, wait, _, hpc, hat, hnext, rfl⟩ hown).run hcs
  exact hafter.sequence_eq (Nat.le_trans (by decide) (hafter.hasLeft_iff.mp hleft))

/-- A chain of two handlers: the first fails on its first event, and so does its exception
handler. -/
def firstOfTwoFails : List (Label Bool Empty Empty) :=
  [⟨.main, .build (.handleEventsWith [.handler false])⟩, ⟨.main, .build (.chain 0 [.handler true])⟩,
    ⟨.main, .start⟩, ⟨.main, .proceed⟩, ⟨.main, .proceed⟩, ⟨.main, .proceed⟩,
    ⟨.main, .client (.claim (.next 1))⟩, ⟨.main, .client (.translate true)⟩,
    ⟨.main, .client (.proceed false)⟩] ++
  List.replicate 4 ⟨.processor 0, .proceed⟩ ++
  List.replicate 2 ⟨.processor 0, .wait .proceed⟩ ++
  [⟨.processor 0, .input (.onBatchStart none)⟩,
    ⟨.processor 0, .input (.onEvent (some .exception))⟩,
    ⟨.processor 0, .input (.handleEventException false)⟩, ⟨.processor 0, .input .skip⟩] ++
  List.replicate 4 ⟨.processor 1, .proceed⟩ ++
  List.replicate 3 ⟨.processor 1, .wait .proceed⟩ ++
  [⟨.processor 1, .input (.onBatchStart none)⟩, ⟨.processor 1, .input (.onEvent none)⟩]

/-- The second handler, declared to follow the first, is given the event that failed. -/
theorem firstOfTwoFails_released :
    ∃ c, run (system Bool Empty Empty (fun _ => ⟨9, .NoRewindHandler, by decide⟩) .BusySpin).next
        (initial Bool Empty Empty .SINGLE ⟨1, by decide⟩) firstOfTwoFails = some c ∧
      (c.shared.disruptor.processors 0).calls =
        [.handleEventException 0 (some 0), .onEvent 0 true 0 (some .exception),
          .onBatchStart 1 1] ∧
      (c.shared.disruptor.processors 0).running = .HALTED ∧
      c.shared.declared (.created 1) = [.created 0] ∧
      ¬ c.shared.values (.created 0) < 0 ∧
      (c.shared.disruptor.processors 1).calls = [.onEvent 0 true 0 none, .onBatchStart 1 1] := by
  refine ⟨_, rfl, rfl, rfl, rfl, ?_, rfl⟩
  exact Int.not_lt.mpr le_rfl

end Disruptor.Dsl
