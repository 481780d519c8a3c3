import Disruptor.Dsl.Draining
import Disruptor.Dsl.TimedShutdown
import Disruptor.EventProcessor.Stopping

/-!
# After `haltAll()`

Once `shutdown()` has returned, the thread of every processor that is registered finishes what it is
in the midst of and leaves `run()`, whatever the other threads do.
-/

namespace Disruptor.Dsl

open Disruptor.Core BatchEventProcessor

variable {H X P : Type}

/-- `halt()` of the `k`-th processor is still to come. -/
def MainPc.WillHalt (k : Nat) : MainPc X → Prop
  | .halt rest | .alert _ rest => ∃ info ∈ rest, info.eventprocessor = .created k
  | .halted => False
  | _ => True

/-- `halt()` of the `k`-th processor is still to come, has completed, or is before the alert. -/
def HaltsAt (k : Nat) (pc : MainPc X) (f : Fields) (runPc : RunPc (ProcessorId X)) : Prop :=
  pc.WillHalt k ∨ runPc.Stopped f ∨ (∃ rest, pc = .alert k rest) ∧ runPc.Stopping f

lemma stopping_of_halted {f : Fields} (h : f.running = .HALTED) (runPc : RunPc (ProcessorId X)) :
    runPc.Stopping f := by
  cases runPc <;> first | exact h | trivial

/-- The alert completes `halt()`. -/
lemma stopped_of_alert {f : Fields} {runPc : RunPc (ProcessorId X)} (h : runPc.Stopping f) :
    runPc.Stopped { f with alerted := true } := by
  refine ⟨?_, fun _ _ _ => rfl⟩
  cases runPc <;> exact h

variable [DecidableEq H] [DecidableEq X] {s s' : Shared H X}

omit [DecidableEq H] [DecidableEq X] in
/-- A step of `shutdown()` halts a processor or leaves its `halt()` for later. -/
lemma lifecycleStep_haltsAt {k : Nat} {pc pc' : MainPc X} {runPc : RunPc (ProcessorId X)}
    (hregistered : s.disruptor.consumerRepository.IsRegistered (.created k))
    (h : HaltsAt k pc (s.disruptor.processors k) runPc)
    (hs : lifecycleStep s pc = some (s', pc')) :
    HaltsAt k pc' (s'.disruptor.processors k) runPc := by
  unfold lifecycleStep at hs
  split at hs
  case h_4 =>
    obtain ⟨rfl, rfl⟩ := Prod.mk.inj (Option.some.inj hs)
    exact Or.inl hregistered
  case h_5 | h_6 =>
    split_ifs at hs <;> obtain ⟨rfl, rfl⟩ := Prod.mk.inj (Option.some.inj hs) <;>
      exact Or.inl trivial
  case h_7 =>
    obtain ⟨rfl, rfl⟩ := Prod.mk.inj (Option.some.inj hs)
    rcases h with ⟨info, hinfo, -⟩ | hstopped | ⟨⟨rest, ⟨⟩⟩, -⟩
    · cases hinfo
    · exact Or.inr (Or.inl hstopped)
  case h_8 info rest =>
    -- `running_` of the first processor is stored
    split at hs <;> obtain ⟨rfl, rfl⟩ := Prod.mk.inj (Option.some.inj hs)
    · rename_i j hj
      by_cases hk : k = j
      · subst hk
        refine Or.inr (Or.inr ⟨⟨rest, rfl⟩, ?_⟩)
        simp only [Shared.setProcessor, Function.update_self]
        exact stopping_of_halted rfl runPc
      · simp only [Shared.setProcessor, Function.update_of_ne hk]
        rcases h with ⟨info', hinfo', heq⟩ | hstopped | ⟨⟨rest', ⟨⟩⟩, -⟩
        · rcases List.mem_cons.mp hinfo' with rfl | hmem
          · exact absurd (ProcessorId.created.inj (heq.symm.trans hj)) hk
          · exact Or.inl ⟨info', hmem, heq⟩
        · exact Or.inr (Or.inl hstopped)
    · rename_i x hx
      rcases h with ⟨info', hinfo', heq⟩ | hstopped | ⟨⟨rest', ⟨⟩⟩, -⟩
      · rcases List.mem_cons.mp hinfo' with rfl | hmem
        · rw [heq] at hx
          cases hx
        · exact Or.inl ⟨info', hmem, heq⟩
      · exact Or.inr (Or.inl hstopped)
  case h_9 j rest =>
    obtain ⟨rfl, rfl⟩ := Prod.mk.inj (Option.some.inj hs)
    by_cases hk : k = j
    · subst hk
      simp only [Shared.setProcessor, Function.update_self]
      rcases h with hlater | hstopped | ⟨-, hstopping⟩
      · exact Or.inl hlater
      · exact Or.inr (Or.inl (stopped_of_alert hstopped.stopping))
      · exact Or.inr (Or.inl (stopped_of_alert hstopping))
    · simp only [Shared.setProcessor, Function.update_of_ne hk]
      rcases h with hlater | hstopped | ⟨⟨rest', heq⟩, -⟩
      · exact Or.inl hlater
      · exact Or.inr (Or.inl hstopped)
      · exact absurd (MainPc.alert.inj heq).1.symm hk
  case h_10 => cases hs
  all_goals
    obtain ⟨rfl, rfl⟩ := Prod.mk.inj (Option.some.inj hs)
    exact Or.inl trivial

variable [DecidableEq P] {processor : Nat → BatchEventProcessor} {waitStrategy : WaitStrategy}
  {c c' : Config H X P} {k : Nat}

/-- What is known of the threads of the processors: none is out of the batch that it may be in, and
`haltAll()` forgets nobody. -/
structure HaltInv (processor : Nat → BatchEventProcessor) (c : Config H X P) : Prop where
  within : ∀ k, (processorPc c k).Within (processor k) (c.shared.view k)
  halts : ∀ k, c.shared.disruptor.consumerRepository.IsRegistered (.created k) →
    HaltsAt k (mainPc c) (c.shared.disruptor.processors k) (processorPc c k)

lemma HaltInv.within_next (h : HaltInv processor c) {a : Label H X P}
    (hs : (system H X P processor waitStrategy).next c a = some c') (k : Nat) :
    (processorPc c' k).Within (processor k) (c'.shared.view k) := by
  obtain ⟨t, a⟩ := a
  have hflags : (c'.shared.view k).available.isSome = (c.shared.view k).available.isSome :=
    available_of_next hs
  refine RunPc.Within.of_available ?_ hflags
  by_cases ht : t = .main
  · subst ht
    have hpc : processorPc c' k = processorPc c k := threads_of_next hs (by simp)
    rw [hpc]
    exact h.within k
  · obtain ⟨own, -, hrun⟩ | ⟨-, -, hpc⟩ := processor_of_next ht k hs
    · exact runStep_within (h.within k) hrun
    · rw [hpc]
      exact h.within k

omit [DecidableEq X] in
/-- Before `haltAll()` every `halt()` is still to come. -/
lemma willHalt_of_not_pastBacklog {pc : MainPc X} (h : ¬ pc.PastBacklog) (k : Nat) :
    pc.WillHalt k := by
  cases pc <;> first | exact absurd trivial h | trivial

/-- Only a call that builds the graph registers a consumer. -/
lemma consumerRepository_of_next {t : Thread P X} {a : Action H X t} (ht : t ≠ .main)
    (hs : (system H X P processor waitStrategy).next c ⟨t, a⟩ = some c') :
    c'.shared.disruptor.consumerRepository = c.shared.disruptor.consumerRepository := by
  obtain ⟨s', l', hstep, rfl⟩ := (ThreadPool.next_eq_some _).mp hs
  cases t with
  | main => exact absurd rfl ht
  | producer p =>
    obtain ⟨q, granted, published, rfl⟩ := clientStep_frame (producerStep_eq hstep).2.2
    rfl
  | processor k =>
    obtain ⟨-, f, -, rfl⟩ := processorStep_eq hstep
    rfl
  | custom x =>
    simp only [system, Option.map_eq_some_iff] at hstep
    obtain ⟨s₁, hcustom, heq⟩ := hstep
    obtain ⟨rfl, -⟩ := Prod.mk.inj heq
    obtain ⟨-, ⟨value, rfl, -⟩ | ⟨running, rfl⟩⟩ := customStep_eq hcustom <;> rfl

lemma HaltInv.halts_main (h : HaltInv processor c) {a : MainAction H X}
    (hs : (system H X P processor waitStrategy).next c ⟨.main, a⟩ = some c')
    (hk : c'.shared.disruptor.consumerRepository.IsRegistered (.created k)) :
    HaltsAt k (mainPc c') (c'.shared.disruptor.processors k) (processorPc c' k) := by
  by_cases hpast : (mainPc c').PastBacklog
  · have hpc : processorPc c' k = processorPc c k := threads_of_next hs (by simp)
    rcases main_next_cases hs with ⟨call, l', -, -, hpc', -⟩ | ⟨ca, cl, cl', -, -, hpc', -⟩ |
      ⟨rfl, -, hpc'⟩ | ⟨rfl, -, hpc'⟩ | ⟨-, hlifecycle⟩
    · rw [hpc'] at hpast
      exact hpast.elim
    · rw [hpc'] at hpast
      exact hpast.elim
    · rw [hpc'] at hpast
      unfold Shared.start at hpast
      split_ifs at hpast <;> exact hpast.elim
    · rw [hpc'] at hpast
      exact hpast.elim
    · rw [(lifecycleStep_keeps hlifecycle).2.2.2] at hk
      rw [hpc]
      exact lifecycleStep_haltsAt hk (h.halts k hk) hlifecycle
  · exact Or.inl (willHalt_of_not_pastBacklog hpast k)

/-- A processor that was halted stays so. -/
lemma HaltInv.next (h : HaltInv processor c) {a : Label H X P}
    (hs : (system H X P processor waitStrategy).next c a = some c') : HaltInv processor c' := by
  refine ⟨h.within_next hs, fun k hk => ?_⟩
  obtain ⟨t, a⟩ := a
  by_cases ht : t = .main
  · subst ht
    exact h.halts_main hs hk
  · have hmain : mainPc c' = mainPc c := congrArg Main.pc (threads_of_next hs (Ne.symm ht))
    rw [consumerRepository_of_next ht hs] at hk
    rw [hmain]
    obtain ⟨own, -, hrun⟩ | ⟨-, hfields, hpc⟩ := processor_of_next ht k hs
    · rcases h.halts k hk with hlater | hstopped | ⟨hat, hstopping⟩
      · exact Or.inl hlater
      · exact Or.inr (Or.inl (runStep_stopped hstopped hrun))
      · exact Or.inr (Or.inr ⟨hat, runStep_stopping hstopping hrun⟩)
    · rw [hfields, hpc]
      exact h.halts k hk

omit [DecidableEq H] [DecidableEq X] [DecidableEq P] in
lemma haltInv_initial (producerType : ProducerType) (b : BufferSize) :
    HaltInv processor (initial H X P producerType b) :=
  ⟨fun _ => trivial, fun _ _ => Or.inl trivial⟩

/-! ### Nobody goes on for long -/

/-- `shutdown()` has returned, and the `k`-th processor is one that it has halted. -/
structure HaltedAt (processor : Nat → BatchEventProcessor) (k : Nat) (c : Config H X P) :
    Prop where
  halted : mainPc c = .halted
  stopped : (processorPc c k).Stopped (c.shared.disruptor.processors k)
  within : (processorPc c k).Within (processor k) (c.shared.view k)

/-- The step is a call of `onEvent` by the thread of the `k`-th processor. -/
def callsOnEvent (k : Nat) : Label H X P → Bool
  | ⟨.processor j, a⟩ => decide (j = k) && RunAction.isOnEvent a
  | _ => false

/-- The step is one of the thread of the `k`-th processor, out of `waitFor`. -/
def goesOn (k : Nat) : Label H X P → Bool
  | ⟨.processor j, a⟩ => decide (j = k) && !RunAction.isWait a
  | _ => false

/-- The main thread has nothing left to do. -/
lemma main_next_of_halted {a : MainAction H X} (hhalted : mainPc c = .halted)
    (hs : (system H X P processor waitStrategy).next c ⟨.main, a⟩ = some c') : False := by
  rcases main_next_cases hs with ⟨call, l', -, hpc, -⟩ | ⟨ca, cl, cl', -, hpc, -⟩ |
    ⟨rfl, -⟩ | ⟨rfl, -⟩ | ⟨-, hlifecycle⟩
  · cases hhalted.symm.trans hpc
  · cases hhalted.symm.trans hpc
  · cases hhalted.symm.trans (main_next_idle (Or.inl rfl) hs)
  · cases hhalted.symm.trans (main_next_idle (Or.inr rfl) hs)
  · rw [hhalted] at hlifecycle
    cases hlifecycle

omit [DecidableEq H] [DecidableEq X] [DecidableEq P] in
/-- The steps of the other threads do not count. -/
lemma counts_of_ne {t : Thread P X} (ht : t ≠ .processor k) (a : Action H X t) :
    callsOnEvent k (⟨t, a⟩ : Label H X P) = false ∧ goesOn k (⟨t, a⟩ : Label H X P) = false := by
  cases t with
  | processor j =>
    have hjk : j ≠ k := by
      rintro rfl
      exact ht rfl
    simp [callsOnEvent, goesOn, hjk]
  | _ => exact ⟨rfl, rfl⟩

/-- Whatever step is taken, the processor has no more to do than before. -/
lemma HaltedAt.next (h : HaltedAt processor k c) {a : Label H X P}
    (hs : (system H X P processor waitStrategy).next c a = some c') :
    HaltedAt processor k c' ∧
      (processorPc c' k).eventsLeft (processor k) + (if callsOnEvent k a then 1 else 0) ≤
        (processorPc c k).eventsLeft (processor k) ∧
      (processorPc c' k).stepsLeft (processor k) + (if goesOn k a then 1 else 0) ≤
        (processorPc c k).stepsLeft (processor k) := by
  obtain ⟨t, a⟩ := a
  have ht : t ≠ .main := by
    rintro rfl
    exact main_next_of_halted h.halted hs
  have hmain : mainPc c' = .halted :=
    (congrArg Main.pc (threads_of_next hs (Ne.symm ht))).trans h.halted
  have hflags : (c'.shared.view k).available.isSome = (c.shared.view k).available.isSome :=
    available_of_next hs
  obtain ⟨own, heq, hrun⟩ | ⟨hne, hfields, hpc⟩ := processor_of_next ht k hs
  · obtain ⟨rfl, heq⟩ := Sigma.mk.inj heq
    obtain rfl := eq_of_heq heq
    have hnearer := h.stopped.nearer h.within rfl hrun
    have hwithin : (processorPc c' k).Within (processor k) (c'.shared.view k) :=
      (runStep_within h.within hrun).of_available hflags
    refine ⟨⟨hmain, runStep_stopped h.stopped hrun, hwithin⟩, ?_, ?_⟩
    · simpa [callsOnEvent] using hnearer.events
    · rcases hnearer.steps with hlt | ⟨hwait, hsame, -⟩
      · simp only [goesOn]
        split_ifs <;> omega
      · simp [goesOn, hwait, hsame]
  · obtain ⟨hcalls, hgoes⟩ := counts_of_ne hne a
    rw [hcalls, hgoes, hpc]
    refine ⟨⟨hmain, ?_, ?_⟩, le_rfl, le_rfl⟩
    · rw [hfields, hpc]
      exact h.stopped
    · rw [hpc]
      exact h.within.of_available hflags

omit [DecidableEq H] [DecidableEq X] [DecidableEq P] in
lemma HaltInv.haltedAt (h : HaltInv processor c) (hhalted : mainPc c = .halted)
    (hk : c.shared.disruptor.consumerRepository.IsRegistered (.created k)) :
    HaltedAt processor k c := by
  refine ⟨hhalted, ?_, h.within k⟩
  have hat := h.halts k hk
  rw [hhalted] at hat
  rcases hat with hlater | hstopped | ⟨⟨rest, ⟨⟩⟩, -⟩
  · exact hlater.elim
  · exact hstopped

/-! ### Everybody can finish -/

/-- The thread of a processor goes on, and its handler does not throw. -/
def ConsumerGoes (x : Transition (Config H X P) (Label H X P)) : Prop :=
  ∃ (k : Nat) (a : RunAction), x.act = ⟨.processor k, a⟩ ∧ ∀ i, a = .input i → ¬ i.Throws

/-- The thread can go on alone until `run()` returns. -/
lemma HaltedAt.returns (h : HaltedAt processor k c) (hspawned : .created k ∈ c.shared.spawned) :
    ∃ c', ReachesBy (system H X P processor waitStrategy).next ConsumerGoes c c' ∧
      processorPc c' k = .returned := by
  have hshows : Shows (fun f => (c.shared.setProcessor k f).view k) :=
    ⟨fun f => by simp [Shared.view, Shared.setProcessor], fun f g => rfl⟩
  have hhalts : Halts (processor k) (fun f => (c.shared.setProcessor k f).view k)
      (c.shared.disruptor.processors k, processorPc c k) :=
    ⟨h.stopped, h.within.of_available rfl⟩
  obtain ⟨f, hreach⟩ := hhalts.returns (b := c.shared.barrier waitStrategy k) hshows
  refine ⟨withProcessor c k (f, .returned), ?_, processorPc_update_self _ _ _ _⟩
  have hgoes : ∀ x y, Goes (processor k) (c.shared.barrier waitStrategy k)
      (fun f => (c.shared.setProcessor k f).view k) x y →
        StepBy (system H X P processor waitStrategy).next ConsumerGoes (withProcessor c k x)
          (withProcessor c k y) := by
    intro x y hgoes
    obtain ⟨a, hthrows, hnext⟩ := next_of_goes hspawned hgoes
    exact ⟨_, hnext, k, a, rfl, hthrows⟩
  have hlift : ReachesBy (system H X P processor waitStrategy).next ConsumerGoes
      (withProcessor c k (c.shared.disruptor.processors k, processorPc c k))
      (withProcessor c k (f, .returned)) :=
    hreach.lift (withProcessor c k) hgoes
  rw [withProcessor_self] at hlift
  exact hlift

/-- A thread whose `run()` has returned takes no step. -/
lemma not_returned_of_next {a : RunAction}
    (hs : (system H X P processor waitStrategy).next c ⟨.processor k, a⟩ = some c') :
    .created k ∈ c.shared.spawned ∧ processorPc c k ≠ .returned := by
  obtain ⟨s', l', hstep, rfl⟩ := (ThreadPool.next_eq_some _).mp hs
  obtain ⟨hspawned, f, hrun, -⟩ := processorStep_eq hstep
  refine ⟨hspawned, fun hpc => ?_⟩
  have hreturned : c.threads (.processor k) = .returned := hpc
  rw [hreturned] at hrun
  cases hrun

/-- It does not begin again. -/
lemma returned_of_next {a : Label H X P} (h : processorPc c k = .returned)
    (hs : (system H X P processor waitStrategy).next c a = some c') :
    processorPc c' k = .returned := by
  obtain ⟨t, a⟩ := a
  by_cases ht : t = .processor k
  · subst ht
    exact absurd h (not_returned_of_next hs).2
  · exact (threads_of_next hs (Ne.symm ht)).trans h

/-- `haltAll()` returns. -/
lemma proceedsTo_halted_of_pastBacklog (h : (mainPc c).PastBacklog) :
    ∃ c', ProceedsTo processor waitStrategy c c' ∧ mainPc c' = .halted := by
  cases hpc : mainPc c with
  | halt rest => exact proceedsTo_halted hpc
  | alert k rest =>
    obtain ⟨c₁, hproceeds, -, hpc₁⟩ := proceedsTo_of_lifecycleStep hpc rfl
    obtain ⟨c', hproceeds', hpc'⟩ := proceedsTo_halted hpc₁
    exact ⟨c', hproceeds.trans hproceeds', hpc'⟩
  | halted => exact ⟨c, .refl, hpc⟩
  | _ =>
    rw [hpc] at h
    exact h.elim

/-- `haltAll()` is not left for anything else. -/
lemma pastBacklog_of_next {a : Label H X P} (h : (mainPc c).PastBacklog)
    (hs : (system H X P processor waitStrategy).next c a = some c') :
    (mainPc c').PastBacklog := by
  obtain ⟨t, a⟩ := a
  by_cases ht : t = .main
  · subst ht
    have hclient : ∀ cl, mainPc c ≠ .client cl := by
      intro cl hcl
      rw [hcl] at h
      exact h
    rcases main_next_cases hs with ⟨call, l', -, hpc, -⟩ | ⟨ca, cl, cl', -, hpc, -⟩ |
      ⟨rfl, -⟩ | ⟨rfl, -⟩ | ⟨-, hlifecycle⟩
    · exact absurd hpc (hclient _)
    · exact absurd hpc (hclient _)
    · exact absurd (main_next_idle (Or.inl rfl) hs) (hclient _)
    · exact absurd (main_next_idle (Or.inr rfl) hs) (hclient _)
    · exact (lifecycleStep_beforeHalt hlifecycle).1 h
  · have hmain : mainPc c' = mainPc c := congrArg Main.pc (threads_of_next hs (Ne.symm ht))
    rw [hmain]
    exact h

end Disruptor.Dsl
