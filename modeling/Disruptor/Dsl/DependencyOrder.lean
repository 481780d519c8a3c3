import Disruptor.Dsl.Safety

/-!
# Dependency order

A handler sees a sequence only after every consumer that it was declared to follow.
-/

namespace Disruptor.Dsl

open Disruptor.Core BatchEventProcessor

variable {H X P : Type} [DecidableEq H] [DecidableEq X] [DecidableEq P]
  {processor : Nat → BatchEventProcessor} {waitStrategy : WaitStrategy}
  {producerType : ProducerType} {b : BufferSize} {as : List (Label H X P)}
  {c c' : Config H X P}

/-- The consumer has finished its own handling of the sequence: a handler's `onEvent` returned or
its exception was handled; a processor of the user's own has moved its sequence. -/
def Shared.Handled (s : Shared H X) (sequence : Int) : ProcessorId X → Prop
  | .created k => DealtWith (s.disruptor.processors k).calls sequence
  | .custom x => sequence ≤ s.disruptor.customs x

/-- Only its own thread makes the calls of a processor. -/
lemma calls_of_next (h : (outline H X P processor waitStrategy).Holds c)
    {t : Thread P X} {a : Action H X t}
    (hs : (system H X P processor waitStrategy).next c ⟨t, a⟩ = some c') {k : Nat}
    (ht : Thread.processor k ≠ t) :
    (c'.shared.disruptor.processors k).calls = (c.shared.disruptor.processors k).calls := by
  obtain ⟨s', l', hstep, rfl⟩ := (ThreadPool.next_eq_some _).mp hs
  exact ((outline H X P processor waitStrategy).step_rely h.shared (h.threads t) hstep _ ht).1

omit [DecidableEq H] [DecidableEq X] [DecidableEq P] in
/-- A consumer whose sequence has reached `sequence` has handled it, or was attached to the ring
after it had been claimed. -/
lemma handled_or_attached {s : Shared H X} (hinv : s.Inv) (hstarted : s.disruptor.started = true)
    (hprocessor : ∀ k, ∃ pc, ProcessorHolds waitStrategy s k pc) {i : ProcessorId X}
    {sequence : Int} (hle : sequence ≤ s.values i) :
    sequence ≤ s.disruptor.attachedAt i ∨ s.Handled sequence i := by
  cases i with
  | custom x => exact Or.inr hle
  | created k =>
    obtain ⟨pc, hholds⟩ := hprocessor k
    by_cases hstart : sequence ≤ s.startValues (.created k)
    · exact Or.inl (hstart.trans (hinv.start_attached hstarted _))
    · exact Or.inr (hholds.reached.dealt sequence (by omega) hle)

/-- Where a step calls `onEvent`. -/
lemma onEvent_of_next (h : (outline H X P processor waitStrategy).Holds c)
    {a : Label H X P}
    (hs : (system H X P processor waitStrategy).next c a = some c') {k : Nat}
    {sequence startOfBatchSequence : Int} {endOfBatch : Bool} {thrown : Option Exception}
    (hcall : (c'.shared.disruptor.processors k).calls =
      .onEvent sequence endOfBatch startOfBatchSequence thrown ::
        (c.shared.disruptor.processors k).calls) :
    c.shared.disruptor.started = true ∧
      ∀ i ∈ c.shared.declared (.created k), sequence ≤ c.shared.values i := by
  obtain ⟨t, a⟩ := a
  -- the step is one of the processor's own thread
  by_cases ht : Thread.processor k = t
  · subst ht
    obtain ⟨s', pc', hstep, rfl⟩ := (ThreadPool.next_eq_some _).mp hs
    obtain ⟨hspawned, f, hrun, rfl⟩ := processorStep_eq hstep
    have hstarted := h.shared.started_of_spawned hspawned
    have hknows := ((h.threads (.processor k)).2 hstarted).knows
    have hcalls : f.calls = .onEvent sequence endOfBatch startOfBatchSequence thrown ::
        (c.shared.disruptor.processors k).calls := by
      simpa [Shared.setProcessor] using hcall
    have hallowed := runStep_onEvent hknows hrun hcalls
    refine ⟨hstarted, ?_⟩
    intro i hi
    rw [h.shared.wired] at hi
    exact hallowed i hi
  · have hsame := calls_of_next h hs ht
    rw [hsame] at hcall
    exact absurd (congrArg List.length hcall) (by simp)

/-- Whenever `onEvent` is called with a sequence, every consumer that the handler was declared to
follow has advanced its own sequence at least that far, and has finished its own handling of it,
or was attached to the ring after it had been claimed. -/
theorem onEvent_follows_dependencies
    {x : Transition (Config H X P) (Label H X P)}
    (hx : x ∈ transitions (system H X P processor waitStrategy).next
      (initial H X P producerType b) as)
    {k : Nat} {sequence startOfBatchSequence : Int} {endOfBatch : Bool} {thrown : Option Exception}
    (hcall : (x.post.shared.disruptor.processors k).calls =
      .onEvent sequence endOfBatch startOfBatchSequence thrown ::
        (x.pre.shared.disruptor.processors k).calls) :
    ∀ i ∈ x.pre.shared.declared (.created k),
      sequence ≤ x.pre.shared.values i ∧
        (sequence ≤ x.pre.shared.disruptor.attachedAt i ∨ x.pre.shared.Handled sequence i) := by
  obtain ⟨hpre, -⟩ := transitions_hold x hx
  obtain ⟨-, hnext⟩ := mem_transitions hx
  obtain ⟨hstarted, hreached⟩ := onEvent_of_next hpre hnext hcall
  have hholds : ∀ j, ∃ pc, ProcessorHolds waitStrategy x.pre.shared j pc :=
    fun j => ⟨_, (hpre.threads (.processor j)).2 hstarted⟩
  intro i hi
  have hle := hreached i hi
  exact ⟨hle, handled_or_attached hpre.shared hstarted hholds hle⟩

/-- A chain of two handlers, and one event that both are given. -/
def twoInChain : List (Label Bool Empty Empty) :=
  [⟨.main, .build (.handleEventsWith [.handler false])⟩, ⟨.main, .build (.chain 0 [.handler true])⟩,
    ⟨.main, .start⟩, ⟨.main, .proceed⟩, ⟨.main, .proceed⟩, ⟨.main, .proceed⟩,
    ⟨.main, .client (.claim (.next 1))⟩, ⟨.main, .client (.translate true)⟩,
    ⟨.main, .client (.proceed false)⟩] ++
  List.replicate 4 ⟨.processor 0, .proceed⟩ ++
  List.replicate 2 ⟨.processor 0, .wait .proceed⟩ ++
  [⟨.processor 0, .input (.onBatchStart none)⟩, ⟨.processor 0, .input (.onEvent none)⟩,
    ⟨.processor 0, .input .endOfBatch⟩] ++
  List.replicate 4 ⟨.processor 1, .proceed⟩ ++
  List.replicate 3 ⟨.processor 1, .wait .proceed⟩ ++
  [⟨.processor 1, .input (.onBatchStart none)⟩, ⟨.processor 1, .input (.onEvent none)⟩]

theorem onEvent_follows_dependencies_twoInChain :
    ∃ x, (transitions (system Bool Empty Empty (fun _ => ⟨9, .NoRewindHandler, by decide⟩)
        .BusySpin).next (initial Bool Empty Empty .SINGLE ⟨1, by decide⟩) twoInChain)[26]? =
          some x ∧
      (x.post.shared.disruptor.processors 1).calls =
        .onEvent 0 true 0 none :: (x.pre.shared.disruptor.processors 1).calls ∧
      x.pre.shared.declared (.created 1) = [.created 0] ∧
      0 ≤ x.pre.shared.values (.created 0) := by
  obtain ⟨x, hx, hcall, hdeclared⟩ :
      ∃ x, (transitions (system Bool Empty Empty (fun _ => ⟨9, .NoRewindHandler, by decide⟩)
          .BusySpin).next (initial Bool Empty Empty .SINGLE ⟨1, by decide⟩) twoInChain)[26]? =
            some x ∧
        (x.post.shared.disruptor.processors 1).calls =
          .onEvent 0 true 0 none :: (x.pre.shared.disruptor.processors 1).calls ∧
        x.pre.shared.declared (.created 1) = [.created 0] := ⟨_, rfl, rfl, rfl⟩
  refine ⟨x, hx, hcall, hdeclared, ?_⟩
  refine (onEvent_follows_dependencies (List.mem_of_getElem? hx) hcall (.created 0) ?_).1
  rw [hdeclared]
  exact List.mem_cons_self

end Disruptor.Dsl
