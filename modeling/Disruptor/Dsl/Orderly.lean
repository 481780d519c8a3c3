import Disruptor.Dsl.Events
import Disruptor.Dsl.TimedShutdown

/-!
# Programs that follow the rules

Some consumer gates the ring at `start()`, no consumer that is registered is left uncovered, and
nothing throws. In such a program every claim is accounted for, no handler is lapped, and the
thread of every processor is in its loop until `shutdown()` halts it.
-/

namespace Disruptor.Dsl

set_option linter.dupNamespace false

open Disruptor.Core BatchEventProcessor

variable {H X P : Type}

/-! ### The graph -/

namespace Disruptor

/-- Whoever gates the ring is registered. -/
def GatesRegistered (d : Disruptor H X) : Prop :=
  ∀ i, d.Gates i → d.consumerRepository.IsRegistered i

end Disruptor

section

variable {d d' : Disruptor H X} {i : ProcessorId X}

lemma isRegistered_unMarkAll_of {repository : ConsumerRepository H X}
    (h : repository.IsRegistered i) (barrierSequences : List (ProcessorId X)) :
    (repository.unMarkEventProcessorsAsEndOfChain barrierSequences).IsRegistered i := by
  obtain ⟨info, hinfo, rfl⟩ := h
  obtain ⟨n, hn⟩ := List.mem_iff_getElem?.mp hinfo
  have hmarked := ConsumerRepository.unMarkAll_getElem? repository barrierSequences n
  rw [hn, Option.map_some] at hmarked
  refine ⟨_, List.mem_of_getElem? hmarked, ?_⟩
  split_ifs <;> rfl

variable [DecidableEq H] [DecidableEq X]

omit [DecidableEq H] in
lemma isRegistered_addProcessors (processors : List X) :
    (d.addProcessors processors).consumerRepository.IsRegistered i ↔
      d.consumerRepository.IsRegistered i ∨ i ∈ processors.map .custom := by
  induction processors generalizing d with
  | nil => simp [Disruptor.addProcessors]
  | cons x rest ih =>
    have hx := Disruptor.isRegistered_addProcessor d.consumerRepository (.custom x) i
    have hrest := ih
      (d := { d with consumerRepository := d.consumerRepository.addProcessor (.custom x) })
    rw [List.map_cons, List.mem_cons, ← or_assoc, ← hx]
    exact hrest

/-- Every call that builds the graph registers the consumers that it attaches to the ring. -/
lemma BuildCall.perform_gatesRegistered {call : BuildCall H X}
    {groups : List (EventHandlerGroup X)} {group : EventHandlerGroup X}
    (h : d.GatesRegistered) (hs : call.perform d groups = some (.ok (d', group))) :
    d'.GatesRegistered := by
  rcases call.perform_cases hs with ⟨handlers, -, hcreate⟩ | ⟨-, processors, rfl | rfl⟩
  · obtain ⟨r, hr, rfl, hrepository, -⟩ := Disruptor.createEventProcessors_graph hcreate
    have hinfos := Disruptor.createEventProcessorsImpl_consumerInfos { d with
      consumerRepository := d.consumerRepository.unMarkEventProcessorsAsEndOfChain
        (call.barrierSequences groups) } (call.barrierSequences groups) handlers
    rw [← hr, ← hrepository] at hinfos
    intro i hi
    rcases ((Disruptor.gates_createEventProcessors hcreate).mp hi).1 with hold | hnew
    · obtain ⟨info, hinfo, heq⟩ :=
        isRegistered_unMarkAll_of (h i hold) (call.barrierSequences groups)
      refine ⟨info, ?_, heq⟩
      rw [hinfos]
      exact List.mem_append_left _ hinfo
    · refine ⟨{ eventprocessor := i }, ?_, rfl⟩
      rw [hinfos]
      exact List.mem_append_right _ (List.mem_map_of_mem hnew)
  · exact fun i hi => (isRegistered_addProcessors processors).mpr (Or.inl (h i hi))
  · intro i hi
    refine (isRegistered_addProcessors processors).mpr ?_
    exact ((Disruptor.gates_addGatingSequences _).mp hi).imp_left (h i)

end

/-! ### Threads that go on -/

/-- A producer goes on with what it has begun, and its translator returns. -/
def ClientAction.GoesOn : ClientAction → Prop
  | .claim _ => False
  | .proceed _ => True
  | .translate returns => returns = true

/-- The thread goes on with what it has begun: nobody claims, builds, starts or shuts down, and
nothing throws. The user's own processors pass what is published. -/
def Calm (x : Transition (Config H X P) (Label H X P)) : Prop :=
  match x.act with
  | ⟨.main, a⟩ =>
    match (a : MainAction H X) with
    | .client a => a.GoesOn
    | .proceed => True
    | _ => False
  | ⟨.producer _, a⟩ => ClientAction.GoesOn a
  | ⟨.processor _, a⟩ => ∀ i, (a : RunAction) = .input i → ¬ i.Throws
  | ⟨.custom _, a⟩ =>
    match (a : CustomAction) with
    | .advance value => Upto x.pre.shared.IsPublished value
    | .setRunning _ => False

variable [DecidableEq H] [DecidableEq X]

/-- A step of a program that follows the rules: some consumer gates the ring at `start()`, all
consumers are covered when it begins to publish or to start, and nothing throws. -/
structure Orderly (x : Transition (Config H X P) (Label H X P)) : Prop where
  regular : Regular x
  covered : BeginsCovered x
  returns : ∀ k i, x.act = ⟨.processor k, .input i⟩ → ¬ i.Throws

omit [DecidableEq H] [DecidableEq X] in
lemma Calm.orderly {x : Transition (Config H X P) (Label H X P)} (h : Calm x) : Orderly x := by
  obtain ⟨c, ⟨t, a⟩, c'⟩ := x
  refine ⟨⟨?_, ?_, ?_, ?_⟩, ?_, ?_⟩
  · rintro ⟨⟩
    exact h.elim
  · rintro a ⟨⟩ lo - rfl
    cases h
  · rintro p a ⟨⟩ lo - rfl
    cases h
  · rintro y value ⟨⟩
    exact h
  · rintro - (⟨⟨⟩⟩ | ⟨op, ⟨⟩⟩)
    · exact h.elim
    · exact h.elim
  · rintro k i ⟨⟩
    exact h i rfl

/-! ### What a program that follows the rules keeps -/

variable [DecidableEq P] {processor : Nat → BatchEventProcessor} {waitStrategy : WaitStrategy}
  {c c' : Config H X P} {s s' : Shared H X}

/-- The claims and what was seen of them, the graph, and the threads of the consumers. -/
structure OrderlyInv (processor : Nat → BatchEventProcessor) (waitStrategy : WaitStrategy)
    (c : Config H X P) : Prop where
  visible : VisibleInv processor waitStrategy c
  covered : CoveredInv processor waitStrategy c
  noLap : c.shared.NoLap
  spawned : SpawnedInv c
  gates : c.shared.disruptor.GatesRegistered
  turns : ¬ (mainPc c).PastBacklog → AllTurn c

lemma OrderlyInv.next (h : OrderlyInv processor waitStrategy c) {a : Label H X P}
    (hs : (system H X P processor waitStrategy).next c a = some c')
    (horderly : Orderly ⟨c, a, c'⟩) : OrderlyInv processor waitStrategy c' := by
  have hholds := h.visible.holds
  refine ⟨h.visible.next hs horderly.regular, h.covered.next hs horderly.covered,
    h.visible.noLap_next h.covered h.noLap hs horderly.covered, h.spawned.next hholds hs, ?_, ?_⟩
  · rcases frame_of_next hholds hs with hframe | ⟨call, l', -, -, hbuild⟩
    · intro i hi
      rw [hframe.consumerRepository]
      refine h.gates i ?_
      show some i ∈ c.shared.sequencer.gatingList
      rw [← hframe.gatingList]
      exact hi
    · obtain ⟨-, -, ⟨heq, -⟩ | ⟨d, group, hperform, heq⟩⟩ := buildStep_eq hbuild
      · rw [heq]
        exact h.gates
      · rw [heq]
        exact BuildCall.perform_gatesRegistered h.gates hperform
  · exact allTurn_next h.turns hs horderly.returns

end Disruptor.Dsl
