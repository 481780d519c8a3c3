import Disruptor.Core.Run
import Disruptor.Dsl.Graph
import Mathlib.Logic.Relation

/-!
# The gating list and the ends of the chains

The sequencer keeps the sequences that gate the ring, and the repository keeps which consumers are
at the end of their chain. A program that builds a graph keeps the two in step, and from every
consumer a chain of dependencies leads to one that gates the ring.
-/

namespace Disruptor.Dsl

set_option linter.dupNamespace false

open Disruptor.Core

variable {H X : Type}

/-- What a consumer that comes from a factory is. -/
def Consumer.custom? : Consumer H X → Option X
  | .handler _ => none
  | .factory x => some x

namespace Disruptor

/-- The consumer is registered and at the end of its chain. -/
def IsEndOfChain (d : Disruptor H X) (i : ProcessorId X) : Prop :=
  ∃ info ∈ d.consumerRepository.consumerInfos, info.eventprocessor = i ∧ info.endOfChain = true

/-- The sequence gates the ring. -/
def Gates (d : Disruptor H X) (i : ProcessorId X) : Prop := some i ∈ d.sequencer.gatingList

/-- `j` was declared to follow `i`. -/
def Follows (d : Disruptor H X) (i j : ProcessorId X) : Prop := i ∈ d.dependentSequences j

/-- The processors are different objects, and new ones. -/
def AreFresh (d : Disruptor H X) (processors : List X) : Prop :=
  processors.Nodup ∧ ∀ x ∈ processors, ¬ d.consumerRepository.IsRegistered (.custom x)

/-- Every consumer is registered once. -/
structure Indexed (d : Disruptor H X) : Prop where
  linked : d.Linked
  bySequence : ∀ n info, d.consumerRepository.consumerInfos[n]? = some info →
    d.consumerRepository.eventProcessorInfoBySequence info.eventprocessor = some n
  created_lt : ∀ k, d.consumerRepository.IsRegistered (.created k) → k < d.created

end Disruptor

/-- The processors that the call registers are new, and the ones that it only names are registered.
It need not name any. -/
def BuildCall.Orderly (d : Disruptor H X) : BuildCall H X → Prop
  | .handleEventsWith handlers | .chain _ handlers =>
    d.AreFresh (handlers.filterMap Consumer.custom?)
  | .handleEventsWithProcessors processors | .andProcessors _ processors => d.AreFresh processors
  | .afterProcessors processors => ∀ x ∈ processors, d.consumerRepository.IsRegistered (.custom x)
  | .after _ | .and_ _ _ => True

/-- A call that keeps the gating list and the ends of the chains in step: it names a consumer, and
the processors that it registers are new. Neither `after(processors, count)` nor
`and_(processors, count)` is one. -/
def BuildCall.Admissible (d : Disruptor H X) : BuildCall H X → Prop
  | .handleEventsWith handlers | .chain _ handlers =>
    handlers ≠ [] ∧ d.AreFresh (handlers.filterMap Consumer.custom?)
  | .handleEventsWithProcessors processors => processors ≠ [] ∧ d.AreFresh processors
  | .after handlers => handlers ≠ []
  | .and_ _ _ => True
  | .afterProcessors _ | .andProcessors _ _ => False

instance [DecidableEq X] (repository : ConsumerRepository H X) (i : ProcessorId X) :
    Decidable (repository.IsRegistered i) :=
  inferInstanceAs (Decidable (∃ info ∈ repository.consumerInfos, info.eventprocessor = i))

instance [DecidableEq X] (d : Disruptor H X) (processors : List X) :
    Decidable (d.AreFresh processors) :=
  inferInstanceAs (Decidable (_ ∧ _))

instance [DecidableEq X] (d : Disruptor H X) : ∀ call : BuildCall H X, Decidable (call.Orderly d)
  | .handleEventsWith _ | .chain _ _ => inferInstanceAs (Decidable (Disruptor.AreFresh _ _))
  | .handleEventsWithProcessors _ | .andProcessors _ _ =>
    inferInstanceAs (Decidable (Disruptor.AreFresh _ _))
  | .afterProcessors _ => inferInstanceAs (Decidable (∀ x ∈ _, _))
  | .after _ | .and_ _ _ => isTrue trivial

instance [DecidableEq X] (d : Disruptor H X) : ∀ call : BuildCall H X, Decidable (call.Admissible d)
  | .handleEventsWith _ | .chain _ _ => inferInstanceAs (Decidable (¬ _ = _ ∧ _))
  | .handleEventsWithProcessors _ => inferInstanceAs (Decidable (¬ _ = _ ∧ _))
  | .after _ => inferInstanceAs (Decidable (¬ _ = _))
  | .and_ _ _ => isTrue trivial
  | .afterProcessors _ | .andProcessors _ _ => isFalse id

/-- A program that builds a graph, with the groups that it has been given. -/
structure Program (H X : Type) where
  disruptor : Disruptor H X
  groups : List (EventHandlerGroup X) := []

/-- The program makes a call; an exception leaves no group. -/
def Program.call [DecidableEq H] [DecidableEq X] (p : Program H X) (call : BuildCall H X) :
    Option (Program H X) :=
  (call.perform p.disruptor p.groups).map fun
    | .error _ => p
    | .ok (d, group) => { disruptor := d, groups := p.groups ++ [group] }

/-- A new `Disruptor`. -/
def Program.initial (H X : Type) (producerType : ProducerType) (b : BufferSize) : Program H X where
  disruptor := { sequencer := Sequencer.initial producerType b {} }

/-- Every consumer is registered once, and the groups are made of registered consumers. -/
structure Program.Consistent (p : Program H X) : Prop where
  indexed : p.disruptor.Indexed
  groups : ∀ group ∈ p.groups, ∀ i ∈ group.sequences,
    p.disruptor.consumerRepository.IsRegistered i

/-- What a program keeps. -/
structure Program.InStep (p : Program H X) : Prop where
  indexed : p.disruptor.Indexed
  anchored : p.disruptor.Anchored
  gates_iff : ∀ i, p.disruptor.Gates i ↔ p.disruptor.IsEndOfChain i
  groups : ∀ group ∈ p.groups, ∀ i ∈ group.sequences,
    p.disruptor.consumerRepository.IsRegistered i

variable [DecidableEq H] [DecidableEq X]

/-! ### Registering consumers -/

namespace Disruptor

variable {d d' : Disruptor H X} {barrierSequences : List (ProcessorId X)}
  {handlers : List (Consumer H X)} {group : EventHandlerGroup X} {i : ProcessorId X}

omit [DecidableEq H] in
/-- A new processor is registered at the end of the list. -/
lemma isRegistered_addProcessor (repository : ConsumerRepository H X)
    (processor i : ProcessorId X) :
    (repository.addProcessor processor).IsRegistered i ↔
      repository.IsRegistered i ∨ i = processor := by
  simp only [ConsumerRepository.IsRegistered, ConsumerRepository.addProcessor, List.mem_append,
    List.mem_singleton, or_and_right, exists_or, exists_eq_left]
  constructor <;> rintro (h | rfl)
  · exact Or.inl h
  · exact Or.inr rfl
  · exact Or.inl h
  · exact Or.inr rfl

omit [DecidableEq H] in
lemma Indexed.bySequence_addProcessor (h : d.Indexed)
    (hnew : ¬ d.consumerRepository.IsRegistered i) :
    ∀ n info, (d.consumerRepository.addProcessor i).consumerInfos[n]? = some info →
      (d.consumerRepository.addProcessor i).eventProcessorInfoBySequence info.eventprocessor =
        some n := by
  intro n info hinfo
  simp only [ConsumerRepository.addProcessor] at hinfo ⊢
  by_cases hlt : n < d.consumerRepository.consumerInfos.length
  · rw [List.getElem?_append_left hlt] at hinfo
    have hne : info.eventprocessor ≠ i := by
      rintro rfl
      exact hnew ⟨info, List.mem_of_getElem? hinfo, rfl⟩
    rw [Function.update_of_ne hne]
    exact h.bySequence n info hinfo
  · rw [List.getElem?_append_right (by omega)] at hinfo
    have hzero : n - d.consumerRepository.consumerInfos.length = 0 := by
      have hlen := (List.getElem?_eq_some_iff.mp hinfo).1
      simpa using hlen
    rw [hzero] at hinfo
    obtain rfl := Option.some.inj hinfo
    have hn : n = d.consumerRepository.consumerInfos.length := by omega
    rw [Function.update_self, hn]

omit [DecidableEq H] in
lemma Indexed.addProcessor (h : d.Indexed) {x : X}
    (hnew : ¬ d.consumerRepository.IsRegistered (.custom x)) :
    { d with consumerRepository := d.consumerRepository.addProcessor (.custom x) }.Indexed where
  linked := h.linked.addProcessor _
  bySequence := h.bySequence_addProcessor hnew
  created_lt := by
    intro k hk
    rcases (isRegistered_addProcessor _ _ _).mp hk with hold | heq
    · exact h.created_lt k hold
    · cases heq

/-- The consumer that `createOne` registers. -/
lemma Indexed.createOne (h : d.Indexed) (barrierSequences : List (ProcessorId X))
    {c : Consumer H X}
    (hnew : ∀ x, c.custom? = some x → ¬ d.consumerRepository.IsRegistered (.custom x)) :
    (d.createOne barrierSequences c).1.Indexed ∧
      ¬ d.consumerRepository.IsRegistered (d.createOne barrierSequences c).2 ∧
      ∀ i, (d.createOne barrierSequences c).1.consumerRepository.IsRegistered i ↔
        d.consumerRepository.IsRegistered i ∨ i = (d.createOne barrierSequences c).2 := by
  cases c with
  | handler handlerIdentity =>
    have hfresh : ¬ d.consumerRepository.IsRegistered (.created d.created) :=
      fun hreg => (h.created_lt _ hreg).ne rfl
    refine ⟨⟨h.linked.createOne barrierSequences _, h.bySequence_addProcessor hfresh, ?_⟩, hfresh,
      fun i => isRegistered_addProcessor _ _ i⟩
    intro k hk
    rcases (isRegistered_addProcessor _ _ _).mp hk with hold | heq
    · exact (h.created_lt k hold).trans (Nat.lt_succ_self _)
    · obtain rfl := ProcessorId.created.inj heq
      exact Nat.lt_succ_self _
  | factory x =>
    have hfresh := hnew x rfl
    obtain ⟨-, hby, hcreated⟩ := h.addProcessor hfresh
    exact ⟨⟨h.linked.createOne barrierSequences _, hby, hcreated⟩, hfresh,
      fun i => isRegistered_addProcessor _ _ i⟩

omit [DecidableEq H] [DecidableEq X] in
lemma AreFresh.of_cons {c : Consumer H X} {rest : List (Consumer H X)}
    (hfresh : d.AreFresh ((c :: rest).filterMap Consumer.custom?)) :
    (∀ x, c.custom? = some x → ¬ d.consumerRepository.IsRegistered (.custom x) ∧
      x ∉ rest.filterMap Consumer.custom?) ∧ d.AreFresh (rest.filterMap Consumer.custom?) := by
  cases c with
  | handler handlerIdentity => exact ⟨by rintro x ⟨⟩, hfresh⟩
  | factory y =>
    obtain ⟨hnodup, hnew⟩ := hfresh
    obtain ⟨hnotMem, hnodup'⟩ := List.nodup_cons.mp hnodup
    obtain ⟨hy, hrest⟩ := List.forall_mem_cons.mp hnew
    refine ⟨?_, hnodup', hrest⟩
    rintro x ⟨⟩
    exact ⟨hy, hnotMem⟩

/-- The consumers that are created were not registered. -/
lemma Indexed.createEventProcessorsImpl (h : d.Indexed) (barrierSequences : List (ProcessorId X))
    (hfresh : d.AreFresh (handlers.filterMap Consumer.custom?)) :
    (d.createEventProcessorsImpl barrierSequences handlers).1.Indexed ∧
      (∀ i ∈ (d.createEventProcessorsImpl barrierSequences handlers).2,
        ¬ d.consumerRepository.IsRegistered i) := by
  induction handlers generalizing d with
  | nil => exact ⟨h, by rintro i ⟨⟩⟩
  | cons c rest ih =>
    obtain ⟨hc, hrest⟩ := hfresh.of_cons
    obtain ⟨hindexed, hnew, hregistered⟩ :=
      h.createOne barrierSequences fun x hx => (hc x hx).1
    have hfresh' : (d.createOne barrierSequences c).1.AreFresh
        (rest.filterMap Consumer.custom?) := by
      refine ⟨hrest.1, ?_⟩
      intro x hx hreg
      rcases (hregistered _).mp hreg with hold | heq
      · exact hrest.2 x hx hold
      · cases c with
        | handler handlerIdentity => cases heq
        | factory y =>
          obtain rfl := ProcessorId.custom.inj heq
          exact (hc x rfl).2 hx
    obtain ⟨hall, hothers⟩ := ih hindexed hfresh'
    refine ⟨hall, ?_⟩
    intro i hi
    rcases List.mem_cons.mp hi with rfl | hi
    · exact hnew
    · exact fun hreg => hothers i hi ((hregistered i).mpr (Or.inl hreg))

/-! ### Creating event processors -/

lemma createEventProcessorsImpl_sequencer (d : Disruptor H X)
    (barrierSequences : List (ProcessorId X)) (handlers : List (Consumer H X)) :
    (d.createEventProcessorsImpl barrierSequences handlers).1.sequencer = d.sequencer := by
  induction handlers generalizing d with
  | nil => rfl
  | cons c rest ih =>
    have hc : (d.createOne barrierSequences c).1.sequencer = d.sequencer := by
      cases c <;> rfl
    exact (ih _).trans hc

omit [DecidableEq H] in
@[simp] lemma gates_addGatingSequences (sequences : List (ProcessorId X)) :
    (d.addGatingSequences sequences).Gates i ↔ d.Gates i ∨ i ∈ sequences := by
  simp [Gates, Disruptor.addGatingSequences, Disruptor.setValues]

omit [DecidableEq H] in
lemma gates_updateGatingSequences (barrierSequences : List (ProcessorId X)) :
    (d.updateGatingSequencesForNextInChain barrierSequences).Gates i ↔
      d.Gates i ∧ i ∉ barrierSequences := by
  induction barrierSequences generalizing d with
  | nil => simp [updateGatingSequencesForNextInChain]
  | cons j rest ih =>
    have hremove : (d.removeGatingSequence j).Gates i ↔ d.Gates i ∧ i ≠ j :=
      Sequencer.mem_removeGatingSequence
    show ((d.removeGatingSequence j).updateGatingSequencesForNextInChain rest).Gates i ↔ _
    rw [ih, hremove, List.mem_cons, not_or, and_assoc]

/-- The barrier sequences gate the ring no longer, the new consumers do. -/
lemma gates_createEventProcessors
    (hs : d.createEventProcessors barrierSequences handlers = .ok (d', group)) :
    d'.Gates i ↔ (d.Gates i ∨ i ∈ group.sequences) ∧ i ∉ barrierSequences := by
  obtain ⟨r, hr, rfl, -, -, -, hsequencer⟩ := createEventProcessors_graph hs
  have hsame : r.1.sequencer = d.sequencer := by
    rw [hr]
    exact createEventProcessorsImpl_sequencer _ _ _
  have hgates : d'.Gates i ↔
      ((r.1.addGatingSequences r.2).updateGatingSequencesForNextInChain
        barrierSequences).Gates i := by
    unfold Gates
    rw [hsequencer]
  rw [hgates, gates_updateGatingSequences, gates_addGatingSequences]
  unfold Gates
  rw [hsame]

omit [DecidableEq H] [DecidableEq X] in
/-- The marks of the barrier sequences. -/
lemma Indexed.isEndOfChain_unMark (h : d.Indexed) (barrierSequences : List (ProcessorId X)) :
    (∃ info ∈ (d.consumerRepository.unMarkEventProcessorsAsEndOfChain
        barrierSequences).consumerInfos, info.eventprocessor = i ∧ info.endOfChain = true) ↔
      d.IsEndOfChain i ∧ i ∉ barrierSequences := by
  constructor
  · rintro ⟨info, hinfo, rfl, hchain⟩
    obtain ⟨n, hn⟩ := List.mem_iff_getElem?.mp hinfo
    rw [ConsumerRepository.unMarkAll_getElem?, Option.map_eq_some_iff] at hn
    obtain ⟨info₀, hinfo₀, hmark⟩ := hn
    split_ifs at hmark with hmarked
    · obtain rfl := hmark
      cases hchain
    · obtain rfl := hmark
      refine ⟨⟨info₀, List.mem_of_getElem? hinfo₀, rfl, hchain⟩, ?_⟩
      exact fun hmem => hmarked ⟨_, hmem, h.bySequence n info₀ hinfo₀⟩
  · rintro ⟨⟨info, hinfo, rfl, hchain⟩, hnot⟩
    obtain ⟨n, hn⟩ := List.mem_iff_getElem?.mp hinfo
    have hunmarked : ¬ ∃ j ∈ barrierSequences,
        d.consumerRepository.eventProcessorInfoBySequence j = some n := by
      rintro ⟨j, hj, hjn⟩
      have hpointed := h.linked.bySequence j n hjn
      rw [hn] at hpointed
      obtain rfl := Option.some.inj hpointed
      exact hnot hj
    refine ⟨info, ?_, rfl, hchain⟩
    apply List.mem_of_getElem? (i := n)
    rw [ConsumerRepository.unMarkAll_getElem?, hn, Option.map_some, if_neg hunmarked]

omit [DecidableEq H] [DecidableEq X] in
lemma Indexed.unMark (h : d.Indexed) (barrierSequences : List (ProcessorId X)) :
    { d with
      consumerRepository :=
        d.consumerRepository.unMarkEventProcessorsAsEndOfChain barrierSequences }.Indexed ∧
      ∀ i, (d.consumerRepository.unMarkEventProcessorsAsEndOfChain
          barrierSequences).IsRegistered i ↔
        d.consumerRepository.IsRegistered i := by
  have hprocessor : ∀ n : Nat, ((d.consumerRepository.unMarkEventProcessorsAsEndOfChain
      barrierSequences).consumerInfos[n]?).map EventProcessorInfo.eventprocessor =
        (d.consumerRepository.consumerInfos[n]?).map EventProcessorInfo.eventprocessor := by
    intro n
    rw [ConsumerRepository.unMarkAll_getElem?, Option.map_map]
    congr 1
    funext info
    simp only [Function.comp]
    split_ifs <;> rfl
  have hregistered : ∀ (repository : ConsumerRepository H X) i, repository.IsRegistered i ↔
      ∃ n : Nat, (repository.consumerInfos[n]?).map EventProcessorInfo.eventprocessor = some i := by
    intro repository i
    simp only [ConsumerRepository.IsRegistered, List.mem_iff_getElem?, Option.map_eq_some_iff]
    constructor
    · rintro ⟨info, ⟨n, hn⟩, hi⟩
      exact ⟨n, info, hn, hi⟩
    · rintro ⟨n, info, hn, hi⟩
      exact ⟨info, ⟨n, hn⟩, hi⟩
  have hiff : ∀ i, (d.consumerRepository.unMarkEventProcessorsAsEndOfChain
      barrierSequences).IsRegistered i ↔ d.consumerRepository.IsRegistered i := by
    intro i
    simp only [hregistered, hprocessor]
  refine ⟨⟨h.linked.unMark barrierSequences, ?_, fun k hk => h.created_lt k ((hiff _).mp hk)⟩, hiff⟩
  intro n info hinfo
  rw [ConsumerRepository.unMarkAll_eventProcessorInfoBySequence]
  have hsame := hprocessor n
  rw [hinfo, Option.map_some, eq_comm, Option.map_eq_some_iff] at hsame
  obtain ⟨info₀, hinfo₀, hp⟩ := hsame
  rw [← hp]
  exact h.bySequence n info₀ hinfo₀

/-- A call that creates event processors after registered ones. -/
lemma Indexed.createEventProcessors (h : d.Indexed)
    (hfresh : d.AreFresh (handlers.filterMap Consumer.custom?))
    (hs : d.createEventProcessors barrierSequences handlers = .ok (d', group)) :
    d'.Indexed ∧ (∀ i ∈ group.sequences, ¬ d.consumerRepository.IsRegistered i) ∧
      (∀ i, d'.consumerRepository.IsRegistered i ↔
        d.consumerRepository.IsRegistered i ∨ i ∈ group.sequences) ∧
      ∀ i, d'.IsEndOfChain i ↔ (d.IsEndOfChain i ∧ i ∉ barrierSequences) ∨ i ∈ group.sequences := by
  obtain ⟨r, hr, rfl, hrepository, hdeps, hcreated, -⟩ := createEventProcessors_graph hs
  obtain ⟨hunmarked, hregistered⟩ := h.unMark barrierSequences
  have hinfos : d'.consumerRepository.consumerInfos =
      (d.consumerRepository.unMarkEventProcessorsAsEndOfChain barrierSequences).consumerInfos ++
        r.2.map fun p => { eventprocessor := p } := by
    rw [hrepository, hr]
    exact createEventProcessorsImpl_consumerInfos _ barrierSequences handlers
  have hfresh' : Disruptor.AreFresh { d with
      consumerRepository :=
        d.consumerRepository.unMarkEventProcessorsAsEndOfChain barrierSequences }
      (handlers.filterMap Consumer.custom?) :=
    ⟨hfresh.1, fun x hx hreg => hfresh.2 x hx ((hregistered _).mp hreg)⟩
  obtain ⟨hindexed, hnew⟩ :=
    hunmarked.createEventProcessorsImpl barrierSequences hfresh'
  rw [← hr] at hindexed hnew
  refine ⟨?_, fun i hi hreg => hnew i hi ((hregistered i).mpr hreg), ?_, ?_⟩
  · refine ⟨hindexed.linked.of_eq hrepository hdeps hcreated, ?_, ?_⟩
    · rw [hrepository]
      exact hindexed.bySequence
    · rw [hrepository, hcreated]
      exact hindexed.created_lt
  · intro i
    rw [← hregistered i]
    simp only [ConsumerRepository.IsRegistered, hinfos, List.mem_append, List.mem_map, or_and_right,
      exists_or]
    simp
  · intro i
    rw [← h.isEndOfChain_unMark barrierSequences]
    simp only [IsEndOfChain, hinfos, List.mem_append, List.mem_map, or_and_right, exists_or]
    simp

omit [DecidableEq H] in
/-- Processors of the user's own that are registered. -/
lemma Indexed.addProcessors (h : d.Indexed) {processors : List X} (hfresh : d.AreFresh processors) :
    (d.addProcessors processors).Indexed ∧
      (∀ i, (d.addProcessors processors).consumerRepository.IsRegistered i ↔
        d.consumerRepository.IsRegistered i ∨ i ∈ processors.map .custom) ∧
      ∀ i, (d.addProcessors processors).IsEndOfChain i ↔
        d.IsEndOfChain i ∨ i ∈ processors.map .custom := by
  induction processors generalizing d with
  | nil =>
    refine ⟨h, ?_, ?_⟩ <;> intro i <;> simp [Disruptor.addProcessors]
  | cons x rest ih =>
    obtain ⟨hnodup, hnew⟩ := hfresh
    obtain ⟨hnotMem, hnodup'⟩ := List.nodup_cons.mp hnodup
    obtain ⟨hx, hrest⟩ := List.forall_mem_cons.mp hnew
    have hregistered := isRegistered_addProcessor d.consumerRepository (.custom x)
    have hfresh' : Disruptor.AreFresh
        { d with consumerRepository := d.consumerRepository.addProcessor (.custom x) } rest := by
      refine ⟨hnodup', ?_⟩
      intro y hy hreg
      rcases (hregistered _).mp hreg with hold | heq
      · exact hrest y hy hold
      · obtain rfl := ProcessorId.custom.inj heq
        exact hnotMem hy
    obtain ⟨hindexed, hreg, hend⟩ := ih (h.addProcessor hx) hfresh'
    have hendx : ∀ i, Disruptor.IsEndOfChain
        { d with consumerRepository := d.consumerRepository.addProcessor (.custom x) } i ↔
          d.IsEndOfChain i ∨ i = .custom x := by
      intro i
      simp only [IsEndOfChain, ConsumerRepository.addProcessor, List.mem_append, List.mem_singleton,
        or_and_right, exists_or, exists_eq_left, and_true, eq_comm]
    refine ⟨hindexed, ?_, ?_⟩
    · intro i
      rw [List.map_cons, List.mem_cons, ← or_assoc, ← hregistered]
      exact hreg i
    · intro i
      rw [List.map_cons, List.mem_cons, ← or_assoc, ← hendx]
      exact hend i

omit [DecidableEq H] in
lemma Indexed.addGatingSequences (h : d.Indexed) {sequences : List (ProcessorId X)} :
    (d.addGatingSequences sequences).Indexed :=
  ⟨⟨h.linked.bySequence, h.linked.unused⟩, h.bySequence, h.created_lt⟩

end Disruptor

/-! ### The calls of a program -/

omit [DecidableEq H] [DecidableEq X] in
lemma BuildCall.Admissible.orderly {d : Disruptor H X} {call : BuildCall H X}
    (h : call.Admissible d) : call.Orderly d := by
  cases call with
  | handleEventsWith handlers | chain g handlers | handleEventsWithProcessors processors =>
    exact h.2
  | after handlers | and_ g other => trivial
  | afterProcessors processors | andProcessors g processors => cases h

namespace Program

variable {p p' : Program H X} {call : BuildCall H X} {handlers : List (Consumer H X)}
  {d : Disruptor H X} {group : EventHandlerGroup X} {barrierSequences : List (ProcessorId X)}

/-! #### What is registered -/

omit [DecidableEq H] [DecidableEq X] in
lemma InStep.consistent (h : p.InStep) : p.Consistent := ⟨h.indexed, h.groups⟩

omit [DecidableEq H] [DecidableEq X] in
/-- A group of registered consumers. -/
lemma Consistent.addGroup (h : p.Consistent) (hindexed : d.Indexed)
    (hkept : ∀ i, p.disruptor.consumerRepository.IsRegistered i →
      d.consumerRepository.IsRegistered i)
    (hgroup : ∀ i ∈ group.sequences, d.consumerRepository.IsRegistered i) :
    Consistent ⟨d, p.groups ++ [group]⟩ := by
  refine ⟨hindexed, ?_⟩
  intro g hg i hi
  rcases List.mem_append.mp hg with hg | hg
  · exact hkept i (h.groups g hg i hi)
  · obtain rfl := List.mem_singleton.mp hg
    exact hgroup i hi

lemma Consistent.createEventProcessors (h : p.Consistent)
    (hfresh : p.disruptor.AreFresh (handlers.filterMap Consumer.custom?))
    (hs : p.disruptor.createEventProcessors barrierSequences handlers = .ok (d, group)) :
    Consistent ⟨d, p.groups ++ [group]⟩ := by
  obtain ⟨hindexed, -, hregistered, -⟩ := h.indexed.createEventProcessors hfresh hs
  exact h.addGroup hindexed (fun i hi => (hregistered i).mpr (Or.inl hi))
    (fun i hi => (hregistered i).mpr (Or.inr hi))

omit [DecidableEq H] [DecidableEq X] in
/-- The group of `after` is made of registered consumers. -/
lemma isRegistered_of_after {handlers : List H} (hs : d.after handlers = .ok group) :
    ∀ i ∈ group.sequences, d.consumerRepository.IsRegistered i := by
  have hone : ∀ handler i, d.consumerRepository.getSequenceFor handler = .ok i →
      d.consumerRepository.IsRegistered i := by
    intro handler i hi
    unfold ConsumerRepository.getSequenceFor at hi
    split at hi
    · cases hi
    · rename_i info hinfo
      obtain ⟨n, -, hn⟩ := Option.bind_eq_some_iff.mp hinfo
      exact ⟨info, List.mem_of_getElem? hn, Except.ok.inj hi⟩
  have hall : ∀ (handlers : List H) (sequences : List (ProcessorId X)),
      handlers.mapM d.consumerRepository.getSequenceFor = .ok sequences →
      ∀ i ∈ sequences, d.consumerRepository.IsRegistered i := by
    intro handlers
    induction handlers with
    | nil =>
      rintro _ ⟨⟩ i hi
      cases hi
    | cons handler rest ih =>
      intro sequences hsequences
      rw [List.mapM_cons] at hsequences
      cases hfirst : d.consumerRepository.getSequenceFor handler with
      | error e =>
        rw [hfirst] at hsequences
        cases hsequences
      | ok j =>
        rw [hfirst] at hsequences
        cases hrest : rest.mapM d.consumerRepository.getSequenceFor with
        | error e =>
          rw [hrest] at hsequences
          cases hsequences
        | ok others =>
          rw [hrest] at hsequences
          obtain rfl : j :: others = sequences := Except.ok.inj hsequences
          exact List.forall_mem_cons.mpr ⟨hone handler j hfirst, ih others hrest⟩
  unfold Disruptor.after at hs
  cases hmap : handlers.mapM d.consumerRepository.getSequenceFor with
  | error e =>
    rw [hmap] at hs
    cases hs
  | ok sequences =>
    rw [hmap] at hs
    obtain rfl : EventHandlerGroup.mk sequences = group := Except.ok.inj hs
    exact hall handlers sequences hmap

omit [DecidableEq H] [DecidableEq X] in
lemma Consistent.isRegistered_group (h : p.Consistent) {n : Nat}
    (hgroup : p.groups[n]? = some group) :
    ∀ i ∈ group.sequences, p.disruptor.consumerRepository.IsRegistered i :=
  h.groups group (List.mem_of_getElem? hgroup)

/-- Every call registers consumers once, and returns a group of registered ones. -/
theorem Consistent.step (h : p.Consistent) (hcall : call.Orderly p.disruptor)
    (hs : p.call call = some p') : p'.Consistent := by
  simp only [Program.call, Option.map_eq_some_iff] at hs
  obtain ⟨r, hperform, rfl⟩ := hs
  cases r with
  | error e => exact h
  | ok r =>
    obtain ⟨d, group⟩ := r
    cases call with
    | handleEventsWith handlers => exact h.createEventProcessors hcall (Option.some.inj hperform)
    | handleEventsWithProcessors processors =>
      obtain ⟨rfl, rfl⟩ := Prod.mk.inj (Except.ok.inj (Option.some.inj hperform))
      obtain ⟨hindexed, hregistered, -⟩ := h.indexed.addProcessors hcall
      exact h.addGroup hindexed.addGatingSequences (fun i hi => (hregistered i).mpr (Or.inl hi))
        (fun i hi => (hregistered i).mpr (Or.inr hi))
    | after handlers =>
      have hafter := Option.some.inj hperform
      cases hgroup : p.disruptor.after handlers with
      | error e =>
        rw [hgroup] at hafter
        cases hafter
      | ok g =>
        rw [hgroup] at hafter
        obtain ⟨rfl, rfl⟩ := Prod.mk.inj (Except.ok.inj hafter)
        exact h.addGroup h.indexed (fun _ => id) (isRegistered_of_after hgroup)
    | afterProcessors processors =>
      obtain ⟨rfl, rfl⟩ := Prod.mk.inj (Except.ok.inj (Option.some.inj hperform))
      apply h.addGroup h.indexed (fun _ => id)
      intro i hi
      obtain ⟨x, hx, rfl⟩ := List.mem_map.mp hi
      exact hcall x hx
    | and_ g other =>
      simp only [BuildCall.perform] at hperform
      split at hperform
      · rename_i first second hfirst hsecond
        obtain ⟨rfl, rfl⟩ := Prod.mk.inj (Except.ok.inj (Option.some.inj hperform))
        apply h.addGroup h.indexed (fun _ => id)
        intro i hi
        rcases List.mem_append.mp hi with hi | hi
        · exact h.isRegistered_group hfirst i hi
        · exact h.isRegistered_group hsecond i hi
      · cases hperform
    | andProcessors g processors =>
      simp only [BuildCall.perform, Option.map_eq_some_iff] at hperform
      obtain ⟨first, hfirst, heq⟩ := hperform
      obtain ⟨rfl, rfl⟩ := Prod.mk.inj (Except.ok.inj heq)
      obtain ⟨hindexed, hregistered, -⟩ := h.indexed.addProcessors hcall
      apply h.addGroup hindexed (fun i hi => (hregistered i).mpr (Or.inl hi))
      intro i hi
      rcases List.mem_append.mp hi with hi | hi
      · exact (hregistered i).mpr (Or.inr hi)
      · exact (hregistered i).mpr (Or.inl (h.isRegistered_group hfirst i hi))
    | chain g handlers =>
      simp only [BuildCall.perform, Option.map_eq_some_iff] at hperform
      obtain ⟨first, -, hcreate⟩ := hperform
      exact h.createEventProcessors hcall hcreate

/-! #### What is at the end of its chain -/

/-- Creating event processors after registered ones. -/
lemma InStep.createEventProcessors (h : p.InStep)
    (hbarrier : ∀ i ∈ barrierSequences, p.disruptor.consumerRepository.IsRegistered i)
    (hne : handlers ≠ [])
    (hfresh : p.disruptor.AreFresh (handlers.filterMap Consumer.custom?))
    (hs : p.disruptor.createEventProcessors barrierSequences handlers = .ok (d, group)) :
    InStep ⟨d, p.groups ++ [group]⟩ := by
  obtain ⟨-, hnew, -, hend⟩ := h.indexed.createEventProcessors hfresh hs
  obtain ⟨hanchored, -⟩ := h.anchored.createEventProcessors h.indexed.linked (fun _ => hne) hs
  obtain ⟨hindexed, hgroups⟩ := h.consistent.createEventProcessors hfresh hs
  refine ⟨hindexed, hanchored, ?_, hgroups⟩
  intro i
  rw [Disruptor.gates_createEventProcessors hs, hend, h.gates_iff]
  constructor
  · rintro ⟨hold | hin, hnot⟩
    · exact Or.inl ⟨hold, hnot⟩
    · exact Or.inr hin
  · rintro (⟨hold, hnot⟩ | hin)
    · exact ⟨Or.inl hold, hnot⟩
    -- the new consumers are none of those that they follow
    · exact ⟨Or.inr hin, fun hmem => hnew i hin (hbarrier i hmem)⟩

omit [DecidableEq H] in
lemma InStep.handleEventsWithProcessors (h : p.InStep) {processors : List X}
    (hfresh : p.disruptor.AreFresh processors)
    (hconsistent : Consistent ⟨(p.disruptor.handleEventsWithProcessors processors).1,
      p.groups ++ [(p.disruptor.handleEventsWithProcessors processors).2]⟩) :
    InStep ⟨(p.disruptor.handleEventsWithProcessors processors).1,
      p.groups ++ [(p.disruptor.handleEventsWithProcessors processors).2]⟩ := by
  obtain ⟨-, -, hend⟩ := h.indexed.addProcessors hfresh
  obtain ⟨hanchored, -⟩ := h.anchored.addProcessors h.indexed.linked processors
  refine ⟨hconsistent.indexed, hanchored, ?_, hconsistent.groups⟩
  intro i
  have hgates : ((p.disruptor.addProcessors processors).addGatingSequences
      (processors.map .custom)).Gates i ↔ p.disruptor.Gates i ∨ i ∈ processors.map .custom :=
    Disruptor.gates_addGatingSequences _
  refine hgates.trans ?_
  rw [h.gates_iff, ← hend]
  exact Iff.rfl

/-- A call of the program keeps the two stores in step. -/
theorem InStep.step (h : p.InStep) (hcall : call.Admissible p.disruptor)
    (hs : p.call call = some p') : p'.InStep := by
  have hconsistent := h.consistent.step hcall.orderly hs
  simp only [Program.call, Option.map_eq_some_iff] at hs
  obtain ⟨r, hperform, rfl⟩ := hs
  cases r with
  | error e => exact h
  | ok r =>
    obtain ⟨d, group⟩ := r
    -- a call that only makes a group
    have hsame : d = p.disruptor → InStep ⟨d, p.groups ++ [group]⟩ := by
      rintro rfl
      exact ⟨hconsistent.indexed, h.anchored, h.gates_iff, hconsistent.groups⟩
    cases call with
    | handleEventsWith handlers =>
      exact h.createEventProcessors (by rintro i ⟨⟩) hcall.1 hcall.2 (Option.some.inj hperform)
    | handleEventsWithProcessors processors =>
      obtain ⟨rfl, rfl⟩ := Prod.mk.inj (Except.ok.inj (Option.some.inj hperform))
      exact h.handleEventsWithProcessors hcall.2 hconsistent
    | after handlers =>
      have hafter := Option.some.inj hperform
      cases hgroup : p.disruptor.after handlers with
      | error e =>
        rw [hgroup] at hafter
        cases hafter
      | ok g =>
        rw [hgroup] at hafter
        exact hsame (Prod.mk.inj (Except.ok.inj hafter)).1.symm
    | and_ g other =>
      simp only [BuildCall.perform] at hperform
      split at hperform
      · exact hsame (Prod.mk.inj (Except.ok.inj (Option.some.inj hperform))).1.symm
      · cases hperform
    | chain g handlers =>
      simp only [BuildCall.perform, Option.map_eq_some_iff] at hperform
      obtain ⟨first, hfirst, hcreate⟩ := hperform
      exact h.createEventProcessors (h.consistent.isRegistered_group hfirst) hcall.1 hcall.2 hcreate
    | afterProcessors processors | andProcessors g processors => cases hcall

omit [DecidableEq H] [DecidableEq X] in
lemma inStep_initial (producerType : ProducerType) (b : BufferSize) :
    (Program.initial H X producerType b).InStep where
  indexed := by
    refine ⟨⟨?_, fun _ _ => rfl⟩, ?_, ?_⟩
    · rintro i n ⟨⟩
    · rintro n info ⟨⟩
    · rintro k ⟨info, hinfo, -⟩
      cases hinfo
  anchored := by rintro n info ⟨⟩
  gates_iff := by
    intro i
    constructor
    · intro hi
      cases producerType <;> cases hi
    · rintro ⟨info, hinfo, -⟩
      cases hinfo
  groups := by
    rintro group hgroup
    cases hgroup

omit [DecidableEq H] [DecidableEq X] in
/-- From a consumer that is registered a chain of those that follow one another leads to one that
gates the ring. -/
lemma InStep.path (h : p.InStep) {i : ProcessorId X}
    (hi : p.disruptor.consumerRepository.IsRegistered i) :
    ∃ j, Relation.ReflTransGen p.disruptor.Follows i j ∧ p.disruptor.Gates j := by
  -- by induction from the end of the list: those that follow were registered later
  have hfrom : ∀ (count n : Nat) (info : EventProcessorInfo X),
      p.disruptor.consumerRepository.consumerInfos.length ≤ n + count →
      p.disruptor.consumerRepository.consumerInfos[n]? = some info →
      ∃ j, Relation.ReflTransGen p.disruptor.Follows info.eventprocessor j ∧
        p.disruptor.Gates j := by
    intro count
    induction count with
    | zero =>
      intro n info hlen hinfo
      rw [List.getElem?_eq_none (by omega)] at hinfo
      cases hinfo
    | succ count ih =>
      intro n info hlen hinfo
      cases hchain : info.endOfChain with
      | true =>
        refine ⟨info.eventprocessor, .refl, (h.gates_iff _).mpr ?_⟩
        exact ⟨info, List.mem_of_getElem? hinfo, rfl, hchain⟩
      | false =>
        obtain ⟨m, info', hlt, hinfo', hdep⟩ := h.anchored n info hinfo hchain
        obtain ⟨j, hpath, hgates⟩ := ih m info' (by omega) hinfo'
        exact ⟨j, .head hdep hpath, hgates⟩
  obtain ⟨info, hinfo, rfl⟩ := hi
  obtain ⟨n, hn⟩ := List.mem_iff_getElem?.mp hinfo
  exact hfrom _ n info (Nat.le_add_left _ _) hn

end Program

/-- After every call of a program that builds a graph, the sequences that gate the ring are those of
the registered consumers at the end of their chain, and every registered consumer is followed, in
one step or several or none, by one that gates the ring. -/
theorem gating_inStep {producerType : ProducerType} {b : BufferSize}
    {calls : List (BuildCall H X)}
    (hcalls : ∀ x ∈ transitions Program.call (Program.initial H X producerType b) calls,
      x.act.Admissible x.pre.disruptor) :
    ∀ x ∈ transitions Program.call (Program.initial H X producerType b) calls,
      {i | x.post.disruptor.Gates i} = {i | x.post.disruptor.IsEndOfChain i} ∧
      ∀ i, x.post.disruptor.consumerRepository.IsRegistered i →
        ∃ j, Relation.ReflTransGen x.post.disruptor.Follows i j ∧ x.post.disruptor.Gates j := by
  have hinv := transitions_invariant Program.InStep
    (fun x => BuildCall.Admissible x.pre.disruptor x.act)
    (fun _ _ _ hi hs hc => hi.step hc hs) (Program.inStep_initial producerType b) hcalls
  intro x hx
  obtain ⟨-, hpost⟩ := hinv x hx
  exact ⟨Set.ext hpost.gates_iff, fun i hi => hpost.path hi⟩

/-- A diamond, and a second chain behind its first handler: the group of that handler is used
twice. -/
def diamond : List (BuildCall Nat Unit) :=
  [.handleEventsWith [.handler 0], .chain 0 [.handler 1, .factory ()], .chain 1 [.handler 2],
    .chain 0 [.handler 3], .and_ 2 3, .after [1], .chain 4 [.handler 4]]

theorem gating_inStep_diamond :
    ∃ x, (transitions Program.call (Program.initial Nat Unit .SINGLE ⟨3, by decide⟩) diamond)[6]? =
        some x ∧
      x.post.disruptor.sequencer.gatingList = [some (.created 4)] ∧
      {i | x.post.disruptor.Gates i} = {i | x.post.disruptor.IsEndOfChain i} := by
  obtain ⟨x, hx, hlist⟩ :
      ∃ x, (transitions Program.call (Program.initial Nat Unit .SINGLE ⟨3, by decide⟩)
          diamond)[6]? =
          some x ∧
        x.post.disruptor.sequencer.gatingList = [some (.created 4)] := ⟨_, rfl, rfl⟩
  refine ⟨x, hx, hlist, (gating_inStep ?_ x (List.mem_of_getElem? hx)).1⟩
  have hall : (transitions Program.call (Program.initial Nat Unit .SINGLE ⟨3, by decide⟩)
      diamond).all (fun x => decide (BuildCall.Admissible x.pre.disruptor x.act)) = true := by
    decide
  intro y hy
  exact of_decide_eq_true (List.all_eq_true.mp hall y hy)

end Disruptor.Dsl
