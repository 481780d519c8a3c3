import Disruptor.Dsl.EndOfChain

/-!
# A chaining call that fails

`createEventProcessors` unmarks the ends of the chains first, then registers the consumers one by
one, and changes the gating list last. When a factory throws, what was done by then stays.
-/

namespace Disruptor.Dsl

set_option linter.dupNamespace false

variable {H X : Type}

/-- What a chaining call is given, where a factory may throw. -/
inductive Argument (H X : Type) where
  | handler (handlerIdentity : H)
  /-- What `createEventProcessor` of the factory returns or throws. -/
  | factory (processor : Except String X)

/-- An argument that does not throw. -/
def Argument.ofConsumer : Consumer H X → Argument H X
  | .handler handlerIdentity => .handler handlerIdentity
  | .factory x => .factory (.ok x)

/-- An argument is a consumer, or a factory that throws. -/
lemma Argument.eq_ofConsumer_or_throws (argument : Argument H X) :
    (∃ c, argument = .ofConsumer c) ∨ ∃ e, argument = .factory (.error e) := by
  match argument with
  | .handler handlerIdentity => exact Or.inl ⟨.handler handlerIdentity, rfl⟩
  | .factory (.ok x) => exact Or.inl ⟨.factory x, rfl⟩
  | .factory (.error e) => exact Or.inr ⟨e, rfl⟩

/-- The sequence belongs to a consumer that is at the end of its chain. -/
def ConsumerRepository.EndsChain (repository : ConsumerRepository H X) (i : ProcessorId X) : Prop :=
  ∃ n info, repository.eventProcessorInfoBySequence i = some n ∧
    repository.consumerInfos[n]? = some info ∧ info.endOfChain = true

namespace Throwing

variable [DecidableEq H] [DecidableEq X]

/-- `createOne(barrierSequences, outSequences, handler)`, and the one for a factory. -/
def createOne (d : Disruptor H X) (barrierSequences : List (ProcessorId X)) :
    Argument H X → Disruptor H X × Except String (ProcessorId X)
  | .handler handlerIdentity =>
    let r := d.createOne barrierSequences (.handler handlerIdentity)
    (r.1, .ok r.2)
  | .factory (.ok x) =>
    let r := d.createOne barrierSequences (.factory x)
    (r.1, .ok r.2)
  | .factory (.error e) => (d, .error e)

/-- `createEventProcessorsImpl(barrierSequences, outSequences, handlers...)`. -/
def createEventProcessorsImpl (d : Disruptor H X) (barrierSequences : List (ProcessorId X)) :
    List (Argument H X) → Disruptor H X × Except String (List (ProcessorId X))
  | [] => (d, .ok [])
  | handler :: rest =>
    match createOne d barrierSequences handler with
    | (d', .error e) => (d', .error e)
    | (d', .ok processor) =>
      let r := createEventProcessorsImpl d' barrierSequences rest
      (r.1, r.2.map (processor :: ·))

/-- `createEventProcessors(barrierSequences, handlers...)`: the disruptor as the call leaves it, and
what it returns or throws. -/
def createEventProcessors (d : Disruptor H X) (barrierSequences : List (ProcessorId X))
    (handlers : List (Argument H X)) : Disruptor H X × Except String (EventHandlerGroup X) :=
  if d.started then (d, .error "All event handlers must be added before calling start.")
  else
    match createEventProcessorsImpl { d with
        consumerRepository :=
          d.consumerRepository.unMarkEventProcessorsAsEndOfChain barrierSequences
      } barrierSequences handlers with
    | (d', .error e) => (d', .error e)
    | (d', .ok sequences) =>
      ((d'.addGatingSequences sequences).updateGatingSequencesForNextInChain barrierSequences,
        .ok ⟨sequences⟩)

/-! ### Calls in which no factory throws -/

variable {d : Disruptor H X} {barrierSequences : List (ProcessorId X)}

@[simp] lemma createOne_ofConsumer (c : Consumer H X) :
    createOne d barrierSequences (.ofConsumer c) =
      ((d.createOne barrierSequences c).1, .ok (d.createOne barrierSequences c).2) := by
  cases c <;> rfl

lemma createEventProcessorsImpl_ofConsumers (handlers : List (Consumer H X)) :
    createEventProcessorsImpl d barrierSequences (handlers.map .ofConsumer) =
      ((d.createEventProcessorsImpl barrierSequences handlers).1,
        .ok (d.createEventProcessorsImpl barrierSequences handlers).2) := by
  induction handlers generalizing d with
  | nil => rfl
  | cons c rest ih =>
    simp [createEventProcessorsImpl, Disruptor.createEventProcessorsImpl, ih, Except.map]

/-- Where nothing throws, the call is the one that the graph is built of. -/
theorem createEventProcessors_ofConsumers (handlers : List (Consumer H X)) :
    createEventProcessors d barrierSequences (handlers.map .ofConsumer) =
      match d.createEventProcessors barrierSequences handlers with
      | .error e => (d, .error e)
      | .ok (d', group) => (d', .ok group) := by
  unfold createEventProcessors Disruptor.createEventProcessors
  split
  · rfl
  · simp [createEventProcessorsImpl_ofConsumers]

/-! ### Calls in which a factory throws -/

variable {handlers : List (Argument H X)} {e : String}

omit [DecidableEq H] [DecidableEq X] in
lemma eq_error_of_map {α β : Type} {f : α → β} {r : Except String α} (h : r.map f = .error e) :
    r = .error e := by
  cases r with
  | error e' => simpa [Except.map] using h
  | ok a => simp [Except.map] at h

/-- The consumers before the factory that throws have been created, and no other. -/
lemma createEventProcessorsImpl_error
    (hthrown : (createEventProcessorsImpl d barrierSequences handlers).2 = .error e) :
    ∃ (before : List (Consumer H X)) (after : List (Argument H X)),
      handlers = before.map .ofConsumer ++ .factory (.error e) :: after ∧
      (createEventProcessorsImpl d barrierSequences handlers).1 =
        (d.createEventProcessorsImpl barrierSequences before).1 := by
  induction handlers generalizing d with
  | nil => cases hthrown
  | cons handler rest ih =>
    rcases handler.eq_ofConsumer_or_throws with ⟨c, rfl⟩ | ⟨e', rfl⟩
    · simp only [createEventProcessorsImpl, createOne_ofConsumer] at hthrown ⊢
      obtain ⟨before, after, rfl, hbefore⟩ := ih (eq_error_of_map hthrown)
      exact ⟨c :: before, after, rfl, hbefore⟩
    · simp only [createEventProcessorsImpl, createOne, Except.error.injEq] at hthrown
      subst hthrown
      exact ⟨[], rest, rfl, rfl⟩

lemma createEventProcessors_error (hstarted : d.started = false)
    (hthrown : (createEventProcessors d barrierSequences handlers).2 = .error e) :
    ∃ (before : List (Consumer H X)) (after : List (Argument H X)),
      handlers = before.map .ofConsumer ++ .factory (.error e) :: after ∧
      (createEventProcessors d barrierSequences handlers).1 =
        (Disruptor.createEventProcessorsImpl { d with
          consumerRepository :=
            d.consumerRepository.unMarkEventProcessorsAsEndOfChain barrierSequences
          } barrierSequences before).1 := by
  simp only [createEventProcessors, hstarted, Bool.false_eq_true, if_false] at hthrown ⊢
  split at hthrown
  · rename_i d' e' hresult
    cases hthrown
    have hsecond := congrArg Prod.snd hresult
    obtain ⟨before, after, hhandlers, hfirst⟩ := createEventProcessorsImpl_error hsecond
    refine ⟨before, after, hhandlers, ?_⟩
    rwa [hresult] at hfirst
  · cases hthrown

end Throwing

/-! ### What a failed call leaves -/

namespace ConsumerRepository

variable (repository : ConsumerRepository H X)

@[simp] lemma unMarkAll_eventProcessorInfoByEventHandler (barrierSequences : List (ProcessorId X)) :
    (repository.unMarkEventProcessorsAsEndOfChain
      barrierSequences).eventProcessorInfoByEventHandler =
        repository.eventProcessorInfoByEventHandler := by
  induction barrierSequences generalizing repository with
  | nil => rfl
  | cons i rest ih =>
    refine (ih (repository.unMark i)).trans ?_
    unfold unMark
    split <;> rfl

lemma unMarkAll_length (barrierSequences : List (ProcessorId X)) :
    (repository.unMarkEventProcessorsAsEndOfChain barrierSequences).consumerInfos.length =
      repository.consumerInfos.length := by
  induction barrierSequences generalizing repository with
  | nil => rfl
  | cons i rest ih =>
    refine (ih (repository.unMark i)).trans ?_
    unfold unMark
    split <;> simp

/-- The flags stay as they are just when no consumer of the list is at the end of its chain. -/
lemma unMarkAll_consumerInfos_eq_iff (barrierSequences : List (ProcessorId X)) :
    (repository.unMarkEventProcessorsAsEndOfChain barrierSequences).consumerInfos =
        repository.consumerInfos ↔
      ∀ i ∈ barrierSequences, ¬ repository.EndsChain i := by
  constructor
  · rintro hsame i hi ⟨n, info, hn, hinfo, hend⟩
    have hmarked := repository.unMarkAll_getElem? barrierSequences n
    rw [hsame, hinfo, Option.map_some, if_pos ⟨i, hi, hn⟩] at hmarked
    rw [Option.some.inj hmarked] at hend
    cases hend
  · intro hnone
    apply List.ext_getElem?
    intro n
    rw [unMarkAll_getElem?]
    cases hinfo : repository.consumerInfos[n]? with
    | none => rfl
    | some info =>
      rw [Option.map_some, Option.some.injEq]
      split_ifs with hmarked
      · obtain ⟨i, hi, hn⟩ := hmarked
        have hend : info.endOfChain = false := by
          by_contra htrue
          exact hnone i hi ⟨n, info, hn, hinfo, by simpa using htrue⟩
        cases info
        simp_all [EventProcessorInfo.markAsUsedInBarrier]
      · rfl

end ConsumerRepository

namespace Disruptor

/-- The second state has the graph of the first. -/
structure SameGraph (d d' : Disruptor H X) : Prop where
  /-- The consumers, with their flags. -/
  consumerInfos : d'.consumerRepository.consumerInfos = d.consumerRepository.consumerInfos
  getSequenceFor : ∀ handlerIdentity,
    d'.consumerRepository.getSequenceFor handlerIdentity =
      d.consumerRepository.getSequenceFor handlerIdentity
  gatingList : d'.sequencer.gatingList = d.sequencer.gatingList
  values : d'.values = d.values

variable [DecidableEq H] [DecidableEq X] {d : Disruptor H X}
  {barrierSequences : List (ProcessorId X)} {handlers : List (Argument H X)} {e : String}

lemma createEventProcessorsImpl_length (handlers : List (Consumer H X)) :
    (d.createEventProcessorsImpl barrierSequences handlers).2.length = handlers.length := by
  induction handlers generalizing d with
  | nil => rfl
  | cons c rest ih => simp [createEventProcessorsImpl, ih]

/-- A chaining call that has unmarked the consumers to follow, and has created `before`, has left
the graph as it was just when these changed nothing. -/
lemma sameGraph_unMark_iff (before : List (Consumer H X)) :
    d.SameGraph (createEventProcessorsImpl { d with
        consumerRepository :=
          d.consumerRepository.unMarkEventProcessorsAsEndOfChain barrierSequences
        } barrierSequences before).1 ↔
      before = [] ∧ ∀ i ∈ barrierSequences, ¬ d.consumerRepository.EndsChain i := by
  constructor
  · intro hsame
    have hinfos := hsame.consumerInfos
    rw [createEventProcessorsImpl_consumerInfos] at hinfos
    have hlength := congrArg List.length hinfos
    simp only [List.length_append, List.length_map, createEventProcessorsImpl_length,
      ConsumerRepository.unMarkAll_length, Nat.add_eq_left, List.length_eq_zero_iff] at hlength
    subst hlength
    refine ⟨rfl, ?_⟩
    apply (d.consumerRepository.unMarkAll_consumerInfos_eq_iff barrierSequences).mp
    simpa [createEventProcessorsImpl] using hinfos
  · rintro ⟨rfl, hnone⟩
    have hinfos :=
      (d.consumerRepository.unMarkAll_consumerInfos_eq_iff barrierSequences).mpr hnone
    refine ⟨hinfos, ?_, rfl, rfl⟩
    intro handlerIdentity
    simp [createEventProcessorsImpl, ConsumerRepository.getSequenceFor, hinfos]

/-- A chaining call that exits by an exception leaves the graph as it was just when it was made
after `start()`, or when the factory that throws comes first and the consumers to follow are not at
the end of their chains. -/
theorem sameGraph_of_thrown_iff
    (hthrown : (Throwing.createEventProcessors d barrierSequences handlers).2 = .error e) :
    d.SameGraph (Throwing.createEventProcessors d barrierSequences handlers).1 ↔
      d.started = true ∨
        (∃ after, handlers = .factory (.error e) :: after) ∧
          ∀ i ∈ barrierSequences, ¬ d.consumerRepository.EndsChain i := by
  by_cases hstarted : d.started = true
  · -- `checkNotStarted()` throws before anything is done
    have hsame : (Throwing.createEventProcessors d barrierSequences handlers).1 = d := by
      simp [Throwing.createEventProcessors, hstarted]
    rw [hsame]
    exact iff_of_true ⟨rfl, fun _ => rfl, rfl, rfl⟩ (Or.inl hstarted)
  · obtain ⟨before, after, rfl, hbefore⟩ :=
      Throwing.createEventProcessors_error (by simpa using hstarted) hthrown
    have hfirst : (∃ after', before.map Argument.ofConsumer ++ .factory (.error e) :: after =
        .factory (.error e) :: after') ↔ before = [] := by
      constructor
      · rintro ⟨after', heq⟩
        match before with
        | [] => rfl
        | c :: rest => cases c <;> simp [Argument.ofConsumer] at heq
      · rintro rfl
        exact ⟨after, rfl⟩
    rw [hbefore, sameGraph_unMark_iff, hfirst]
    simp [hstarted]

end Disruptor

/-- A disruptor with one handler, which is at the end of its chain. -/
def oneHandler : Disruptor Unit Unit :=
  (Throwing.createEventProcessors (Program.initial Unit Unit .SINGLE ⟨3, by decide⟩).disruptor []
    [.handler ()]).1

/-- The handler is to be followed by what a factory makes, and the factory throws: no consumer is
at the end of its chain any more. -/
theorem oneHandler_thenThrows :
    (Throwing.createEventProcessors oneHandler [.created 0] [.factory (.error "e")]).2 =
        .error "e" ∧
      oneHandler.IsEndOfChain (.created 0) ∧
      ¬ (Throwing.createEventProcessors oneHandler [.created 0]
        [.factory (.error "e")]).1.IsEndOfChain (.created 0) ∧
      ¬ oneHandler.SameGraph (Throwing.createEventProcessors oneHandler [.created 0]
        [.factory (.error "e")]).1 := by
  refine ⟨rfl, ⟨⟨.created 0, true⟩, List.mem_singleton_self _, rfl, rfl⟩, ?_, ?_⟩
  · rintro ⟨info, hinfo, -, hend⟩
    obtain rfl := List.mem_singleton.mp hinfo
    cases hend
  · intro hsame
    have hinfos := hsame.consumerInfos
    cases hinfos

theorem sameGraph_of_thrown_iff_oneHandler :
    (Throwing.createEventProcessors oneHandler [] [.factory (.error "e"), .handler ()]).2 =
        .error "e" ∧
      oneHandler.SameGraph
        (Throwing.createEventProcessors oneHandler [] [.factory (.error "e"), .handler ()]).1 := by
  refine ⟨rfl, (Disruptor.sameGraph_of_thrown_iff rfl).mpr (Or.inr ⟨⟨_, rfl⟩, ?_⟩)⟩
  simp

end Disruptor.Dsl
