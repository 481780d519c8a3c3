import Disruptor.Dsl.Building

/-!
# The shape of the graph

A consumer that is not at the end of its chain is followed by one that was registered later.
-/

namespace Disruptor.Dsl

set_option linter.dupNamespace false

variable {H X : Type}

/-! ### The repository -/

namespace ConsumerRepository

variable (repository : ConsumerRepository H X)

/-- A turn of the loop marks the consumer that the sequence belongs to. -/
lemma unMark_getElem? (i : ProcessorId X) (n : Nat) :
    (repository.unMark i).consumerInfos[n]? = repository.consumerInfos[n]?.map fun info =>
      if repository.eventProcessorInfoBySequence i = some n then info.markAsUsedInBarrier
      else info := by
  unfold unMark
  split
  · rename_i hnone
    simp [hnone]
  · rename_i m hsome
    simp only [List.getElem?_modify, hsome, Option.some.injEq]
    split_ifs <;> simp

@[simp] lemma unMark_eventProcessorInfoBySequence (i : ProcessorId X) :
    (repository.unMark i).eventProcessorInfoBySequence =
      repository.eventProcessorInfoBySequence := by
  unfold unMark
  split <;> rfl

@[simp] lemma unMarkAll_eventProcessorInfoBySequence (barrierSequences : List (ProcessorId X)) :
    (repository.unMarkEventProcessorsAsEndOfChain
      barrierSequences).eventProcessorInfoBySequence =
        repository.eventProcessorInfoBySequence := by
  induction barrierSequences generalizing repository with
  | nil => rfl
  | cons i rest ih =>
    exact (ih (repository.unMark i)).trans (repository.unMark_eventProcessorInfoBySequence i)

/-- The consumers that the barrier sequences belong to are marked, the others are not. -/
lemma unMarkAll_getElem? (barrierSequences : List (ProcessorId X)) (n : Nat) :
    (repository.unMarkEventProcessorsAsEndOfChain barrierSequences).consumerInfos[n]? =
      repository.consumerInfos[n]?.map fun info =>
        if ∃ i ∈ barrierSequences, repository.eventProcessorInfoBySequence i = some n then
          info.markAsUsedInBarrier
        else info := by
  induction barrierSequences generalizing repository with
  | nil => simp [unMarkEventProcessorsAsEndOfChain]
  | cons i rest ih =>
    show ((repository.unMark i).unMarkEventProcessorsAsEndOfChain rest).consumerInfos[n]? = _
    rw [ih, unMark_getElem?, Option.map_map]
    congr 1
    funext info
    simp only [Function.comp, unMark_eventProcessorInfoBySequence, List.exists_mem_cons_iff]
    by_cases hi : repository.eventProcessorInfoBySequence i = some n <;>
      by_cases hrest : ∃ j ∈ rest, repository.eventProcessorInfoBySequence j = some n <;>
      simp [hi, hrest, EventProcessorInfo.markAsUsedInBarrier]

end ConsumerRepository

/-! ### Creating event processors -/

variable [DecidableEq H] [DecidableEq X]

namespace Disruptor

variable {d d' : Disruptor H X} {barrierSequences : List (ProcessorId X)}
  {handlers : List (Consumer H X)} {group : EventHandlerGroup X}

lemma createOne_consumerInfos (d : Disruptor H X) (barrierSequences : List (ProcessorId X))
    (c : Consumer H X) :
    (d.createOne barrierSequences c).1.consumerRepository.consumerInfos =
      d.consumerRepository.consumerInfos ++
        [{ eventprocessor := (d.createOne barrierSequences c).2 }] := by
  cases c <;> rfl

/-- The new consumers are registered in order, at the end of their chain. -/
lemma createEventProcessorsImpl_consumerInfos (d : Disruptor H X)
    (barrierSequences : List (ProcessorId X)) (handlers : List (Consumer H X)) :
    (d.createEventProcessorsImpl barrierSequences handlers).1.consumerRepository.consumerInfos =
      d.consumerRepository.consumerInfos ++
        (d.createEventProcessorsImpl barrierSequences handlers).2.map
          fun p => { eventprocessor := p } := by
  induction handlers generalizing d with
  | nil => simp [createEventProcessorsImpl]
  | cons c rest ih =>
    simp only [createEventProcessorsImpl, ih, createOne_consumerInfos, List.map_cons,
      List.append_assoc, List.singleton_append]

/-- The map from sequences points into the list, and processors that do not exist depend on
nothing. -/
structure Linked (d : Disruptor H X) : Prop where
  bySequence : ∀ i n, d.consumerRepository.eventProcessorInfoBySequence i = some n →
    d.consumerRepository.consumerInfos[n]?.map EventProcessorInfo.eventprocessor = some i
  unused : ∀ k, d.created ≤ k → d.dependentSequences (.created k) = []

omit [DecidableEq H] in
lemma Linked.addProcessor (h : d.Linked) (i : ProcessorId X) :
    { d with consumerRepository := d.consumerRepository.addProcessor i }.Linked where
  bySequence := by
    intro j n hn
    simp only [ConsumerRepository.addProcessor, Function.update_apply] at hn ⊢
    split_ifs at hn with hj
    · obtain rfl := Option.some.inj hn
      simp [hj]
    · have hold := h.bySequence j n hn
      have hlt : n < d.consumerRepository.consumerInfos.length := by
        by_contra hle
        rw [List.getElem?_eq_none (by omega)] at hold
        cases hold
      rw [List.getElem?_append_left hlt]
      exact hold
  unused := h.unused

lemma Linked.createOne (h : d.Linked) (barrierSequences : List (ProcessorId X))
    (c : Consumer H X) :
    (d.createOne barrierSequences c).1.Linked := by
  cases c with
  | handler handlerIdentity =>
    refine ⟨(h.addProcessor (.created d.created)).bySequence, ?_⟩
    intro k hk
    have hk' : d.created + 1 ≤ k := hk
    have hne : (.created k : ProcessorId X) ≠ .created d.created := by
      simp only [ne_eq, ProcessorId.created.injEq]
      omega
    exact (Function.update_of_ne hne _ _).trans (h.unused k (by omega))
  | factory x =>
    refine ⟨(h.addProcessor (.custom x)).bySequence, ?_⟩
    intro k hk
    have hne : (.created k : ProcessorId X) ≠ .custom x := by simp
    simp only [Disruptor.createOne, Function.update_of_ne hne]
    exact h.unused k hk

/-- A dependency is never given up. -/
lemma Linked.createOne_dependentSequences_subset (h : d.Linked) (c : Consumer H X)
    {i j : ProcessorId X} (hi : i ∈ d.dependentSequences j) :
    i ∈ (d.createOne barrierSequences c).1.dependentSequences j := by
  cases c with
  | handler handlerIdentity =>
    have hne : j ≠ .created d.created := by
      rintro rfl
      rw [h.unused d.created le_rfl] at hi
      cases hi
    simp only [Disruptor.createOne, Function.update_of_ne hne]
    exact hi
  | factory x =>
    by_cases hj : j = .custom x
    · subst hj
      simp [Disruptor.createOne, hi]
    · simp only [Disruptor.createOne, Function.update_of_ne hj]
      exact hi

lemma mem_createOne_dependentSequences (d : Disruptor H X) (c : Consumer H X)
    {i : ProcessorId X} (hi : i ∈ barrierSequences) :
    i ∈ (d.createOne barrierSequences c).1.dependentSequences
      (d.createOne barrierSequences c).2 := by
  cases c <;> simp [Disruptor.createOne, hi]

/-- The new consumers depend on the barrier sequences, and no dependency is given up. -/
lemma Linked.createEventProcessorsImpl (h : d.Linked) (barrierSequences : List (ProcessorId X))
    (handlers : List (Consumer H X)) :
    (d.createEventProcessorsImpl barrierSequences handlers).1.Linked ∧
      (∀ i j, i ∈ d.dependentSequences j →
        i ∈ (d.createEventProcessorsImpl barrierSequences handlers).1.dependentSequences j) ∧
      ∀ j ∈ (d.createEventProcessorsImpl barrierSequences handlers).2, ∀ i ∈ barrierSequences,
        i ∈ (d.createEventProcessorsImpl barrierSequences handlers).1.dependentSequences j := by
  induction handlers generalizing d with
  | nil => exact ⟨h, fun _ _ hi => hi, by rintro j ⟨⟩⟩
  | cons c rest ih =>
    obtain ⟨hlinked, hmono, hnew⟩ := ih (h.createOne barrierSequences c)
    refine ⟨hlinked, ?_, ?_⟩
    · exact fun i j hi => hmono i j (h.createOne_dependentSequences_subset c hi)
    · intro j hj i hi
      rcases List.mem_cons.mp hj with rfl | hj
      · exact hmono i _ (d.mem_createOne_dependentSequences c hi)
      · exact hnew j hj i hi

/-- A consumer that is not at the end of its chain is followed by one that was registered
later. -/
def Anchored (d : Disruptor H X) : Prop :=
  ∀ (n : Nat) (info : EventProcessorInfo X), d.consumerRepository.consumerInfos[n]? = some info →
    info.endOfChain = false → ∃ (m : Nat) (info' : EventProcessorInfo X), n < m ∧
      d.consumerRepository.consumerInfos[m]? = some info' ∧
      info.eventprocessor ∈ d.dependentSequences info'.eventprocessor

lemma createEventProcessorsImpl_snd_ne_nil (d : Disruptor H X)
    (barrierSequences : List (ProcessorId X)) {handlers : List (Consumer H X)}
    (hne : handlers ≠ []) : (d.createEventProcessorsImpl barrierSequences handlers).2 ≠ [] := by
  cases handlers with
  | nil => exact absurd rfl hne
  | cons c rest => simp [createEventProcessorsImpl]

omit [DecidableEq H] in
/-- Changing the gating list leaves the graph alone. -/
lemma updateGatingSequencesForNextInChain_graph (d : Disruptor H X)
    (barrierSequences : List (ProcessorId X)) :
    (d.updateGatingSequencesForNextInChain barrierSequences).consumerRepository =
        d.consumerRepository ∧
      (d.updateGatingSequencesForNextInChain barrierSequences).dependentSequences =
        d.dependentSequences ∧
      (d.updateGatingSequencesForNextInChain barrierSequences).created = d.created := by
  induction barrierSequences generalizing d with
  | nil => exact ⟨rfl, rfl, rfl⟩
  | cons i rest ih => exact ih (d.removeGatingSequence i)

/-- The graph after `createEventProcessors`: the marks of the barrier sequences, then the new
consumers. -/
lemma createEventProcessors_graph
    (hs : d.createEventProcessors barrierSequences handlers = .ok (d', group)) :
    ∃ r : Disruptor H X × List (ProcessorId X),
      r = { d with
        consumerRepository :=
          d.consumerRepository.unMarkEventProcessorsAsEndOfChain barrierSequences
      }.createEventProcessorsImpl barrierSequences handlers ∧
      group = ⟨r.2⟩ ∧ d'.consumerRepository = r.1.consumerRepository ∧
      d'.dependentSequences = r.1.dependentSequences ∧ d'.created = r.1.created ∧
      d'.sequencer = ((r.1.addGatingSequences r.2).updateGatingSequencesForNextInChain
        barrierSequences).sequencer := by
  simp only [createEventProcessors] at hs
  split_ifs at hs
  obtain ⟨rfl, rfl⟩ := Prod.mk.inj (Except.ok.inj hs)
  refine ⟨_, rfl, rfl, ?_⟩
  obtain ⟨hrepository, hdeps, hcreated⟩ :=
    updateGatingSequencesForNextInChain_graph (Disruptor.addGatingSequences _ _) barrierSequences
  exact ⟨hrepository, hdeps, hcreated, rfl⟩

omit [DecidableEq H] [DecidableEq X] in
lemma Linked.unMark (h : d.Linked) (barrierSequences : List (ProcessorId X)) :
    { d with
      consumerRepository :=
        d.consumerRepository.unMarkEventProcessorsAsEndOfChain barrierSequences }.Linked where
  bySequence := by
    intro i n hn
    simp only [ConsumerRepository.unMarkAll_eventProcessorInfoBySequence] at hn
    have hold := h.bySequence i n hn
    simp only [ConsumerRepository.unMarkAll_getElem?, Option.map_map]
    rw [← hold]
    congr 1
    funext info
    simp only [Function.comp]
    split_ifs <;> rfl
  unused := h.unused

omit [DecidableEq H] [DecidableEq X] in
lemma Linked.of_eq (h : d.Linked) (hrepository : d'.consumerRepository = d.consumerRepository)
    (hdeps : d'.dependentSequences = d.dependentSequences) (hcreated : d'.created = d.created) :
    d'.Linked := by
  constructor
  · rw [hrepository]
    exact h.bySequence
  · rw [hdeps, hcreated]
    exact h.unused

/-- A chaining call that creates consumers anchors the members of its group. -/
lemma Anchored.createEventProcessors (h : d.Anchored) (hlinked : d.Linked)
    (hne : barrierSequences ≠ [] → handlers ≠ [])
    (hs : d.createEventProcessors barrierSequences handlers = .ok (d', group)) :
    d'.Anchored ∧ d'.Linked := by
  obtain ⟨r, hr, -, hrepository, hdeps, hcreated, -⟩ := createEventProcessors_graph hs
  obtain ⟨hlinked', hmono, hnew⟩ := (hlinked.unMark barrierSequences).createEventProcessorsImpl
    barrierSequences handlers
  rw [← hr] at hlinked' hmono hnew
  refine ⟨?_, hlinked'.of_eq hrepository hdeps hcreated⟩
  have hinfos : r.1.consumerRepository.consumerInfos =
      (d.consumerRepository.unMarkEventProcessorsAsEndOfChain barrierSequences).consumerInfos ++
        r.2.map fun p => { eventprocessor := p } := by
    rw [hr]
    exact createEventProcessorsImpl_consumerInfos _ barrierSequences handlers
  intro n info hinfo hchain
  rw [hrepository, hinfos] at hinfo ⊢
  rw [hdeps]
  -- the new consumers are at the end of their chain
  have hlt : n < (d.consumerRepository.unMarkEventProcessorsAsEndOfChain
      barrierSequences).consumerInfos.length := by
    by_contra hle
    rw [List.getElem?_append_right (by omega), List.getElem?_map, Option.map_eq_some_iff] at hinfo
    obtain ⟨p, -, rfl⟩ := hinfo
    cases hchain
  rw [List.getElem?_append_left hlt, ConsumerRepository.unMarkAll_getElem?,
    Option.map_eq_some_iff] at hinfo
  obtain ⟨info₀, hinfo₀, hmark⟩ := hinfo
  have hprocessor : info.eventprocessor = info₀.eventprocessor := by
    rw [← hmark]
    split_ifs <;> rfl
  by_cases hmarked : ∃ i ∈ barrierSequences,
      d.consumerRepository.eventProcessorInfoBySequence i = some n
  · obtain ⟨i, hi, hn⟩ := hmarked
    have hpointed := hlinked.bySequence i n hn
    rw [hinfo₀] at hpointed
    obtain rfl : info₀.eventprocessor = i := Option.some.inj hpointed
    -- the first of the new consumers follows it
    obtain ⟨p, rest, hp⟩ : ∃ p rest, r.2 = p :: rest := by
      apply List.exists_cons_of_ne_nil
      rw [hr]
      exact createEventProcessorsImpl_snd_ne_nil _ barrierSequences
        (hne (List.ne_nil_of_mem hi))
    refine ⟨_, { eventprocessor := p }, hlt, ?_, ?_⟩
    · rw [List.getElem?_append_right le_rfl, hp]
      simp
    · rw [hprocessor]
      exact hnew p (by simp [hp]) _ hi
  · rw [if_neg hmarked] at hmark
    obtain rfl := hmark
    obtain ⟨m, info', hlt', hinfo', hdep⟩ := h n info₀ hinfo₀ hchain
    have hm : ∃ info'', (d.consumerRepository.unMarkEventProcessorsAsEndOfChain
        barrierSequences).consumerInfos[m]? = some info'' ∧
          info''.eventprocessor = info'.eventprocessor := by
      rw [ConsumerRepository.unMarkAll_getElem?, hinfo']
      refine ⟨_, rfl, ?_⟩
      split_ifs <;> rfl
    obtain ⟨info'', hinfo'', hsame⟩ := hm
    have hmlt := (List.getElem?_eq_some_iff.mp hinfo'').1
    refine ⟨m, info'', hlt', ?_, ?_⟩
    · rw [List.getElem?_append_left hmlt]
      exact hinfo''
    · rw [hsame]
      exact hmono _ _ hdep

omit [DecidableEq H] in
/-- Registering a processor anchors what was anchored. -/
lemma Anchored.addProcessors (h : d.Anchored) (hlinked : d.Linked) (processors : List X) :
    (d.addProcessors processors).Anchored ∧ (d.addProcessors processors).Linked := by
  induction processors generalizing d with
  | nil => exact ⟨h, hlinked⟩
  | cons x rest ih =>
    refine ih (d := { d with consumerRepository := d.consumerRepository.addProcessor (.custom x) })
      ?_ (hlinked.addProcessor (.custom x))
    intro n info hinfo hchain
    simp only [ConsumerRepository.addProcessor] at hinfo ⊢
    have hlt : n < d.consumerRepository.consumerInfos.length := by
      by_contra hle
      rw [List.getElem?_append_right (by omega)] at hinfo
      obtain rfl := List.mem_singleton.mp (List.mem_of_getElem? hinfo)
      cases hchain
    rw [List.getElem?_append_left hlt] at hinfo
    obtain ⟨m, info', hlt', hinfo', hdep⟩ := h n info hinfo hchain
    refine ⟨m, info', hlt', ?_, hdep⟩
    rw [List.getElem?_append_left (List.getElem?_eq_some_iff.mp hinfo').1]
    exact hinfo'

end Disruptor

/-- Every call that builds the graph, other than one that chains no consumers after a group, keeps
what is anchored. -/
theorem BuildCall.perform_anchored {d d' : Disruptor H X} {groups : List (EventHandlerGroup X)}
    {group : EventHandlerGroup X} {call : BuildCall H X} (h : d.Anchored) (hlinked : d.Linked)
    (hne : call.barrierSequences groups ≠ [] → call.handlers ≠ some [])
    (hs : call.perform d groups = some (.ok (d', group))) : d'.Anchored ∧ d'.Linked := by
  rcases call.perform_cases hs with ⟨handlers, hcall, hcreate⟩ | ⟨-, processors, rfl | rfl⟩
  · refine h.createEventProcessors hlinked ?_ hcreate
    intro hbarrier
    have hhandlers := hne hbarrier
    rw [hcall] at hhandlers
    exact fun hnil => hhandlers (congrArg some hnil)
  · exact h.addProcessors hlinked processors
  · obtain ⟨hanchored, hlinked'⟩ := h.addProcessors hlinked processors
    exact ⟨hanchored, ⟨hlinked'.bySequence, hlinked'.unused⟩⟩

omit [DecidableEq H] [DecidableEq X] in
/-- What bounds the consumers at the end of their chain bounds every consumer that is anchored. -/
theorem Disruptor.Anchored.le {d : Disruptor H X} (h : d.Anchored) {values : ProcessorId X → Int}
    {a : Int} (hend : ∀ info ∈ d.consumerRepository.consumerInfos, info.endOfChain = true →
      a ≤ values info.eventprocessor)
    (horder : ∀ i j, i ∈ d.dependentSequences j → values j ≤ values i) :
    ∀ info ∈ d.consumerRepository.consumerInfos, a ≤ values info.eventprocessor := by
  -- by induction from the end of the list
  have hfrom : ∀ (count n : Nat) (info : EventProcessorInfo X),
      d.consumerRepository.consumerInfos.length ≤ n + count →
      d.consumerRepository.consumerInfos[n]? = some info → a ≤ values info.eventprocessor := by
    intro count
    induction count with
    | zero =>
      intro n info hlen hinfo
      rw [List.getElem?_eq_none (by omega)] at hinfo
      cases hinfo
    | succ count ih =>
      intro n info hlen hinfo
      cases hchain : info.endOfChain with
      | true => exact hend info (List.mem_of_getElem? hinfo) hchain
      | false =>
        obtain ⟨m, info', hlt, hinfo', hdep⟩ := h n info hinfo hchain
        exact (ih m info' (by omega) hinfo').trans (horder _ _ hdep)
  intro info hinfo
  obtain ⟨n, hn⟩ := List.mem_iff_getElem?.mp hinfo
  exact hfrom d.consumerRepository.consumerInfos.length n info (by omega) hn

end Disruptor.Dsl
