import Disruptor.Dsl.System

/-!
# Building the graph

What every call that builds the graph keeps.
-/

namespace Disruptor.Dsl

set_option linter.dupNamespace false

variable {H X : Type} [DecidableEq H] [DecidableEq X]

/-- What a call that builds the graph does: it creates event processors, or it registers the user's
own and may add them to the gating list. -/
theorem BuildCall.perform_cases {d d' : Disruptor H X} {groups : List (EventHandlerGroup X)}
    {group : EventHandlerGroup X} {call : BuildCall H X}
    (hs : call.perform d groups = some (.ok (d', group))) :
    (∃ handlers, call.handlers = some handlers ∧
      d.createEventProcessors (call.barrierSequences groups) handlers = .ok (d', group)) ∨
    (call.handlers = none ∧ ∃ processors, d' = d.addProcessors processors ∨
      d' = (d.addProcessors processors).addGatingSequences (processors.map .custom)) := by
  cases call with
  | handleEventsWith handlers => exact Or.inl ⟨handlers, rfl, Option.some.inj hs⟩
  | handleEventsWithProcessors processors =>
    obtain ⟨rfl, -⟩ := Prod.mk.inj (Except.ok.inj (Option.some.inj hs))
    exact Or.inr ⟨rfl, processors, Or.inr rfl⟩
  | after handlers =>
    have hmap := Option.some.inj hs
    cases hafter : d.after handlers with
    | error e =>
      rw [hafter] at hmap
      cases hmap
    | ok g =>
      rw [hafter] at hmap
      obtain ⟨rfl, -⟩ := Prod.mk.inj (Except.ok.inj hmap)
      exact Or.inr ⟨rfl, [], Or.inl rfl⟩
  | afterProcessors processors =>
    obtain ⟨rfl, -⟩ := Prod.mk.inj (Except.ok.inj (Option.some.inj hs))
    exact Or.inr ⟨rfl, [], Or.inl rfl⟩
  | and_ g other =>
    simp only [perform] at hs
    split at hs
    · obtain ⟨rfl, -⟩ := Prod.mk.inj (Except.ok.inj (Option.some.inj hs))
      exact Or.inr ⟨rfl, [], Or.inl rfl⟩
    · cases hs
  | andProcessors g processors =>
    simp only [perform, Option.map_eq_some_iff] at hs
    obtain ⟨g', -, heq⟩ := hs
    obtain ⟨rfl, -⟩ := Prod.mk.inj (Except.ok.inj heq)
    exact Or.inr ⟨rfl, processors, Or.inl rfl⟩
  | chain g handlers =>
    simp only [perform, Option.map_eq_some_iff] at hs
    obtain ⟨g', hg, heq⟩ := hs
    refine Or.inl ⟨handlers, rfl, ?_⟩
    simp only [barrierSequences, hg]
    exact heq

/-- A property that the pieces of the calls keep. -/
structure Kept (Q : Disruptor H X → Prop) : Prop where
  createOne : ∀ d barrierSequences c, Q d → Q (d.createOne barrierSequences c).1
  addGatingSequences : ∀ d sequences, Q d → Q (d.addGatingSequences sequences)
  removeGatingSequence : ∀ d sequence, Q d → Q (d.removeGatingSequence sequence)
  repository : ∀ (d : Disruptor H X) r, Q d → Q { d with consumerRepository := r }

namespace Kept

variable {Q : Disruptor H X → Prop} {d d' : Disruptor H X} {group : EventHandlerGroup X}

lemma createEventProcessorsImpl (h : Kept Q) (hd : Q d) (barrierSequences : List (ProcessorId X))
    (handlers : List (Consumer H X)) :
    Q (d.createEventProcessorsImpl barrierSequences handlers).1 := by
  induction handlers generalizing d with
  | nil => exact hd
  | cons c rest ih => exact ih (h.createOne d barrierSequences c hd)

lemma updateGatingSequencesForNextInChain (h : Kept Q) (hd : Q d)
    (barrierSequences : List (ProcessorId X)) :
    Q (d.updateGatingSequencesForNextInChain barrierSequences) := by
  induction barrierSequences generalizing d with
  | nil => exact hd
  | cons i rest ih => exact ih (h.removeGatingSequence d i hd)

lemma createEventProcessors (h : Kept Q) (hd : Q d) {barrierSequences : List (ProcessorId X)}
    {handlers : List (Consumer H X)}
    (hs : d.createEventProcessors barrierSequences handlers = .ok (d', group)) : Q d' := by
  simp only [Disruptor.createEventProcessors] at hs
  split_ifs at hs
  obtain ⟨rfl, -⟩ := Prod.mk.inj (Except.ok.inj hs)
  apply h.updateGatingSequencesForNextInChain
  apply h.addGatingSequences
  apply h.createEventProcessorsImpl
  exact h.repository d _ hd

/-- Every call that builds the graph keeps the property. -/
theorem perform (h : Kept Q) (hd : Q d) {groups : List (EventHandlerGroup X)}
    {call : BuildCall H X} (hs : call.perform d groups = some (.ok (d', group))) : Q d' := by
  rcases call.perform_cases hs with ⟨handlers, -, hcreate⟩ | ⟨-, processors, rfl | rfl⟩
  · exact h.createEventProcessors hd hcreate
  · exact h.repository d _ hd
  · apply h.addGatingSequences
    exact h.repository d _ hd

end Kept

/-! ### Dependencies -/

namespace Disruptor

lemma createOne_dependentSequences (d : Disruptor H X) (barrierSequences : List (ProcessorId X))
    (c : Consumer H X) (k : Nat) :
    (d.createOne barrierSequences c).1.dependentSequences (.created k) =
      if .created k = (d.createOne barrierSequences c).2 then barrierSequences
      else d.dependentSequences (.created k) := by
  cases c with
  | handler h =>
    by_cases hk : k = d.created
    · subst hk
      simp [createOne]
    · simp [createOne, hk]
  | factory x => simp [createOne]

/-- A new processor depends on the barrier sequences; the others depend on what they did. -/
lemma createEventProcessorsImpl_dependentSequences (d : Disruptor H X)
    (barrierSequences : List (ProcessorId X)) (handlers : List (Consumer H X)) (k : Nat) :
    (d.createEventProcessorsImpl barrierSequences handlers).1.dependentSequences (.created k) =
      if .created k ∈ (d.createEventProcessorsImpl barrierSequences handlers).2 then
        barrierSequences
      else d.dependentSequences (.created k) := by
  induction handlers generalizing d with
  | nil => simp [createEventProcessorsImpl]
  | cons c rest ih =>
    simp only [createEventProcessorsImpl, List.mem_cons]
    rw [ih, createOne_dependentSequences]
    by_cases hrest : .created k ∈ ((d.createOne barrierSequences c).1.createEventProcessorsImpl
        barrierSequences rest).2
    · rw [if_pos hrest, if_pos (Or.inr hrest)]
    · rw [if_neg hrest]
      by_cases hfirst : .created k = (d.createOne barrierSequences c).2
      · rw [if_pos hfirst, if_pos (Or.inl hfirst)]
      · rw [if_neg hfirst, if_neg (not_or.mpr ⟨hfirst, hrest⟩)]

omit [DecidableEq H] in
lemma updateGatingSequencesForNextInChain_dependentSequences (d : Disruptor H X)
    (barrierSequences : List (ProcessorId X)) :
    (d.updateGatingSequencesForNextInChain barrierSequences).dependentSequences =
      d.dependentSequences := by
  induction barrierSequences generalizing d with
  | nil => rfl
  | cons i rest ih => exact ih (d.removeGatingSequence i)

lemma createEventProcessors_dependentSequences {d d' : Disruptor H X}
    {barrierSequences : List (ProcessorId X)} {handlers : List (Consumer H X)}
    {group : EventHandlerGroup X}
    (hs : d.createEventProcessors barrierSequences handlers = .ok (d', group)) (k : Nat) :
    d'.dependentSequences (.created k) =
      if .created k ∈ group.sequences then barrierSequences
      else d.dependentSequences (.created k) := by
  simp only [createEventProcessors] at hs
  split_ifs at hs
  obtain ⟨rfl, rfl⟩ := Prod.mk.inj (Except.ok.inj hs)
  rw [updateGatingSequencesForNextInChain_dependentSequences]
  exact createEventProcessorsImpl_dependentSequences _ barrierSequences handlers k

end Disruptor

/-- The barrier of a processor is made of what its handler was declared to follow. -/
theorem BuildCall.perform_declare {d d' : Disruptor H X} {groups : List (EventHandlerGroup X)}
    {group : EventHandlerGroup X} {call : BuildCall H X}
    {declared : ProcessorId X → List (ProcessorId X)}
    (h : ∀ k, declared (.created k) = d.dependentSequences (.created k))
    (hs : call.perform d groups = some (.ok (d', group))) (k : Nat) :
    call.declare declared groups group (.created k) = d'.dependentSequences (.created k) := by
  rcases call.perform_cases hs with ⟨handlers, hcall, hcreate⟩ | ⟨hcall, processors, hd⟩
  · rw [Disruptor.createEventProcessors_dependentSequences hcreate, ← h]
    simp [declare, hcall]
  · have hsame : d'.dependentSequences = d.dependentSequences := by
      rcases hd with rfl | rfl <;> rfl
    rw [hsame, ← h]
    simp [declare, hcall]

/-! ### The gating sequences while the graph is built -/

namespace Disruptor

omit [DecidableEq H]

lemma addGatingSequences_values (d : Disruptor H X) (sequences : List (ProcessorId X))
    (i : ProcessorId X) : (d.addGatingSequences sequences).values i =
      if i ∈ sequences then d.sequencer.getCursor else d.values i := by
  simp only [addGatingSequences, values_setValues]
  rw [Sequencer.addGatingSequences_values]
  simp

/-- No gating sequence is lapped, and no consumer starts ahead of what was claimed when it was
attached. -/
structure Ready (d : Disruptor H X) : Prop where
  consistent : d.sequencer.Consistent d.values
  attached : ∀ i, d.values i ≤ d.attachedAt i

lemma Ready.addGatingSequences {d : Disruptor H X} (h : d.Ready)
    (sequences : List (ProcessorId X)) : (d.addGatingSequences sequences).Ready where
  consistent := by
    show (d.sequencer.addGatingSequences d.values (sequences.map some)).2.Consistent
      (Disruptor.values (Disruptor.setValues _ _))
    rw [values_setValues]
    exact h.consistent.addGatingSequences _
  attached := by
    intro i
    rw [addGatingSequences_values]
    show _ ≤ if i ∈ sequences then d.sequencer.claimed else d.attachedAt i
    split_ifs
    · exact Sequencer.getCursor_le_claimed h.consistent
    · exact h.attached i

end Disruptor

/-- Building makes no calls. -/
lemma kept_calls (calls : Nat → List BatchEventProcessor.Call) : Kept fun d : Disruptor H X =>
    ∀ k, (d.processors k).calls = calls k where
  createOne := by
    intro d barrierSequences c hd
    cases c <;> exact hd
  addGatingSequences := fun d sequences hd => hd
  removeGatingSequence := fun d sequence hd => hd
  repository := fun d r hd => hd

/-- While the graph is built the cursor stays where it is. -/
lemma kept_ready (cursor : Int) : Kept fun d : Disruptor H X =>
    d.Ready ∧ d.started = false ∧ d.sequencer.getCursor = cursor where
  createOne := by
    intro d barrierSequences c hd
    cases c with
    | handler h => exact ⟨⟨hd.1.consistent, hd.1.attached⟩, hd.2⟩
    | factory x => exact ⟨⟨hd.1.consistent, hd.1.attached⟩, hd.2⟩
  addGatingSequences := by
    intro d sequences hd
    refine ⟨hd.1.addGatingSequences sequences, hd.2.1, ?_⟩
    exact (Sequencer.addGatingSequences_getCursor _ _ _).trans hd.2.2
  removeGatingSequence := by
    intro d sequence hd
    refine ⟨⟨hd.1.consistent.removeGatingSequence sequence, hd.1.attached⟩, hd.2.1, ?_⟩
    exact (Sequencer.removeGatingSequence_getCursor _ _).trans hd.2.2
  repository := by
    intro d r hd
    exact ⟨⟨hd.1.consistent, hd.1.attached⟩, hd.2⟩

end Disruptor.Dsl
