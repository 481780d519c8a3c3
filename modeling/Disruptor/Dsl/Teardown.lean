import Disruptor.Dsl.Halting

/-!
# `~Disruptor()`

The destructor halts the consumers, unless `shutdown()` has done so, and joins their threads one
after the other, in the order of the `ConsumerRepository`: `join()` returns once `run()` has. When
the destructor returns no thread of a consumer is left.
-/

namespace Disruptor.Dsl

open Disruptor.Core BatchEventProcessor

variable {H X P : Type}

/-- Where the main thread is in the destructor. -/
inductive Destructor (X : Type) where
  | notCalled
  /-- In `halt()`. -/
  | halting
  /-- In `joinAll()`, with the consumers that are not joined. -/
  | joining (rest : List (EventProcessorInfo X))
  | destroyed

/-- The system, with the destructor of its `Disruptor`. -/
structure TeardownState (H X P : Type) where
  config : Config H X P
  destructor : Destructor X := .notCalled
  /-- `run()` of the user's own processors has returned. -/
  customReturned : X → Bool := fun _ => false

inductive TeardownLabel (H X P : Type) where
  | step (label : Label H X P)
  /-- `run()` of a processor of the user's own returns. -/
  | returns (x : X)
  /-- The destructor is called. -/
  | destroy
  /-- The destructor goes on after `halt()` and after each `join()`. -/
  | join

namespace TeardownState

/-- `run()` of the consumer has returned. -/
def returned (t : TeardownState H X P) : ProcessorId X → Bool
  | .created k =>
    match processorPc t.config k with
    | .returned => true
    | _ => false
  | .custom x => t.customReturned x

variable [DecidableEq X] [DecidableEq P]

/-- `join()` of the consumer does not wait: it has no thread, or the thread has ended. -/
def joins (t : TeardownState H X P) (i : ProcessorId X) : Bool :=
  decide (i ∉ t.config.shared.spawned) || t.returned i

/-- The destructor calls `halt()`. -/
def halt (t : TeardownState H X P) : TeardownState H X P :=
  { t with
    config :=
      ⟨t.config.shared, Function.update t.config.threads .main
        { pc := .halt t.config.shared.disruptor.consumerRepository.consumerInfos
          groups := Main.groups (t.config.threads .main) }⟩
    destructor := .halting }

/-- The destructor calls `joinAll()`. -/
def joinAll (t : TeardownState H X P) : TeardownState H X P :=
  { t with
    destructor := .joining t.config.shared.disruptor.consumerRepository.consumerInfos }

variable [DecidableEq H]

/-- One step. The destructor is called between the other calls of the program. -/
def step (processor : Nat → BatchEventProcessor) (waitStrategy : WaitStrategy)
    (t : TeardownState H X P) : TeardownLabel H X P → Option (TeardownState H X P)
  | .step ⟨.custom x, a⟩ =>
    if t.customReturned x then none
    else
      ((system H X P processor waitStrategy).next t.config ⟨.custom x, a⟩).map fun c =>
        { t with config := c }
  | .step label =>
    ((system H X P processor waitStrategy).next t.config label).map fun c => { t with config := c }
  | .returns x =>
    if .custom x ∈ t.config.shared.spawned ∧ t.customReturned x = false then
      some { t with customReturned := Function.update t.customReturned x true }
    else none
  | .destroy =>
    match t.destructor, mainPc t.config with
    | .notCalled, .client .idle => some t.halt
    -- `halted_` is set
    | .notCalled, .halted => some t.joinAll
    | _, _ => none
  | .join =>
    match t.destructor, mainPc t.config with
    | .halting, .halted => some t.joinAll
    | .joining [], _ => some { t with destructor := .destroyed }
    | .joining (info :: rest), _ =>
      if t.joins info.eventprocessor then some { t with destructor := .joining rest } else none
    | _, _ => none

end TeardownState

/-- Before the first call of the main thread. -/
def teardownInitial (H X P : Type) (producerType : ProducerType) (b : BufferSize) :
    TeardownState H X P :=
  { config := initial H X P producerType b }

namespace TeardownState

variable [DecidableEq H] [DecidableEq X] [DecidableEq P]
  {processor : Nat → BatchEventProcessor} {waitStrategy : WaitStrategy}
  {t t' : TeardownState H X P} {label : TeardownLabel H X P}

/-- What a step does. -/
lemma step_cases (hs : t.step processor waitStrategy label = some t') :
    (∃ a c, label = .step a ∧ (system H X P processor waitStrategy).next t.config a = some c ∧
      (∀ x b, a = ⟨.custom x, b⟩ → t.customReturned x = false) ∧ t' = { t with config := c }) ∨
    (∃ x, label = .returns x ∧ .custom x ∈ t.config.shared.spawned ∧
      t.customReturned x = false ∧
      t' = { t with customReturned := Function.update t.customReturned x true }) ∨
    (label = .destroy ∧ t.destructor = .notCalled ∧
      (mainPc t.config = .client .idle ∧ t' = t.halt ∨
        mainPc t.config = .halted ∧ t' = t.joinAll)) ∨
    (label = .join ∧
      (t.destructor = .halting ∧ mainPc t.config = .halted ∧ t' = t.joinAll ∨
        t.destructor = .joining [] ∧ t' = { t with destructor := .destroyed } ∨
        ∃ info rest, t.destructor = .joining (info :: rest) ∧
          t.joins info.eventprocessor = true ∧ t' = { t with destructor := .joining rest })) := by
  unfold step at hs
  split at hs
  · rename_i x a
    split_ifs at hs with hreturned
    simp only [Option.map_eq_some_iff] at hs
    obtain ⟨c, hnext, rfl⟩ := hs
    refine Or.inl ⟨_, c, rfl, hnext, ?_, rfl⟩
    rintro y b ⟨⟩
    simpa using hreturned
  · rename_i a hcustom
    simp only [Option.map_eq_some_iff] at hs
    obtain ⟨c, hnext, rfl⟩ := hs
    refine Or.inl ⟨_, c, rfl, hnext, ?_, rfl⟩
    rintro x b rfl
    exact absurd rfl (hcustom x b)
  · rename_i x
    split_ifs at hs with hruns
    obtain rfl := Option.some.inj hs
    exact Or.inr (Or.inl ⟨x, rfl, hruns.1, hruns.2, rfl⟩)
  · split at hs
    · rename_i hdestructor hpc
      obtain rfl := Option.some.inj hs
      exact Or.inr (Or.inr (Or.inl ⟨rfl, hdestructor, Or.inl ⟨hpc, rfl⟩⟩))
    · rename_i hdestructor hpc
      obtain rfl := Option.some.inj hs
      exact Or.inr (Or.inr (Or.inl ⟨rfl, hdestructor, Or.inr ⟨hpc, rfl⟩⟩))
    · cases hs
  · split at hs
    · rename_i hdestructor hpc
      obtain rfl := Option.some.inj hs
      exact Or.inr (Or.inr (Or.inr ⟨rfl, Or.inl ⟨hdestructor, hpc, rfl⟩⟩))
    · rename_i hdestructor
      obtain rfl := Option.some.inj hs
      exact Or.inr (Or.inr (Or.inr ⟨rfl, Or.inr (Or.inl ⟨hdestructor, rfl⟩)⟩))
    · rename_i info rest hdestructor
      split_ifs at hs with hjoins
      obtain rfl := Option.some.inj hs
      exact Or.inr (Or.inr (Or.inr ⟨rfl, Or.inr (Or.inr ⟨info, rest, hdestructor, hjoins, rfl⟩)⟩))
    · cases hs

omit [DecidableEq H] [DecidableEq P] in
lemma joins_eq_true {i : ProcessorId X} :
    t.joins i = true ↔ (i ∈ t.config.shared.spawned → t.returned i = true) := by
  simp only [joins, Bool.or_eq_true, decide_eq_true_eq]
  tauto

omit [DecidableEq H] [DecidableEq X] [DecidableEq P] in
@[simp] lemma returned_created {k : Nat} :
    t.returned (.created k) = true ↔ processorPc t.config k = .returned := by
  simp only [returned]
  split <;> simp_all

/-- The registered consumers are joined, but for those of `rest`. -/
def JoinedBut (t : TeardownState H X P) (rest : List (EventProcessorInfo X)) : Prop :=
  ∀ i, t.config.shared.disruptor.consumerRepository.IsRegistered i →
    t.joins i = true ∨ ∃ info ∈ rest, info.eventprocessor = i

/-- What the destructor has done. -/
def Placed (t : TeardownState H X P) : Prop :=
  match t.destructor with
  | .notCalled => True
  | .halting => (mainPc t.config).PastBacklog
  | .joining rest => mainPc t.config = .halted ∧ t.JoinedBut rest
  | .destroyed => mainPc t.config = .halted ∧ t.JoinedBut []

/-- The outline, the threads, what `haltAll()` has done and what the destructor has done. -/
structure Inv (processor : Nat → BatchEventProcessor) (waitStrategy : WaitStrategy)
    (t : TeardownState H X P) : Prop where
  holds : (outline H X P processor waitStrategy).Holds t.config
  spawned : SpawnedInv t.config
  halts : HaltInv processor t.config
  placed : t.Placed

/-- What has ended stays so. -/
lemma joins_of_next {a : Label H X P} {c : Config H X P} {i : ProcessorId X}
    (hhalted : mainPc t.config = .halted)
    (hs : (system H X P processor waitStrategy).next t.config a = some c)
    (h : t.joins i = true) : ({ t with config := c } : TeardownState H X P).joins i = true := by
  rw [joins_eq_true] at h ⊢
  obtain ⟨u, a⟩ := a
  have hu : u ≠ .main := by
    rintro rfl
    exact main_next_of_halted hhalted hs
  intro hspawned
  have hreturned := h (spawned_of_next hu hs ▸ hspawned)
  cases i with
  | created k =>
    rw [returned_created] at hreturned ⊢
    exact returned_of_next hreturned hs
  | custom x => exact hreturned

omit [DecidableEq H] [DecidableEq P] in
/-- What the destructor has done stays done while it does not move. -/
lemma Placed.of_joins (h : t.Placed) (hdestructor : t'.destructor = t.destructor)
    (hpast : (mainPc t.config).PastBacklog → (mainPc t'.config).PastBacklog)
    (hkeeps : mainPc t.config = .halted → mainPc t'.config = .halted ∧
      t'.config.shared.disruptor.consumerRepository =
        t.config.shared.disruptor.consumerRepository ∧
      ∀ i, t.joins i = true → t'.joins i = true) : t'.Placed := by
  have hjoined : ∀ rest, mainPc t.config = .halted ∧ t.JoinedBut rest →
      mainPc t'.config = .halted ∧ t'.JoinedBut rest := by
    rintro rest ⟨hhalted, hjoined⟩
    obtain ⟨hhalted', hrepository, hjoins⟩ := hkeeps hhalted
    exact ⟨hhalted', fun i hi => (hjoined i (hrepository ▸ hi)).imp_left (hjoins i)⟩
  unfold Placed at h ⊢
  rw [hdestructor]
  cases hat : t.destructor with
  | notCalled => trivial
  | halting =>
    rw [hat] at h
    exact hpast h
  | joining rest =>
    rw [hat] at h
    exact hjoined rest h
  | destroyed =>
    rw [hat] at h
    exact hjoined [] h

lemma Placed.next (h : t.Placed) {a : Label H X P} {c : Config H X P}
    (hs : (system H X P processor waitStrategy).next t.config a = some c) :
    ({ t with config := c } : TeardownState H X P).Placed := by
  refine h.of_joins rfl (fun hpast => pastBacklog_of_next hpast hs) fun hhalted => ?_
  have hjoins : ∀ i, t.joins i = true →
      ({ t with config := c } : TeardownState H X P).joins i = true :=
    fun i => joins_of_next hhalted hs
  obtain ⟨u, a⟩ := a
  have hu : u ≠ .main := by
    rintro rfl
    exact main_next_of_halted hhalted hs
  exact ⟨(congrArg Main.pc (threads_of_next hs (Ne.symm hu))).trans hhalted,
    consumerRepository_of_next hu hs, hjoins⟩

omit [DecidableEq H] [DecidableEq P] in
lemma Placed.returns (h : t.Placed) (x : X) :
    ({ t with customReturned := Function.update t.customReturned x true } :
      TeardownState H X P).Placed := by
  refine h.of_joins rfl id fun hhalted => ⟨hhalted, rfl, fun i hjoins => ?_⟩
  rw [joins_eq_true] at hjoins ⊢
  intro hspawned
  have hreturned := hjoins hspawned
  cases i with
  | created k => exact hreturned
  | custom y =>
    by_cases hy : y = x
    · simp [returned, hy]
    · simp only [returned, Function.update_of_ne hy]
      exact hreturned

lemma Inv.halt (h : Inv processor waitStrategy t) (hidle : mainPc t.config = .client .idle) :
    Inv processor waitStrategy t.halt := by
  have hpc : mainPc t.halt.config =
      .halt t.config.shared.disruptor.consumerRepository.consumerInfos := mainPc_update_main _ _ _
  refine ⟨h.holds.update (t := .main) trivial, ?_, ?_, ?_⟩
  · refine ⟨h.spawned.spawned, ?_, fun hstarted i hi => Or.inl ?_⟩
    · rw [hpc]
      rintro i ⟨rest, ⟨⟩, -⟩
    · exact (h.spawned.complete hstarted i hi).resolve_right (by simp [hidle])
  · refine ⟨fun k => ?_, fun k hk => ?_⟩
    · have hsame : processorPc t.halt.config k = processorPc t.config k :=
        processorPc_update_of_ne (by simp) _ _ _
      rw [hsame]
      exact h.halts.within k
    · rw [hpc]
      exact Or.inl hk
  · show (mainPc t.halt.config).PastBacklog
    rw [hpc]
    trivial

omit [DecidableEq P] in
lemma Inv.joinAll (h : Inv processor waitStrategy t) (hhalted : mainPc t.config = .halted) :
    Inv processor waitStrategy t.joinAll :=
  ⟨h.holds, h.spawned, h.halts, hhalted, fun _ hi => Or.inr hi⟩

omit [DecidableEq P] in
lemma Inv.joining (h : Inv processor waitStrategy t) {rest : List (EventProcessorInfo X)}
    (hdestructor : t.destructor = .joining rest) :
    mainPc t.config = .halted ∧ t.JoinedBut rest := by
  have hplaced := h.placed
  unfold Placed at hplaced
  rw [hdestructor] at hplaced
  exact hplaced

lemma Inv.step (h : Inv processor waitStrategy t)
    (hs : t.step processor waitStrategy label = some t') : Inv processor waitStrategy t' := by
  rcases step_cases hs with ⟨a, c, -, hnext, -, rfl⟩ | ⟨x, -, -, -, rfl⟩ |
    ⟨-, -, ⟨hpc, rfl⟩ | ⟨hpc, rfl⟩⟩ |
    ⟨-, ⟨-, hpc, rfl⟩ | ⟨hdestructor, rfl⟩ | ⟨info, rest, hdestructor, hjoins, rfl⟩⟩
  · exact ⟨h.holds.next hnext, h.spawned.next h.holds hnext, h.halts.next hnext,
      h.placed.next hnext⟩
  · exact ⟨h.holds, h.spawned, h.halts, h.placed.returns x⟩
  · exact h.halt hpc
  · exact h.joinAll hpc
  · exact h.joinAll hpc
  · exact ⟨h.holds, h.spawned, h.halts, h.joining hdestructor⟩
  · obtain ⟨hhalted, hjoined⟩ := h.joining hdestructor
    refine ⟨h.holds, h.spawned, h.halts, hhalted, fun i hi => ?_⟩
    rcases hjoined i hi with hold | ⟨info', hinfo', rfl⟩
    · exact Or.inl hold
    · rcases List.mem_cons.mp hinfo' with rfl | hlater
      · exact Or.inl hjoins
      · exact Or.inr ⟨info', hlater, rfl⟩

omit [DecidableEq P] in
lemma inv_initial (producerType : ProducerType) (b : BufferSize) :
    Inv processor waitStrategy (teardownInitial H X P producerType b) :=
  ⟨initial_holds producerType b, spawnedInv_initial producerType b,
    haltInv_initial producerType b, trivial⟩

/-! ### No consumer outlives it -/

/-- The step is one of the thread of a consumer. -/
def IsConsumers : TeardownLabel H X P → Prop
  | .step ⟨.processor _, _⟩ | .step ⟨.custom _, _⟩ | .returns _ => True
  | _ => False

/-- Once the destructor has returned, no thread of a consumer takes a step. -/
lemma Inv.not_isConsumers (h : Inv processor waitStrategy t)
    (hdestroyed : t.destructor = .destroyed)
    (hs : t.step processor waitStrategy label = some t') :
    t'.destructor = .destroyed ∧ ¬ IsConsumers label := by
  have hreturned : ∀ i ∈ t.config.shared.spawned, t.returned i = true := by
    have hplaced := h.placed
    unfold Placed at hplaced
    rw [hdestroyed] at hplaced
    intro i hi
    rcases hplaced.2 i (h.spawned.spawned i hi) with hjoins | ⟨info, hinfo, -⟩
    · exact joins_eq_true.mp hjoins hi
    · cases hinfo
  rcases step_cases hs with ⟨⟨u, a⟩, c, rfl, hnext, hcustom, rfl⟩ | ⟨x, -, hx, hruns, -⟩ |
    ⟨-, hdestructor, -⟩ | ⟨-, ⟨hdestructor, -⟩ | ⟨hdestructor, -⟩ | ⟨info, rest, hdestructor, -⟩⟩
  · refine ⟨hdestroyed, ?_⟩
    cases u with
    | processor k =>
      obtain ⟨hspawned, hnot⟩ := not_returned_of_next hnext
      exact absurd (returned_created.mp (hreturned _ hspawned)) hnot
    | custom x =>
      obtain ⟨s', l', hstep, -⟩ := (ThreadPool.next_eq_some _).mp hnext
      simp only [system, Option.map_eq_some_iff] at hstep
      obtain ⟨s₁, hstep, -⟩ := hstep
      have hended : t.customReturned x = true := hreturned _ (customStep_eq hstep).1
      exact absurd (hended.symm.trans (hcustom x a rfl)) (by simp)
    | main => exact id
    | producer p => exact id
  · have hended : t.customReturned x = true := hreturned _ hx
    exact absurd (hended.symm.trans hruns) (by simp)
  all_goals cases hdestroyed.symm.trans hdestructor

/-! ### The consumers go on for a bounded number of steps -/

/-- The step is a call of `onEvent` by the thread of the `k`-th processor. -/
def callsOnEvent (k : Nat) : TeardownLabel H X P → Bool
  | .step a => Dsl.callsOnEvent k a
  | _ => false

/-- The step is one of the thread of the `k`-th processor, out of `waitFor`. -/
def goesOn (k : Nat) : TeardownLabel H X P → Bool
  | .step a => Dsl.goesOn k a
  | _ => false

/-- Whatever happens after `haltAll()`, the processor has no more to do than before. -/
lemma haltedAt_of_step {k : Nat} (h : HaltedAt processor k t.config)
    (hs : t.step processor waitStrategy label = some t') :
    HaltedAt processor k t'.config ∧
      (processorPc t'.config k).eventsLeft (processor k) +
          (if callsOnEvent k label then 1 else 0) ≤
        (processorPc t.config k).eventsLeft (processor k) ∧
      (processorPc t'.config k).stepsLeft (processor k) + (if goesOn k label then 1 else 0) ≤
        (processorPc t.config k).stepsLeft (processor k) := by
  rcases step_cases hs with ⟨a, c, rfl, hnext, -, rfl⟩ | ⟨x, rfl, -, -, rfl⟩ |
    ⟨rfl, -, ⟨hpc, rfl⟩ | ⟨-, rfl⟩⟩ | ⟨rfl, ⟨-, -, rfl⟩ | ⟨-, rfl⟩ | ⟨info, rest, -, -, rfl⟩⟩
  · exact h.next hnext
  · exact ⟨h, le_rfl, le_rfl⟩
  · cases h.halted.symm.trans hpc
  all_goals exact ⟨h, le_rfl, le_rfl⟩

/-! ### It returns -/

/-- Nobody begins anything: no handler throws, the main thread goes on with `haltAll()`, and `run()`
of the user's own processors returns. -/
def Finishes (x : Transition (TeardownState H X P) (TeardownLabel H X P)) : Prop :=
  match x.act with
  | .step ⟨.main, a⟩ => a = .proceed
  | .step ⟨.processor _, a⟩ => ∀ i, a = .input i → ¬ i.Throws
  | .step _ | .destroy => False
  | .returns _ | .join => True

/-- The destructor gets from one state to the other. -/
abbrev FinishesTo (processor : Nat → BatchEventProcessor) (waitStrategy : WaitStrategy)
    (t t' : TeardownState H X P) : Prop :=
  ReachesBy (TeardownState.step processor waitStrategy) Finishes t t'

lemma finishesTo_of_consumerGoes {c : Config H X P}
    (h : ReachesBy (system H X P processor waitStrategy).next ConsumerGoes t.config c) :
    FinishesTo processor waitStrategy t { t with config := c } := by
  have hstep : ∀ c c', StepBy (system H X P processor waitStrategy).next ConsumerGoes c c' →
      StepBy (TeardownState.step processor waitStrategy) Finishes { t with config := c }
        { t with config := c' } := by
    rintro c c' ⟨a, hnext, k, own, rfl, hthrows⟩
    refine ⟨.step ⟨.processor k, own⟩, ?_, hthrows⟩
    simp [TeardownState.step, hnext]
  exact h.lift (fun c => ({ t with config := c } : TeardownState H X P)) hstep

lemma finishesTo_of_proceedsTo {c : Config H X P}
    (h : ProceedsTo processor waitStrategy t.config c) :
    FinishesTo processor waitStrategy t { t with config := c } := by
  have hstep : ∀ c c', StepBy (system H X P processor waitStrategy).next
      (fun x => x.act = ⟨.main, .proceed⟩) c c' →
      StepBy (TeardownState.step processor waitStrategy) Finishes { t with config := c }
        { t with config := c' } := by
    rintro c c' ⟨a, hnext, rfl⟩
    refine ⟨.step ⟨.main, .proceed⟩, ?_, rfl⟩
    simp [TeardownState.step, hnext]
  exact h.lift (fun c => ({ t with config := c } : TeardownState H X P)) hstep

/-- The thread of a consumer that was halted can end. -/
lemma Inv.exists_joins (h : Inv processor waitStrategy t)
    {rest : List (EventProcessorInfo X)} (hdestructor : t.destructor = .joining rest)
    (i : ProcessorId X) :
    ∃ t', FinishesTo processor waitStrategy t t' ∧ t'.destructor = .joining rest ∧
      t'.joins i = true := by
  by_cases hjoins : t.joins i = true
  · exact ⟨t, .refl, hdestructor, hjoins⟩
  · obtain ⟨hspawned, -⟩ : i ∈ t.config.shared.spawned ∧ ¬ t.returned i = true := by
      simpa [joins_eq_true] using hjoins
    cases i with
    | created k =>
      have hhalted := h.halts.haltedAt (h.joining hdestructor).1 (h.spawned.spawned _ hspawned)
      obtain ⟨c, hreach, hpc⟩ : ∃ c,
          ReachesBy (system H X P processor waitStrategy).next ConsumerGoes t.config c ∧
            processorPc c k = .returned := hhalted.returns hspawned
      refine ⟨{ t with config := c }, finishesTo_of_consumerGoes hreach, hdestructor, ?_⟩
      exact joins_eq_true.mpr fun _ => returned_created.mpr hpc
    | custom x =>
      refine ⟨{ t with customReturned := Function.update t.customReturned x true },
        .single ⟨.returns x, ?_, trivial⟩, hdestructor, ?_⟩
      · have hruns : t.customReturned x = false := by
          simpa [joins_eq_true, returned, hspawned] using hjoins
        simp [TeardownState.step, hspawned, hruns]
      · exact joins_eq_true.mpr fun _ => Function.update_self _ _ _

lemma Inv.finishesTo (h : Inv processor waitStrategy t)
    (hfinishes : FinishesTo processor waitStrategy t t') : Inv processor waitStrategy t' :=
  ReachesBy.invariant (Inv processor waitStrategy) (fun _ _ _ hi hs _ => hi.step hs) h hfinishes

/-- `joinAll()` returns. -/
lemma Inv.finishes_joining (h : Inv processor waitStrategy t)
    {rest : List (EventProcessorInfo X)} (hdestructor : t.destructor = .joining rest) :
    ∃ t', FinishesTo processor waitStrategy t t' ∧ t'.destructor = .destroyed := by
  induction rest generalizing t with
  | nil =>
    refine ⟨{ t with destructor := .destroyed }, .single ⟨.join, ?_, trivial⟩, rfl⟩
    simp [TeardownState.step, hdestructor]
  | cons info rest ih =>
    obtain ⟨t₁, hfinishes₁, hdestructor₁, hjoins⟩ :=
      h.exists_joins hdestructor info.eventprocessor
    have hjoin : FinishesTo processor waitStrategy t₁
        { t₁ with destructor := .joining rest } := by
      refine .single ⟨.join, ?_, trivial⟩
      simp [TeardownState.step, hdestructor₁, hjoins]
    have hreach := hfinishes₁.trans hjoin
    obtain ⟨t', hfinishes', hdestroyed⟩ := ih (h.finishesTo hreach) rfl
    exact ⟨t', hreach.trans hfinishes', hdestroyed⟩

/-- Once it was called, the destructor can return. -/
lemma Inv.finishes (h : Inv processor waitStrategy t) (hcalled : t.destructor ≠ .notCalled) :
    ∃ t', FinishesTo processor waitStrategy t t' ∧ t'.destructor = .destroyed := by
  cases hdestructor : t.destructor with
  | notCalled => exact absurd hdestructor hcalled
  | halting =>
    have hpast := h.placed
    unfold Placed at hpast
    rw [hdestructor] at hpast
    obtain ⟨c, hproceeds, hpc⟩ : ∃ c, ProceedsTo processor waitStrategy t.config c ∧
        mainPc c = .halted := proceedsTo_halted_of_pastBacklog hpast
    have hhalted := finishesTo_of_proceedsTo hproceeds
    have hjoinAll : FinishesTo processor waitStrategy { t with config := c }
        ({ t with config := c } : TeardownState H X P).joinAll := by
      refine .single ⟨.join, ?_, trivial⟩
      simp [TeardownState.step, hdestructor, hpc]
    have hreach := hhalted.trans hjoinAll
    obtain ⟨t', hfinishes', hdestroyed⟩ := (h.finishesTo hreach).finishes_joining rfl
    exact ⟨t', hreach.trans hfinishes', hdestroyed⟩
  | joining rest => exact h.finishes_joining hdestructor
  | destroyed => exact ⟨t, .refl, hdestructor⟩

end TeardownState

open TeardownState

variable [DecidableEq H] [DecidableEq X] [DecidableEq P] {processor : Nat → BatchEventProcessor}
  {waitStrategy : WaitStrategy} {t : TeardownState H X P}

/-- Whatever a program has done before its `Disruptor` is destroyed: when the destructor has
returned, no thread of a consumer takes another step. Once `haltAll()` has returned, in the
destructor or in `shutdown()`, every processor calls `onEvent` for at most one batch more, and takes
a bounded number of steps out of `waitFor`. And the destructor does not wait in vain: from wherever
it is, it can return. -/
theorem destructor_joins {producerType : ProducerType} {b : BufferSize}
    (hreach : Reaches (TeardownState.step processor waitStrategy)
      (teardownInitial H X P producerType b) t) :
    (t.destructor = .destroyed →
      ∀ as, ∀ x ∈ transitions (TeardownState.step processor waitStrategy) t as,
        ¬ IsConsumers x.act) ∧
    (mainPc t.config = .halted →
      ∀ k, t.config.shared.disruptor.consumerRepository.IsRegistered (.created k) → ∀ as,
        (transitions (TeardownState.step processor waitStrategy) t as).countP
            (fun x => TeardownState.callsOnEvent k x.act) ≤
          (processor k).batchLimitOffset.toNat + 1 ∧
        (transitions (TeardownState.step processor waitStrategy) t as).countP
            (fun x => TeardownState.goesOn k x.act) ≤
          (processor k).batchLimitOffset.toNat + 12) ∧
    (t.destructor ≠ .notCalled →
      ∃ t', FinishesTo processor waitStrategy t t' ∧ t'.destructor = .destroyed) := by
  have h : TeardownState.Inv processor waitStrategy t :=
    hreach.invariant (TeardownState.Inv processor waitStrategy) (fun _ _ _ hi hs => hi.step hs)
      (inv_initial producerType b)
  refine ⟨fun hdestroyed as x hx => ?_, fun hhalted k hk as => ?_, h.finishes⟩
  · have hkeeps := transitions_invariant_of_step
      (fun t => TeardownState.Inv processor waitStrategy t ∧ t.destructor = .destroyed)
      (fun _ _ _ hi hs => ⟨hi.1.step hs, (hi.1.not_isConsumers hi.2 hs).1⟩) ⟨h, hdestroyed⟩ x hx
    exact (hkeeps.1.1.not_isConsumers hkeeps.1.2 (mem_transitions hx).2).2
  · have hat := h.halts.haltedAt hhalted hk
    constructor
    · refine le_trans (countP_transitions_le (fun t => HaltedAt processor k t.config)
        (fun t => (processorPc t.config k).eventsLeft (processor k)) _ ?_ hat as)
        hat.within.eventsLeft_le
      intro t label t' hat hs
      exact ⟨(haltedAt_of_step hat hs).1, (haltedAt_of_step hat hs).2.1⟩
    · refine le_trans (countP_transitions_le (fun t => HaltedAt processor k t.config)
        (fun t => (processorPc t.config k).stepsLeft (processor k)) _ ?_ hat as)
        hat.within.stepsLeft_le
      intro t label t' hat hs
      exact ⟨(haltedAt_of_step hat hs).1, (haltedAt_of_step hat hs).2.2⟩

/-- The handler is about to be given its event when the `Disruptor` is destroyed and halts it. -/
def destroyedAmidBatch : List (TeardownLabel Bool Empty Empty) :=
  (publishAndRun ++ handleEvent.take 6).map .step ++ [.destroy] ++
    List.replicate 3 (.step ⟨.main, .proceed⟩)

theorem destructor_joins_destroyedAmidBatch :
    ∃ t t', run (TeardownState.step (fun _ => ⟨9, .NoRewindHandler, by decide⟩) .BusySpin)
        (teardownInitial Bool Empty Empty .SINGLE ⟨1, by decide⟩) destroyedAmidBatch = some t ∧
      t.config.shared.spawned = [.created 0] ∧ t.destructor = .halting ∧
      (∀ as, (transitions
          (TeardownState.step (fun _ => ⟨9, .NoRewindHandler, by decide⟩) .BusySpin) t as).countP
            (fun x => TeardownState.callsOnEvent 0 x.act) ≤ 10) ∧
      FinishesTo (fun _ => ⟨9, .NoRewindHandler, by decide⟩) .BusySpin t t' ∧
      t'.destructor = .destroyed ∧
      ∀ as, ∀ x ∈ transitions
        (TeardownState.step (fun _ => ⟨9, .NoRewindHandler, by decide⟩) .BusySpin) t' as,
          ¬ IsConsumers x.act := by
  obtain ⟨t, hrun, hspawned, hhalting, hhalted, hinfos⟩ :
      ∃ t, run (TeardownState.step (fun _ => ⟨9, .NoRewindHandler, by decide⟩) .BusySpin)
          (teardownInitial Bool Empty Empty .SINGLE ⟨1, by decide⟩) destroyedAmidBatch = some t ∧
        t.config.shared.spawned = [.created 0] ∧ t.destructor = .halting ∧
        mainPc t.config = .halted ∧
        t.config.shared.disruptor.consumerRepository.consumerInfos = [⟨.created 0, true⟩] :=
    ⟨_, rfl, rfl, rfl, rfl, rfl⟩
  have hreach : Reaches (TeardownState.step (fun _ => ⟨9, .NoRewindHandler, by decide⟩) .BusySpin)
      (teardownInitial Bool Empty Empty .SINGLE ⟨1, by decide⟩) t := ⟨_, hrun⟩
  have hregistered : t.config.shared.disruptor.consumerRepository.IsRegistered (.created 0) :=
    ⟨⟨.created 0, true⟩, by simp [hinfos], rfl⟩
  obtain ⟨-, hbounded, hfinishes⟩ := destructor_joins hreach
  obtain ⟨t', hfinishes, hdestroyed⟩ := hfinishes (by simp [hhalting])
  obtain ⟨as, has, -⟩ := hfinishes.exists_run
  exact ⟨t, t', hrun, hspawned, hhalting, fun bs => (hbounded hhalted 0 hregistered bs).1,
    hfinishes, hdestroyed, (destructor_joins (hreach.trans ⟨as, has⟩)).1 hdestroyed⟩

end Disruptor.Dsl
