import Disruptor.Dsl.EndOfChain
import Disruptor.Dsl.Visibility

/-!
# The events of the ring

A producer writes the events of its claim through `get(sequence)` before it publishes them, and a
handler is given the event in the slot of its sequence. Nobody writes a slot while a handler has yet
to finish its event, so every handler is given what was last written for the sequence.
-/

namespace Disruptor.Dsl

open Disruptor.Core BatchEventProcessor

variable {H X P : Type}

/-! ### Which consumers are registered -/

section

variable [DecidableEq H] [DecidableEq X] {d d' : Disruptor H X}
  {barrierSequences : List (ProcessorId X)} {handlers : List (Consumer H X)}
  {group : EventHandlerGroup X} {i : ProcessorId X}

omit [DecidableEq H] [DecidableEq X] in
lemma isRegistered_unMarkAll (repository : ConsumerRepository H X)
    (h : (repository.unMarkEventProcessorsAsEndOfChain barrierSequences).IsRegistered i) :
    repository.IsRegistered i := by
  obtain ⟨info, hinfo, rfl⟩ := h
  obtain ⟨n, hn⟩ := List.mem_iff_getElem?.mp hinfo
  rw [ConsumerRepository.unMarkAll_getElem?, Option.map_eq_some_iff] at hn
  obtain ⟨info₀, hinfo₀, rfl⟩ := hn
  refine ⟨info₀, List.mem_of_getElem? hinfo₀, ?_⟩
  split_ifs <;> rfl

/-- A consumer that is created starts at the cursor. -/
lemma createEventProcessors_registered
    (hs : d.createEventProcessors barrierSequences handlers = .ok (d', group))
    (hi : d'.consumerRepository.IsRegistered i) :
    d.consumerRepository.IsRegistered i ∨ d'.values i = d.sequencer.getCursor := by
  obtain ⟨r, hr, rfl, hrepository, -, -, -⟩ := Disruptor.createEventProcessors_graph hs
  obtain ⟨info, hinfo, hinfo'⟩ := hi
  rw [hrepository, hr, Disruptor.createEventProcessorsImpl_consumerInfos, ← hr] at hinfo
  rcases List.mem_append.mp hinfo with hold | hnew
  · exact Or.inl (isRegistered_unMarkAll _ ⟨info, hold, hinfo'⟩)
  · refine Or.inr ?_
    have hmem : i ∈ r.2 := by
      obtain ⟨j, hj, rfl⟩ := List.mem_map.mp hnew
      exact hinfo' ▸ hj
    have hvalues : ∀ (d : Disruptor H X) (l : List (ProcessorId X)),
        (d.updateGatingSequencesForNextInChain l).values = d.values := by
      intro d l
      induction l generalizing d with
      | nil => rfl
      | cons j l ih => exact ih (d.removeGatingSequence j)
    simp only [Disruptor.createEventProcessors] at hs
    split_ifs at hs
    obtain ⟨rfl, -⟩ := Prod.mk.inj (Except.ok.inj hs)
    rw [hvalues, Disruptor.addGatingSequences_values, ← hr, if_pos hmem, hr,
      Disruptor.createEventProcessorsImpl_sequencer]

/-- A processor that the DSL has created is registered when it is created, and starts at the
cursor. -/
lemma BuildCall.perform_registered {call : BuildCall H X} {groups : List (EventHandlerGroup X)}
    (hs : call.perform d groups = some (.ok (d', group))) {k : Nat}
    (hk : d'.consumerRepository.IsRegistered (.created k)) :
    d.consumerRepository.IsRegistered (.created k) ∨
      d'.values (.created k) = d.sequencer.getCursor := by
  rcases call.perform_cases hs with ⟨handlers, -, hcreate⟩ | ⟨-, processors, hd⟩
  · exact createEventProcessors_registered hcreate hk
  · refine Or.inl ?_
    have hadd : ∀ (repository : ConsumerRepository H X) (l : List X),
        (l.foldl (fun repository x => repository.addProcessor (.custom x))
          repository).IsRegistered (.created k) → repository.IsRegistered (.created k) := by
      intro repository l
      induction l generalizing repository with
      | nil => exact id
      | cons x l ih =>
        intro h
        exact ((Disruptor.isRegistered_addProcessor _ _ _).mp (ih _ h)).resolve_right (by simp)
    rcases hd with rfl | rfl
    · exact hadd _ processors hk
    · exact hadd _ processors hk

end

variable [DecidableEq H] [DecidableEq X] [DecidableEq P] {processor : Nat → BatchEventProcessor}
  {waitStrategy : WaitStrategy} {s s' : Shared H X} {c c' : Config H X P}

/-- What every step but one that builds leaves alone. -/
structure Shared.Frame (s s' : Shared H X) : Prop where
  consumerRepository : s'.disruptor.consumerRepository = s.disruptor.consumerRepository
  bufferSize : s'.sequencer.bufferSize = s.sequencer.bufferSize
  gatingList : s'.sequencer.gatingList = s.sequencer.gatingList
  values : ∀ i, s.values i ≤ s'.values i

omit [DecidableEq H] [DecidableEq X] in
lemma Shared.Runs.frame (h : s.Runs s') : s.Frame s' :=
  ⟨h.consumerRepository, h.moves.bufferSize, h.moves.gatingList, h.values⟩

lemma frame_of_next (h : (outline H X P processor waitStrategy).Holds c) {a : Label H X P}
    (hs : (system H X P processor waitStrategy).next c a = some c') :
    c.shared.Frame c'.shared ∨
      ∃ call l', a = ⟨.main, .build call⟩ ∧ mainPc c = .client .idle ∧
        buildStep c.shared (c.threads .main) call = some (c'.shared, l') := by
  obtain ⟨t, a⟩ := a
  by_cases ht : t = .main
  · subst ht
    have hholds : MainPc.Holds c.shared (mainPc c) := h.threads .main
    rcases main_next_cases hs with ⟨call, l', rfl, hpc, -, hbuild⟩ |
      ⟨ca, cl, cl', rfl, hpc, -, hclient⟩ | ⟨rfl, heq, -⟩ | ⟨rfl, heq, -⟩ | ⟨rfl, hlifecycle⟩
    · exact Or.inr ⟨call, l', rfl, hpc, hbuild⟩
    · rw [hpc] at hholds
      have hstep := h.shared.clientStep hholds hclient
      have hsize := hstep.moves.bufferSize
      have hlist := hstep.moves.gatingList
      obtain ⟨q, granted, published, heq⟩ := hstep.eq
      refine Or.inl ⟨?_, hsize, hlist, ?_⟩
      · rw [heq]
        rfl
      · rw [heq]
        exact fun i => le_rfl
    · refine Or.inl ?_
      rw [heq]
      unfold Shared.start
      split_ifs <;> exact ⟨rfl, rfl, rfl, fun _ => le_rfl⟩
    · refine Or.inl ?_
      rw [heq]
      exact ⟨rfl, rfl, rfl, fun _ => le_rfl⟩
    · obtain ⟨hsequencer, -, -, hrepository⟩ := lifecycleStep_keeps hlifecycle
      refine Or.inl ⟨hrepository, congrArg Sequencer.bufferSize hsequencer,
        congrArg Sequencer.gatingList hsequencer, ?_⟩
      rw [(h.shared.lifecycleStep hholds hlifecycle).1.values]
      exact fun i => le_rfl
  · obtain ⟨s', l', hstep, rfl⟩ := (ThreadPool.next_eq_some _).mp hs
    obtain ⟨-, hruns, -⟩ := (outline H X P processor waitStrategy).step_rely h.shared
      (h.threads t) hstep .main (Ne.symm ht)
    exact Or.inl hruns.frame

/-! ### No handler is lapped -/

/-- No claim is granted a lap ahead of a processor that is registered. -/
def Shared.NoLap (s : Shared H X) : Prop :=
  ∀ k, s.disruptor.consumerRepository.IsRegistered (.created k) → ∀ range ∈ s.granted,
    range.2 - s.sequencer.bufferSize.size ≤ s.values (.created k)

omit [DecidableEq P] in
/-- What is granted is at or below the cursor when nobody holds a claim. -/
lemma VisibleInv.granted_le_cursor (h : VisibleInv processor waitStrategy c)
    (hidle : ∀ a, clients c a = .idle) :
    ∀ range ∈ c.shared.granted, range.2 ≤ c.shared.sequencer.getCursor := by
  intro range hrange
  have hclaimed := h.accounts.granted_le range hrange
  by_cases hnone : c.shared.sequencer.claimed < 0
  · have hge := h.accounts.cursor_ge
    simp only [INITIAL_VALUE] at hge
    omega
  · -- the highest sequence that was claimed is published
    have hupto : Upto c.shared.IsPublished c.shared.sequencer.claimed := by
      refine (h.accounts.balanced.upto le_rfl ?_).mono le_rfl fun _ => id
      intro a t hcovers
      simp [Shared.ledger, hidle a, Client.range] at hcovers
    obtain ⟨last, hlast, -, hle⟩ := hupto _ (not_lt.mp hnone) le_rfl
    exact hclaimed.trans (hle.trans (h.holds.shared.published_le last hlast))

lemma VisibleInv.noLap_next (h : VisibleInv processor waitStrategy c)
    (hcovered : CoveredInv processor waitStrategy c) (hlap : c.shared.NoLap) {a : Label H X P}
    (hs : (system H X P processor waitStrategy).next c a = some c')
    (hbegins : BeginsCovered ⟨c, a, c'⟩) : c'.shared.NoLap := by
  have hgrants := hcovered.lapsNone hs hbegins
  rcases frame_of_next h.holds hs with hframe | ⟨call, l', rfl, hpc, hbuild⟩
  · intro k hk range hrange
    rw [hframe.consumerRepository] at hk
    rw [hframe.bufferSize]
    have hold : range ∈ c.shared.granted →
        range.2 - c.shared.sequencer.bufferSize.size ≤ c'.shared.values (.created k) :=
      fun hmem => (hlap k hk range hmem).trans (hframe.values _)
    rcases granted_of_next h.holds hs with hsame | ⟨-, lo, hi, hcons, -⟩
    · exact hold (hsame ▸ hrange)
    · rw [hcons] at hrange
      rcases List.mem_cons.mp hrange with rfl | hmem
      · exact (hgrants lo hi hcons _ hk).trans (hframe.values _)
      · exact hold hmem
  · -- who is registered now starts at the cursor
    obtain ⟨hstarted, -, ⟨heq, -⟩ | ⟨d, group, hperform, heq⟩⟩ := buildStep_eq hbuild
    · rw [heq]
      exact hlap
    · have hd : Built c.shared.disruptor d :=
        (kept_built _).perform ⟨rfl, rfl, rfl, rfl, fun _ => id, fun _ => Or.inl rfl⟩ hperform
      have hsize := c.shared.sequencer.bufferSize.size_pos
      have hbelow := h.granted_le_cursor (clients_idle h.holds hstarted hpc)
      rw [heq]
      intro k hk range hrange
      show range.2 - d.sequencer.bufferSize.size ≤ d.values (.created k)
      rw [hd.bufferSize]
      have hcursor : d.values (.created k) = c.shared.sequencer.getCursor →
          range.2 - c.shared.sequencer.bufferSize.size ≤ d.values (.created k) := by
        intro hvalue
        have hle := hbelow range hrange
        omega
      rcases BuildCall.perform_registered hperform hk with hold | hnew
      · rcases hd.values (.created k) with hsame | hnew
        · rw [hsame]
          exact hlap k hold range hrange
        · exact hcursor hnew
      · exact hcursor hnew

/-! ### Threads are those of registered consumers -/

/-- `startAll` is to create the thread of the consumer. -/
def MainPc.IsToStart (pc : MainPc X) (i : ProcessorId X) : Prop :=
  ∃ rest, pc = .starting rest ∧ ∃ info ∈ rest, info.eventprocessor = i

/-- The consumers whose threads were created, or are about to be, are the registered ones. -/
structure SpawnedInv (c : Config H X P) : Prop where
  spawned : ∀ i ∈ c.shared.spawned, c.shared.disruptor.consumerRepository.IsRegistered i
  starting : ∀ i, (mainPc c).IsToStart i → c.shared.disruptor.consumerRepository.IsRegistered i
  complete : c.shared.disruptor.started = true →
    ∀ i, c.shared.disruptor.consumerRepository.IsRegistered i →
      i ∈ c.shared.spawned ∨ (mainPc c).IsToStart i

omit [DecidableEq H] [DecidableEq X] in
@[simp] lemma MainPc.not_isToStart_client (cl : Client X) (i : ProcessorId X) :
    ¬ (MainPc.client cl).IsToStart i := by
  simp [IsToStart]

omit [DecidableEq H] [DecidableEq X] in
@[simp] lemma MainPc.isToStart_starting (rest : List (EventProcessorInfo X))
    (i : ProcessorId X) :
    (MainPc.starting rest).IsToStart i ↔ ∃ info ∈ rest, info.eventprocessor = i := by
  simp [IsToStart]

omit [DecidableEq H] [DecidableEq X] in
/-- Only `startAll` creates threads, one for each consumer of its list. -/
lemma lifecycleStep_spawned {pc pc' : MainPc X} (hs : lifecycleStep s pc = some (s', pc')) :
    (s'.spawned = s.spawned ∧ ∀ i, ¬ pc.IsToStart i ∧ ¬ pc'.IsToStart i) ∨
      ∃ info rest, pc = .starting (info :: rest) ∧ pc' = .starting rest ∧
        s'.spawned = info.eventprocessor :: s.spawned := by
  unfold lifecycleStep at hs
  split at hs
  case h_2 =>
    obtain ⟨rfl, rfl⟩ := Prod.mk.inj (Option.some.inj hs)
    exact Or.inr ⟨_, _, rfl, rfl, rfl⟩
  case h_5 | h_6 =>
    split_ifs at hs <;> obtain ⟨rfl, rfl⟩ := Prod.mk.inj (Option.some.inj hs) <;>
      exact Or.inl ⟨rfl, by simp [MainPc.IsToStart]⟩
  case h_8 =>
    split at hs <;> obtain ⟨rfl, rfl⟩ := Prod.mk.inj (Option.some.inj hs) <;>
      exact Or.inl ⟨rfl, by simp [MainPc.IsToStart]⟩
  case h_10 => cases hs
  all_goals
    obtain ⟨rfl, rfl⟩ := Prod.mk.inj (Option.some.inj hs)
    exact Or.inl ⟨rfl, by simp [MainPc.IsToStart]⟩

/-- The other threads create none. -/
lemma spawned_of_next {t : Thread P X} {a : Action H X t} (ht : t ≠ .main)
    (hs : (system H X P processor waitStrategy).next c ⟨t, a⟩ = some c') :
    c'.shared.spawned = c.shared.spawned := by
  obtain ⟨s', l', hstep, rfl⟩ := (ThreadPool.next_eq_some _).mp hs
  cases t with
  | main => exact absurd rfl ht
  | producer p =>
    obtain ⟨q, granted, published, rfl⟩ := clientStep_frame (producerStep_eq hstep).2.2
    rfl
  | processor k =>
    obtain ⟨-, f, -, rfl⟩ := processorStep_eq hstep
    rfl
  | custom x =>
    simp only [system, Option.map_eq_some_iff] at hstep
    obtain ⟨s₁, hcustom, heq⟩ := hstep
    obtain ⟨rfl, -⟩ := Prod.mk.inj heq
    obtain ⟨-, ⟨value, rfl, -⟩ | ⟨running, rfl⟩⟩ := customStep_eq hcustom <;> rfl

lemma SpawnedInv.mainStep (h : SpawnedInv c)
    (hholds : (outline H X P processor waitStrategy).Holds c) {a : MainAction H X}
    (hs : (system H X P processor waitStrategy).next c ⟨.main, a⟩ = some c') : SpawnedInv c' := by
  have hmain : MainPc.Holds c.shared (mainPc c) := hholds.threads .main
  rcases main_next_cases hs with ⟨call, l', rfl, -, hpc', hbuild⟩ |
    ⟨ca, cl, cl', rfl, hpc, hpc', hclient⟩ | ⟨rfl, heq, hpc'⟩ | ⟨rfl, heq, hpc'⟩ | ⟨rfl, hlifecycle⟩
  · have hnone := hholds.shared.spawned (buildStep_eq hbuild).1
    have hnot := (hholds.shared.buildStep hbuild).2.1
    refine ⟨?_, by simp [hpc'], fun ht => absurd (hnot.symm.trans ht) (by simp)⟩
    obtain ⟨-, -, ⟨heq, -⟩ | ⟨d, group, -, heq⟩⟩ := buildStep_eq hbuild
    · simp [heq, hnone]
    · simp [heq, hnone]
  · obtain ⟨q, granted, published, heq⟩ := clientStep_frame hclient
    refine ⟨?_, by simp [hpc'], ?_⟩
    · rw [heq]
      exact h.spawned
    · rw [heq]
      exact fun hstarted i hi => Or.inl ((h.complete hstarted i hi).resolve_right (by simp [hpc]))
  · have hidle := main_next_idle (Or.inl rfl) hs
    unfold Shared.start at heq hpc'
    split_ifs at heq hpc' with hstarted
    · refine ⟨by simpa [heq] using h.spawned, by simp [hpc'], ?_⟩
      rw [heq]
      exact fun _ i hi =>
        Or.inl ((h.complete hstarted i hi).resolve_right (by simp [hidle]))
    · refine ⟨by simpa [heq] using h.spawned, ?_, ?_⟩
      · rw [hpc', heq]
        exact fun i hi => (MainPc.isToStart_starting _ i).mp hi
      · rw [hpc', heq]
        exact fun _ i hi => Or.inr ((MainPc.isToStart_starting _ i).mpr hi)
  · have hidle := main_next_idle (Or.inr rfl) hs
    refine ⟨by simpa [heq] using h.spawned, by simp [hpc', MainPc.IsToStart], ?_⟩
    rw [heq]
    exact fun hstarted i hi =>
      Or.inl ((h.complete hstarted i hi).resolve_right (by simp [hidle]))
  · have hrepository := (lifecycleStep_keeps hlifecycle).2.2.2
    have hsame := (hholds.shared.lifecycleStep hmain hlifecycle).1.started
    rcases lifecycleStep_spawned hlifecycle with ⟨hspawned, hnot⟩ | ⟨info, rest, hpc, hpc', hcons⟩
    · refine ⟨?_, fun i hi => absurd hi (hnot i).2, ?_⟩
      · rw [hspawned, hrepository]
        exact h.spawned
      · rw [hspawned, hrepository, hsame]
        exact fun hstarted i hi =>
          Or.inl ((h.complete hstarted i hi).resolve_right (hnot i).1)
    · have hstarting := h.starting
      have hcomplete := h.complete
      rw [hpc] at hstarting hcomplete
      refine ⟨?_, ?_, ?_⟩
      · rw [hcons, hrepository]
        exact List.forall_mem_cons.mpr ⟨hstarting _ (by simp), h.spawned⟩
      · rw [hpc', hrepository]
        intro i hi
        obtain ⟨info', hinfo', rfl⟩ := (MainPc.isToStart_starting rest i).mp hi
        exact hstarting _ ((MainPc.isToStart_starting _ _).mpr
          ⟨info', List.mem_cons_of_mem _ hinfo', rfl⟩)
      · rw [hpc', hcons, hrepository, hsame]
        intro hstarted i hi
        rcases hcomplete hstarted i hi with hold | hnow
        · exact Or.inl (List.mem_cons_of_mem _ hold)
        · obtain ⟨info', hinfo', rfl⟩ := (MainPc.isToStart_starting _ i).mp hnow
          rcases List.mem_cons.mp hinfo' with rfl | hlater
          · exact Or.inl List.mem_cons_self
          · exact Or.inr ((MainPc.isToStart_starting rest _).mpr ⟨info', hlater, rfl⟩)

lemma SpawnedInv.next (h : SpawnedInv c) (hholds : (outline H X P processor waitStrategy).Holds c)
    {a : Label H X P} (hs : (system H X P processor waitStrategy).next c a = some c') :
    SpawnedInv c' := by
  obtain ⟨t, a⟩ := a
  by_cases ht : t = .main
  · subst ht
    exact h.mainStep hholds hs
  · have hspawned := spawned_of_next ht hs
    have hmain : mainPc c' = mainPc c := congrArg Main.pc (threads_of_next hs (Ne.symm ht))
    obtain ⟨s', l', hstep, rfl⟩ := (ThreadPool.next_eq_some _).mp hs
    obtain ⟨hstarted, hruns, -⟩ := (outline H X P processor waitStrategy).step_rely hholds.shared
      (hholds.threads t) hstep .main (Ne.symm ht)
    refine ⟨?_, ?_, ?_⟩
    · rw [hspawned, hruns.consumerRepository]
      exact h.spawned
    · rw [hmain, hruns.consumerRepository]
      exact h.starting
    · rw [hmain, hspawned, hruns.consumerRepository]
      exact fun _ => h.complete hstarted

omit [DecidableEq H] [DecidableEq X] [DecidableEq P] in
lemma spawnedInv_initial (producerType : ProducerType) (b : BufferSize) :
    SpawnedInv (initial H X P producerType b) := by
  refine ⟨by rintro i ⟨⟩, fun i hi => absurd hi ?_, by rintro ⟨⟩⟩
  exact MainPc.not_isToStart_client .idle i

/-- The system with the events of the ring, of which `entries` holds one in each slot. -/
structure EventState (H X P E : Type) where
  config : Config H X P
  entries : Int → E
  /-- History: what was last written for each sequence. -/
  written : Int → Option E := fun _ => none

inductive EventLabel (H X P E : Type) where
  | step (a : Label H X P)
  /-- The translator of a producer writes the event of a sequence of its claim. -/
  | write (p : Option P) (sequence : Int) (event : E)

/-- The producer may write the event of the sequence. -/
def Client.Fills (c : Client X) (sequence : Int) : Prop :=
  match c with
  | .translating lo hi => lo ≤ sequence ∧ sequence ≤ hi
  | _ => False

instance (c : Client X) (sequence : Int) : Decidable (c.Fills sequence) := by
  unfold Client.Fills
  split <;> infer_instance

namespace EventState

variable {E : Type}

/-- The slot of a sequence. -/
def slot (f : EventState H X P E) (sequence : Int) : Int :=
  elementAt f.config.shared.sequencer.bufferSize sequence

/-- `get(sequence)`. -/
def get (f : EventState H X P E) (sequence : Int) : E := f.entries (f.slot sequence)

/-- A write through `get(sequence)`. -/
def write (f : EventState H X P E) (sequence : Int) (event : E) : EventState H X P E :=
  { f with
    entries := Function.update f.entries (f.slot sequence) event
    written := Function.update f.written sequence (some event) }

/-- One step of a thread, or one write of a translator. -/
def step (processor : Nat → BatchEventProcessor) (waitStrategy : WaitStrategy)
    (f : EventState H X P E) : EventLabel H X P E → Option (EventState H X P E)
  | .step a =>
    ((system H X P processor waitStrategy).next f.config a).map fun c => { f with config := c }
  | .write p sequence event =>
    if (clients f.config p).Fills sequence then some (f.write sequence event) else none

/-- Before the first call of the main thread; `eventFactory` has filled the slots. -/
def initial (producerType : ProducerType) (b : BufferSize) (entries : Int → E) :
    EventState H X P E :=
  ⟨Dsl.initial H X P producerType b, entries, fun _ => none⟩

/-- No two producers may write the same slot. -/
def Exclusive (f : EventState H X P E) : Prop :=
  ∀ p q t u, p ≠ q → (clients f.config p).Fills t → (clients f.config q).Fills u →
    f.slot t ≠ f.slot u

/-- The steps of the threads are regular, and begin to publish or to start with all consumers
covered. -/
def IsSound (x : Transition (EventState H X P E) (EventLabel H X P E)) : Prop :=
  ∀ a, x.act = .step a → Regular ⟨x.pre.config, a, x.post.config⟩ ∧
    BeginsCovered ⟨x.pre.config, a, x.post.config⟩

/-- The claims and the graph, and the slots: one holds what was last written for a sequence until a
claim a lap above is granted. -/
structure Inv (processor : Nat → BatchEventProcessor) (waitStrategy : WaitStrategy)
    (f : EventState H X P E) : Prop where
  visible : VisibleInv processor waitStrategy f.config
  covered : CoveredInv processor waitStrategy f.config
  noLap : f.config.shared.NoLap
  spawned : SpawnedInv f.config
  written_granted : ∀ t event, f.written t = some event →
    ∃ range ∈ f.config.shared.granted, t ≤ range.2
  slots : ∀ t event, f.written t = some event →
    (∀ range ∈ f.config.shared.granted,
      range.2 < t + f.config.shared.sequencer.bufferSize.size) → f.get t = event

variable {f f' : EventState H X P E}

omit [DecidableEq H] [DecidableEq X] [DecidableEq P] in
lemma slot_eq_iff (f : EventState H X P E) :
    IsSlotMap f.config.shared.sequencer.bufferSize.size f.slot :=
  isSlotMap_elementAt _

omit [DecidableEq H] [DecidableEq X] [DecidableEq P] in
/-- What a producer may write it holds. -/
lemma covers_of_fills {p : Option P} {t : Int} (ht : (clients f.config p).Fills t) :
    Covers ((f.config.shared.ledger (clients f.config)).held p) t := by
  show Covers (clients f.config p).range t
  revert ht
  cases clients f.config p with
  | translating lo hi => exact covers_some.mpr
  | _ => exact False.elim

omit [DecidableEq P] in
/-- What a producer may write is not published, and was granted. -/
lemma Inv.fills (h : Inv processor waitStrategy f) {p : Option P} {t : Int}
    (ht : (clients f.config p).Fills t) :
    0 ≤ t ∧ ¬ f.config.shared.IsPublished t ∧
      ∃ range ∈ f.config.shared.granted, t ≤ range.2 := by
  have hfits := h.visible.accounts.fits p
  obtain ⟨hnonneg, -, hnot⟩ := h.visible.accounts.balanced.within p t (covers_of_fills ht)
  refine ⟨hnonneg, hnot, ?_⟩
  revert ht hfits
  cases clients f.config p with
  | translating lo hi =>
    rintro ⟨-, hle⟩ ⟨-, range, hrange, hle'⟩
    exact ⟨range, hrange, hle.trans hle'⟩
  | _ => exact fun ht => absurd ht id

omit [DecidableEq P] in
/-- What two producers may write are less than a lap apart. -/
lemma Inv.exclusive (h : Inv processor waitStrategy f) : f.Exclusive := by
  intro p q t u hne ht hu heq
  obtain ⟨ht₀, hnot, range, hrange, hle⟩ := h.fills ht
  obtain ⟨hu₀, hnot', range', hrange', hle'⟩ := h.fills hu
  have hlt := h.visible.accounts.roomy t ht₀ (Shared.isPublished_eq_false.mpr hnot) range' hrange'
  have hlt' := h.visible.accounts.roomy u hu₀ (Shared.isPublished_eq_false.mpr hnot') range hrange
  obtain rfl := f.slot_eq_iff.eq_of_lt heq (by rw [abs_lt]; omega)
  exact hne (h.visible.accounts.balanced.disjoint p q t (covers_of_fills ht) (covers_of_fills hu))

omit [DecidableEq P] in
/-- A write of a translator. -/
lemma Inv.write (h : Inv processor waitStrategy f) {p : Option P} {sequence : Int} {event : E}
    (hfills : (clients f.config p).Fills sequence) :
    Inv processor waitStrategy (f.write sequence event) := by
  obtain ⟨hnonneg, hnot, hgranted⟩ := h.fills hfills
  have hroom := h.visible.accounts.roomy sequence hnonneg (Shared.isPublished_eq_false.mpr hnot)
  refine ⟨h.visible, h.covered, h.noLap, h.spawned, ?_, ?_⟩
  · intro t e ht
    by_cases heq : t = sequence
    · rw [heq]
      exact hgranted
    · simp only [EventState.write, Function.update_of_ne heq] at ht
      exact h.written_granted t e ht
  · intro t e ht hlap
    by_cases heq : t = sequence
    · subst heq
      simp only [EventState.write, Function.update_self, Option.some.injEq] at ht
      simp [EventState.get, EventState.write, EventState.slot, ht]
    · simp only [EventState.write, Function.update_of_ne heq] at ht
      -- both sequences are granted, and less than a lap apart
      have hne : f.slot t ≠ f.slot sequence := by
        intro hslot
        obtain ⟨range, hrange, hle⟩ := hgranted
        obtain ⟨range', hrange', hle'⟩ := h.written_granted t e ht
        have hlt : range.2 < t + f.config.shared.sequencer.bufferSize.size := hlap range hrange
        have hlt' := hroom range' hrange'
        exact heq (f.slot_eq_iff.eq_of_lt hslot (by rw [abs_lt]; omega))
      have hold := h.slots t e ht hlap
      simp only [EventState.get, EventState.slot] at hold hne
      simp only [EventState.get, EventState.write, EventState.slot, Function.update_of_ne hne]
      exact hold

/-- A step of a thread. -/
lemma Inv.threadStep (h : Inv processor waitStrategy f) {a : Label H X P} {c' : Config H X P}
    (hs : (system H X P processor waitStrategy).next f.config a = some c')
    (hregular : Regular ⟨f.config, a, c'⟩) (hbegins : BeginsCovered ⟨f.config, a, c'⟩) :
    Inv processor waitStrategy { f with config := c' } := by
  have hgrows : ∀ range ∈ f.config.shared.granted, range ∈ c'.shared.granted := by
    intro range hrange
    rcases granted_of_next h.visible.holds hs with hsame | ⟨-, lo, hi, hcons, -⟩
    · rw [hsame]
      exact hrange
    · rw [hcons]
      exact List.mem_cons_of_mem _ hrange
  have hsize : c'.shared.sequencer.bufferSize = f.config.shared.sequencer.bufferSize := by
    rcases frame_of_next h.visible.holds hs with hframe | ⟨call, l', -, -, hbuild⟩
    · exact hframe.bufferSize
    · obtain ⟨-, -, ⟨heq, -⟩ | ⟨d, group, hperform, heq⟩⟩ := buildStep_eq hbuild
      · rw [heq]
      · have hd : Built f.config.shared.disruptor d :=
          (kept_built _).perform ⟨rfl, rfl, rfl, rfl, fun _ => id, fun _ => Or.inl rfl⟩ hperform
        rw [heq]
        exact hd.bufferSize
  refine ⟨h.visible.next hs hregular, h.covered.next hs hbegins,
    h.visible.noLap_next h.covered h.noLap hs hbegins, h.spawned.next h.visible.holds hs, ?_, ?_⟩
  · intro t event ht
    obtain ⟨range, hrange, hle⟩ := h.written_granted t event ht
    exact ⟨range, hgrows range hrange, hle⟩
  · intro t event ht hlap
    simp only [get, slot, hsize] at hlap ⊢
    exact h.slots t event ht fun range hrange => hlap range (hgrows range hrange)

lemma Inv.step (h : Inv processor waitStrategy f) {a : EventLabel H X P E}
    (hs : f.step processor waitStrategy a = some f') (hsound : IsSound ⟨f, a, f'⟩) :
    Inv processor waitStrategy f' := by
  cases a with
  | step a =>
    simp only [EventState.step, Option.map_eq_some_iff] at hs
    obtain ⟨c', hnext, rfl⟩ := hs
    obtain ⟨hregular, hbegins⟩ := hsound a rfl
    exact h.threadStep hnext hregular hbegins
  | write p sequence event =>
    simp only [EventState.step] at hs
    split_ifs at hs with hfills
    obtain rfl := Option.some.inj hs
    exact h.write hfills

omit [DecidableEq P] in
lemma inv_initial (producerType : ProducerType) (b : BufferSize) (entries : Int → E) :
    Inv processor waitStrategy (initial (H := H) (X := X) (P := P) producerType b entries) where
  visible := visibleInv_initial producerType b
  covered := coveredInv_initial producerType b
  noLap := by rintro k - range ⟨⟩
  spawned := spawnedInv_initial producerType b
  written_granted := by rintro t event ⟨⟩
  slots := by rintro t event ⟨⟩

end EventState

end Disruptor.Dsl
