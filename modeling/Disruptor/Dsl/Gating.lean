import Disruptor.Dsl.Safety

/-!
# Which consumers the producers wait for

Only the sequences of the gating list hold the producers back. A consumer that is not in the list
is protected as long as one that follows it is, and is not ahead of it.
-/

namespace Disruptor.Dsl

open Disruptor.Core BatchEventProcessor

variable {H X P : Type}

/-- The consumer gates the ring, or one that follows it is covered and has not passed it. -/
inductive Covered (d : Disruptor H X) (values : ProcessorId X → Int) : ProcessorId X → Prop
  | gating {i : ProcessorId X} : some i ∈ d.sequencer.gatingList → Covered d values i
  | behind {i j : ProcessorId X} : i ∈ d.dependentSequences j → values j ≤ values i →
      Covered d values j → Covered d values i

/-- Every registered consumer is covered. -/
def AllCovered (d : Disruptor H X) (values : ProcessorId X → Int) : Prop :=
  ∀ i, d.consumerRepository.IsRegistered i → Covered d values i

section

variable {d d' : Disruptor H X} {values values' : ProcessorId X → Int} {i : ProcessorId X}

/-- What bounds the gating sequences bounds the covered ones. -/
lemma Covered.le {m : Int} (h : Covered d values i)
    (hgating : ∀ j, some j ∈ d.sequencer.gatingList → m ≤ values' j)
    (horder : ∀ i j, i ∈ d.dependentSequences j → values j ≤ values i → values' j ≤ values' i) :
    m ≤ values' i := by
  induction h with
  | gating hmem => exact hgating _ hmem
  | behind hdep hle _ ih => exact ih.trans (horder _ _ hdep hle)

lemma Covered.of_eq (h : Covered d values i)
    (hlist : d'.sequencer.gatingList = d.sequencer.gatingList)
    (hdeps : d'.dependentSequences = d.dependentSequences) : Covered d' values i := by
  induction h with
  | gating hmem =>
    rw [← hlist] at hmem
    exact .gating hmem
  | behind hdep hle _ ih =>
    rw [← hdeps] at hdep
    exact .behind hdep hle ih

lemma AllCovered.of_eq (h : AllCovered d values)
    (hlist : d'.sequencer.gatingList = d.sequencer.gatingList)
    (hdeps : d'.dependentSequences = d.dependentSequences)
    (hrepository : d'.consumerRepository = d.consumerRepository) : AllCovered d' values := by
  intro i hi
  rw [hrepository] at hi
  exact (h i hi).of_eq hlist hdeps

end

variable [DecidableEq H] [DecidableEq X] [DecidableEq P]
  {processor : Nat → BatchEventProcessor} {waitStrategy : WaitStrategy}

section

variable {c c' : Config H X P}

omit [DecidableEq P] in
/-- A consumer that was not ahead of one that it follows when `start()` was called never is. -/
lemma values_le_of_dependent (h : (outline H X P processor waitStrategy).Holds c)
    (hstarted : c.shared.disruptor.started = true) {i j : ProcessorId X}
    (hdep : i ∈ c.shared.disruptor.dependentSequences j)
    (hstart : c.shared.startValues j ≤ c.shared.startValues i) :
    c.shared.values j ≤ c.shared.values i := by
  have hfrom : c.shared.startValues i ≤ c.shared.values i := by
    cases i with
    | created k => exact ((h.threads (.processor k)).2 hstarted).reached.start_le
    | custom x => exact (h.threads (.custom x) hstarted).start_le
  have hmoved : c.shared.values j = c.shared.startValues j ∨
      c.shared.values j ≤ c.shared.values i := by
    cases j with
    | created k =>
      rcases ((h.threads (.processor k)).2 hstarted).reached.allowed with heq | hallowed
      · exact Or.inl heq
      · exact Or.inr (hallowed i hdep)
    | custom x => exact (h.threads (.custom x) hstarted).allowed.imp_right fun hall => hall i hdep
  rcases hmoved with heq | hle
  · exact heq.le.trans (hstart.trans hfrom)
  · exact hle

/-- The step of the main thread is the first of a publishing call, or of `start()`. -/
def Begins (a : Label H X P) : Prop :=
  a = ⟨.main, .start⟩ ∨ ∃ op, a = ⟨.main, .client (.claim op)⟩

omit [DecidableEq H] [DecidableEq X] in
/-- A claim is granted when it is asked for, or in a later step of the call. -/
lemma clientStep_granted {s s' : Shared H X} {ca : ClientAction} {cl cl' : Client X}
    (hs : clientStep s cl ca = some (s', cl')) :
    s'.granted = s.granted ∨ (∃ op, ca = .claim op) ∨ ∃ call, cl = .claiming call := by
  unfold clientStep at hs
  split at hs
  · exact Or.inr (Or.inl ⟨_, rfl⟩)
  · exact Or.inr (Or.inr ⟨_, rfl⟩)
  · split_ifs at hs <;> obtain ⟨rfl, -⟩ := Prod.mk.inj (Option.some.inj hs) <;> exact Or.inl rfl
  · obtain ⟨rfl, -⟩ := Prod.mk.inj (Option.some.inj hs)
    exact Or.inl rfl
  · cases hs

/-- A claim that a step grants is no lap ahead of a gating sequence. -/
lemma granted_of_next (h : (outline H X P processor waitStrategy).Holds c)
    {a : Label H X P}
    (hs : (system H X P processor waitStrategy).next c a = some c') :
    c'.shared.granted = c.shared.granted ∨
      (c.shared.disruptor.started = true ∨
        Begins a ∨ ∃ call, mainPc c = .client (.claiming call)) ∧
      ∃ lo hi, c'.shared.granted = (lo, hi) :: c.shared.granted ∧
        ∀ i, some i ∈ c.shared.sequencer.gatingList →
          hi - c.shared.sequencer.bufferSize.size ≤ c.shared.values i := by
  obtain ⟨t, a⟩ := a
  obtain ⟨s', l', hstep, rfl⟩ := (ThreadPool.next_eq_some _).mp hs
  cases t with
  | main =>
    rcases mainStep_cases hstep with ⟨call, -, hpc, hbuild⟩ | ⟨ca, cl, cl', rfl, hpc, hclient, -⟩ |
      ⟨-, -, rfl, -⟩ | ⟨-, -, rfl, -⟩ | ⟨-, pc, hlifecycle, -⟩
    · obtain ⟨-, -, ⟨rfl, -⟩ | ⟨d, group, -, rfl⟩⟩ := buildStep_eq hbuild
      · exact Or.inl rfl
      · exact Or.inl rfl
    · have hmain : MainPc.Holds c.shared (mainPc c) := h.threads .main
      rw [show mainPc c = .client cl from hpc] at hmain
      have hholds : Client.Holds c.shared cl := hmain
      rcases clientStep_granted hclient with hsame | ⟨op, rfl⟩ | ⟨call, rfl⟩
      · exact Or.inl hsame
      · exact (h.shared.clientStep hholds hclient).granted.imp_right fun hg =>
          ⟨Or.inr (Or.inl (Or.inr ⟨op, rfl⟩)), hg⟩
      · exact (h.shared.clientStep hholds hclient).granted.imp_right fun hg =>
          ⟨Or.inr (Or.inr ⟨call, hpc⟩), hg⟩
    · refine Or.inl ?_
      unfold Shared.start
      split_ifs <;> rfl
    · exact Or.inl rfl
    · exact Or.inl (h.shared.lifecycleStep (h.threads .main) hlifecycle).1.granted
  | producer p =>
    obtain ⟨-, hstarted, hclient⟩ := producerStep_eq hstep
    have hholds : Client.Holds c.shared (c.threads (.producer p)) := by
      rcases h.threads (.producer p) with hidle | ⟨-, -, hholds⟩
      · rw [hidle]
        trivial
      · exact hholds
    exact (h.shared.clientStep hholds hclient).granted.imp_right fun hg => ⟨Or.inl hstarted, hg⟩
  | processor k =>
    obtain ⟨-, f, -, rfl⟩ := processorStep_eq hstep
    exact Or.inl rfl
  | custom x =>
    simp only [system, Option.map_eq_some_iff] at hstep
    obtain ⟨s₁, hcustom, heq⟩ := hstep
    obtain ⟨rfl, -⟩ := Prod.mk.inj heq
    obtain ⟨-, ⟨value, rfl, -⟩ | ⟨running, rfl⟩⟩ := customStep_eq hcustom
    · exact Or.inl rfl
    · exact Or.inl rfl

end

/-! ### No registered consumer is lapped -/

/-- If the step begins to publish or to start before `start()` was called, every registered
consumer is covered. -/
def BeginsCovered
    (x : Transition (Config H X P) (Label H X P)) : Prop :=
  x.pre.shared.disruptor.started = false → Begins x.act →
    AllCovered x.pre.shared.disruptor x.pre.shared.values

/-- If the step grants a claim, that claim laps no registered consumer. -/
def LapsNone
    (x : Transition (Config H X P) (Label H X P)) : Prop :=
  ∀ lo hi, x.post.shared.granted = (lo, hi) :: x.pre.shared.granted →
    ∀ i, x.pre.shared.disruptor.consumerRepository.IsRegistered i →
      hi - x.pre.shared.sequencer.bufferSize.size ≤ x.pre.shared.values i

/-- The outline, and what is covered: since `start()` the consumers as they were then, and before
that the consumers as they are while the program is in a publishing call. -/
structure CoveredInv (processor : Nat → BatchEventProcessor) (waitStrategy : WaitStrategy)
    (c : Config H X P) : Prop where
  holds : (outline H X P processor waitStrategy).Holds c
  start : c.shared.disruptor.started = true → AllCovered c.shared.disruptor c.shared.startValues
  claiming : c.shared.disruptor.started = false → ∀ call,
    mainPc c = .client (.claiming call) →
      AllCovered c.shared.disruptor c.shared.values

variable {c c' : Config H X P}

omit [DecidableEq P] in
/-- A step after `start()`. -/
lemma CoveredInv.of_runs (h : CoveredInv processor waitStrategy c)
    (hnext : (outline H X P processor waitStrategy).Holds c')
    (hstarted : c.shared.disruptor.started = true) (hruns : c.shared.Runs c'.shared) :
    CoveredInv processor waitStrategy c' where
  holds := hnext
  start := by
    intro _
    rw [hruns.startValues]
    exact (h.start hstarted).of_eq hruns.moves.gatingList hruns.dependentSequences
      hruns.consumerRepository
  claiming := fun hf => absurd (hf.symm.trans hruns.started) (by simp)

omit [DecidableEq P] in
/-- A step of a producer before `start()`. -/
lemma CoveredInv.clientStep (h : CoveredInv processor waitStrategy c)
    (hnot : c.shared.disruptor.started = false) {ca : ClientAction} {cl cl' : Client X}
    (hpc : mainPc c = .client cl) {s' : Shared H X}
    (hs : Dsl.clientStep c.shared cl ca = some (s', cl'))
    (hcovered : (∃ op, ca = .claim op) → AllCovered c.shared.disruptor c.shared.values)
    {call : Sequencer.ClaimCall (ProcessorId X)} (hcall : cl' = .claiming call) :
    AllCovered s'.disruptor s'.values := by
  have hholds : MainPc.Holds c.shared (mainPc c) := h.holds.threads .main
  rw [hpc] at hholds
  have hclient := h.holds.shared.clientStep hholds hs
  have hnow : AllCovered c.shared.disruptor c.shared.values := by
    subst hcall
    unfold Dsl.clientStep at hs
    split at hs
    · exact hcovered ⟨_, rfl⟩
    · exact h.claiming hnot _ hpc
    · split_ifs at hs <;> cases hs
    · simp only [Option.some.injEq, Prod.mk.injEq] at hs
      obtain ⟨-, hpc'⟩ := hs
      split_ifs at hpc'
    · cases hs
  have hmoves := hclient.moves
  obtain ⟨q, granted, published, rfl⟩ := hclient.eq
  exact hnow.of_eq hmoves.gatingList rfl rfl

lemma CoveredInv.mainStep (h : CoveredInv processor waitStrategy c) {a : MainAction H X}
    (hs : (system H X P processor waitStrategy).next c ⟨.main, a⟩ = some c')
    (hcovered : BeginsCovered ⟨c, ⟨.main, a⟩, c'⟩) : CoveredInv processor waitStrategy c' := by
  have hnext := h.holds.next hs
  have hholds : MainPc.Holds c.shared (mainPc c) := h.holds.threads .main
  cases hstarted : c.shared.disruptor.started with
  | true =>
    refine h.of_runs hnext hstarted ?_
    rcases main_next_cases hs with ⟨call, l', -, -, -, hbuild⟩ | ⟨ca, cl, cl', -, hpc, -, hclient⟩ |
      ⟨-, heq, -⟩ | ⟨-, heq, -⟩ | ⟨-, hlifecycle⟩
    · exact absurd (hstarted.symm.trans (buildStep_eq hbuild).1) (by simp)
    · rw [hpc] at hholds
      exact (h.holds.shared.clientStep hholds hclient).runs hstarted
    · rw [heq]
      simp only [Shared.start, hstarted, if_true]
      exact Shared.Runs.refl hstarted
    · rw [heq]
      exact h.holds.shared.shutdown.runs hstarted
    · exact (h.holds.shared.lifecycleStep hholds hlifecycle).1.runs hstarted
  | false =>
    rcases main_next_cases hs with ⟨call, l', -, -, hpc', hbuild⟩ |
      ⟨ca, cl, cl', rfl, hpc, hpc', hclient⟩ | ⟨rfl, heq, hpc'⟩ | ⟨-, heq, hpc'⟩ | ⟨-, hlifecycle⟩
    · have hstarted' := (h.holds.shared.buildStep hbuild).2.1
      refine ⟨hnext, fun ht => absurd (hstarted'.symm.trans ht) (by simp), ?_⟩
      intro _ call hcall
      rw [hpc'] at hcall
      cases hcall
    · have hbegin : (∃ op, ca = .claim op) → AllCovered c.shared.disruptor c.shared.values := by
        rintro ⟨op, rfl⟩
        exact hcovered hstarted (Or.inr ⟨op, rfl⟩)
      refine ⟨hnext, fun ht => ?_, ?_⟩
      · rw [hpc] at hholds
        obtain ⟨q, granted, published, heq⟩ := (h.holds.shared.clientStep hholds hclient).eq
        rw [heq] at ht
        exact absurd (hstarted.symm.trans ht) (by simp)
      · intro _ call hcall
        rw [hpc'] at hcall
        exact h.clientStep hstarted hpc hclient hbegin (MainPc.client.inj hcall)
    · have hnow := hcovered hstarted (Or.inl rfl)
      have hstart : c.shared.start = ({ c.shared with
          disruptor := { c.shared.disruptor with started := true }
          startValues := c.shared.values },
          .starting c.shared.disruptor.consumerRepository.consumerInfos) := by
        simp [Shared.start, hstarted]
      rw [hstart] at heq
      refine ⟨hnext, fun _ => ?_, fun hf => ?_⟩
      · rw [heq]
        exact hnow.of_eq rfl rfl rfl
      · rw [heq] at hf
        cases hf
    · refine ⟨hnext, fun ht => ?_, ?_⟩
      · rw [heq] at ht
        exact absurd (hstarted.symm.trans ht) (by simp)
      · intro _ call hcall
        rw [hpc'] at hcall
        cases hcall
    · refine ⟨hnext, fun ht => ?_, ?_⟩
      · rw [(h.holds.shared.lifecycleStep hholds hlifecycle).1.started, hstarted] at ht
        cases ht
      · intro _ call hcall
        rw [hcall] at hlifecycle
        cases lifecycleStep_client hlifecycle

/-- A step whose publishing or start begins with all consumers covered keeps the coverage. -/
lemma CoveredInv.next (h : CoveredInv processor waitStrategy c) {a : Label H X P}
    (hs : (system H X P processor waitStrategy).next c a = some c')
    (hcovered : BeginsCovered ⟨c, a, c'⟩) : CoveredInv processor waitStrategy c' := by
  obtain ⟨t, a⟩ := a
  by_cases ht : t = .main
  · subst ht
    exact h.mainStep hs hcovered
  · have hnext := h.holds.next hs
    obtain ⟨s', l', hstep, rfl⟩ := (ThreadPool.next_eq_some _).mp hs
    obtain ⟨hstarted, hruns, -⟩ := (outline H X P processor waitStrategy).step_rely h.holds.shared
      (h.holds.threads t) hstep .main (Ne.symm ht)
    exact h.of_runs hnext hstarted hruns

/-- What is covered is not lapped. -/
lemma CoveredInv.lapsNone (h : CoveredInv processor waitStrategy c) {a : Label H X P}
    (hs : (system H X P processor waitStrategy).next c a = some c')
    (hcovered : BeginsCovered ⟨c, a, c'⟩) : LapsNone ⟨c, a, c'⟩ := by
  intro lo hi hgrant i hi'
  change c'.shared.granted = (lo, hi) :: c.shared.granted at hgrant
  rcases granted_of_next h.holds hs with hsame | ⟨hwhen, lo', hi₁, hcons, hroom⟩
  · rw [hsame] at hgrant
    exact absurd (congrArg List.length hgrant) (by simp)
  · obtain ⟨heq, -⟩ := List.cons.inj (hcons.symm.trans hgrant)
    obtain ⟨-, rfl⟩ := Prod.mk.inj heq
    cases hstarted : c.shared.disruptor.started with
    | true =>
      exact (h.start hstarted i hi').le hroom fun i j hdep hle =>
        values_le_of_dependent h.holds hstarted hdep hle
    | false =>
      -- before `start()` the step is one of a publishing call of the main thread
      have hnow : AllCovered c.shared.disruptor c.shared.values := by
        rcases hwhen with ht | hbegins | ⟨call, hpc⟩
        · exact absurd (hstarted.symm.trans ht) (by simp)
        · exact hcovered hstarted hbegins
        · exact h.claiming hstarted call hpc
      exact (hnow i hi').le hroom fun i j _ hle => hle

omit [DecidableEq P] in
lemma coveredInv_initial (producerType : ProducerType) (b : BufferSize) :
    CoveredInv processor waitStrategy (initial H X P producerType b) := by
  refine ⟨initial_holds producerType b, ?_, ?_⟩
  · rintro ⟨⟩
  · rintro - call ⟨⟩

/-- In every run in which each publishing call before `start()`, and `start()` itself, finds all
registered consumers covered, no registered consumer is ever lapped. -/
theorem registered_not_lapped {producerType : ProducerType} {b : BufferSize}
    {as : List (Label H X P)}
    (hcovered : ∀ x ∈ transitions (system H X P processor waitStrategy).next
      (initial H X P producerType b) as, BeginsCovered x) :
    ∀ x ∈ transitions (system H X P processor waitStrategy).next
      (initial H X P producerType b) as, LapsNone x := by
  intro x hx
  have hinv := transitions_invariant (CoveredInv processor waitStrategy) BeginsCovered
    (fun _ _ _ h hs hc => h.next hs hc) (coveredInv_initial producerType b) hcovered x hx
  exact hinv.1.lapsNone (mem_transitions hx).2 (hcovered x hx)

/-- The processor of a handler that is given batches of at most ten. -/
def batchesOfTen : BatchEventProcessor := ⟨9, .NoRewindHandler, by decide⟩

/-- `B` is chained after `A`. -/
def chainOfTwo : List (Label Bool Empty Empty) :=
  [⟨.main, .build (.handleEventsWith [.handler false])⟩, ⟨.main, .build (.chain 0 [.handler true])⟩]

/-- The `k`-th processor runs, and handles two events. -/
def handleTwo (k waits : Nat) : List (Label Bool Empty Empty) :=
  List.replicate 4 ⟨.processor k, .proceed⟩ ++
  List.replicate waits ⟨.processor k, .wait .proceed⟩ ++
  [⟨.processor k, .input (.onBatchStart none)⟩, ⟨.processor k, .input (.onEvent none)⟩,
    ⟨.processor k, .input (.onEvent none)⟩, ⟨.processor k, .input .endOfBatch⟩]

/-- A ring of two slots is filled before `start()`. The next claim waits for `A`, and then for
`B`. -/
def fillThenStart : List (Label Bool Empty Empty) :=
  [⟨.main, .client (.claim (.next 2))⟩, ⟨.main, .client (.translate true)⟩,
    ⟨.main, .client (.proceed false)⟩, ⟨.main, .start⟩, ⟨.main, .proceed⟩, ⟨.main, .proceed⟩,
    ⟨.main, .proceed⟩, ⟨.main, .client (.claim (.next 1))⟩] ++
  List.replicate 5 ⟨.main, .client (.proceed false)⟩ ++ handleTwo 0 2 ++
  List.replicate 4 ⟨.main, .client (.proceed false)⟩ ++ handleTwo 1 3 ++
  List.replicate 3 ⟨.main, .client (.proceed false)⟩

theorem registered_not_lapped_fillThenStart :
    ∃ c, run (system Bool Empty Empty (fun _ => batchesOfTen) .BusySpin).next
        (initial Bool Empty Empty .SINGLE ⟨1, by decide⟩) (chainOfTwo ++ fillThenStart) = some c ∧
      c.shared.granted = [(2, 2), (0, 1)] ∧
      ∀ x ∈ transitions (system Bool Empty Empty (fun _ => batchesOfTen) .BusySpin).next
        (initial Bool Empty Empty .SINGLE ⟨1, by decide⟩) (chainOfTwo ++ fillThenStart),
        LapsNone x := by
  have hends : (run (system Bool Empty Empty (fun _ => batchesOfTen) .BusySpin).next
      (initial Bool Empty Empty .SINGLE ⟨1, by decide⟩) (chainOfTwo ++ fillThenStart)).map
        (fun c => c.shared.granted) = some [(2, 2), (0, 1)] := by
    decide +kernel
  obtain ⟨c, hrun, hgranted⟩ := Option.map_eq_some_iff.mp hends
  refine ⟨c, hrun, hgranted, registered_not_lapped ?_⟩
  -- up to `start()`, the sequence of `A` is where that of `B` is
  have hbefore : (run (system Bool Empty Empty (fun _ => batchesOfTen) .BusySpin).next
      (initial Bool Empty Empty .SINGLE ⟨1, by decide⟩) chainOfTwo).map (fun c =>
        decide (∀ x ∈ transitions (system Bool Empty Empty (fun _ => batchesOfTen)
            .BusySpin).next c fillThenStart,
          x.pre.shared.disruptor.started = true ∨
            (∀ info ∈ x.pre.shared.disruptor.consumerRepository.consumerInfos,
              info.eventprocessor = .created 0 ∨ info.eventprocessor = .created 1) ∧
            x.pre.shared.disruptor.sequencer.gatingList = [some (.created 1)] ∧
            x.pre.shared.disruptor.dependentSequences (.created 1) = [.created 0] ∧
            x.pre.shared.values (.created 1) ≤ x.pre.shared.values (.created 0))) =
      some true := by
    decide +kernel
  obtain ⟨built, hbuilt, hrest⟩ := Option.map_eq_some_iff.mp hbefore
  rw [transitions_append hbuilt]
  intro x hx hstarted hbegins
  rcases List.mem_append.mp hx with hx | hx
  · have hact := (mem_transitions hx).1
    simp only [chainOfTwo, List.mem_cons, List.not_mem_nil, or_false] at hact
    rcases hact with hact | hact <;> rcases hbegins with h | ⟨op, h⟩ <;>
      · rw [hact] at h
        cases h
  · rcases of_decide_eq_true hrest x hx with ht | ⟨hinfos, hlist, hdeps, hle⟩
    · exact absurd (hstarted.symm.trans ht) (by simp)
    · have hgating : Covered x.pre.shared.disruptor x.pre.shared.values (.created 1) := by
        refine .gating ?_
        rw [hlist]
        exact List.mem_cons_self
      rintro i ⟨info, hinfo, rfl⟩
      rcases hinfos info hinfo with heq | heq
      · rw [heq]
        refine .behind ?_ hle hgating
        rw [hdeps]
        exact List.mem_cons_self
      · rw [heq]
        exact hgating

/-- In a ring of one slot an event is published while `A` is the only consumer; then `B` is
chained after it, and starts at the cursor. -/
def chainedBehind : List (Label Bool Empty Empty) :=
  [⟨.main, .build (.handleEventsWith [.handler false])⟩, ⟨.main, .client (.claim (.next 1))⟩,
    ⟨.main, .client (.translate true)⟩, ⟨.main, .client (.proceed false)⟩,
    ⟨.main, .build (.chain 0 [.handler true])⟩, ⟨.main, .client (.claim (.next 1))⟩] ++
  List.replicate 6 ⟨.main, .client (.proceed false)⟩

/-- The next claim is granted although `A` has not processed the first event. -/
theorem chainedBehind_laps :
    ∃ x, (transitions (system Bool Empty Empty (fun _ => ⟨9, .NoRewindHandler, by decide⟩)
        .BusySpin).next (initial Bool Empty Empty .SINGLE ⟨0, by decide⟩) chainedBehind)[11]? =
          some x ∧
      x.post.shared.granted = (1, 1) :: x.pre.shared.granted ∧
      x.pre.shared.disruptor.consumerRepository.IsRegistered (.created 0) ∧
      x.pre.shared.values (.created 0) < 1 - x.pre.shared.sequencer.bufferSize.size ∧
      ¬ LapsNone x := by
  obtain ⟨x, hx, hgranted, hinfos, hvalue, hsize⟩ : ∃ x, (transitions (system Bool Empty Empty
      (fun _ => ⟨9, .NoRewindHandler, by decide⟩) .BusySpin).next
        (initial Bool Empty Empty .SINGLE ⟨0, by decide⟩) chainedBehind)[11]? = some x ∧
      x.post.shared.granted = (1, 1) :: x.pre.shared.granted ∧
      x.pre.shared.disruptor.consumerRepository.consumerInfos =
        [⟨.created 0, false⟩, ⟨.created 1, true⟩] ∧
      x.pre.shared.values (.created 0) = -1 ∧
      x.pre.shared.sequencer.bufferSize.size = 1 := ⟨_, rfl, rfl, rfl, rfl, rfl⟩
  have hregistered : x.pre.shared.disruptor.consumerRepository.IsRegistered (.created 0) := by
    refine ⟨⟨.created 0, false⟩, ?_, rfl⟩
    rw [hinfos]
    exact List.mem_cons_self
  have hbehind : x.pre.shared.values (.created 0) <
      1 - x.pre.shared.sequencer.bufferSize.size := by
    rw [hvalue, hsize]
    decide
  refine ⟨x, hx, hgranted, hregistered, hbehind, ?_⟩
  intro hlaps
  exact absurd (hlaps 1 1 hgranted _ hregistered) (not_le.mpr hbehind)

end Disruptor.Dsl
