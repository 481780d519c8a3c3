import Disruptor.Dsl.Gating
import Disruptor.Dsl.Graph
import Disruptor.EventProcessor.Quiet

/-!
# Shutdown

`shutdown()` waits for the consumers at the end of their chain, and halts. What it skips are
consumers whose `isRunning()` is false.
-/

namespace Disruptor.Dsl

open Disruptor.Core BatchEventProcessor

variable {H X P : Type}

/-- The consumer has processed the event: `onEvent` returned, or a processor of the user's own has
moved its sequence. -/
def Shared.Processed (s : Shared H X) (sequence : Int) : ProcessorId X → Prop
  | .created k => ∃ endOfBatch start,
    .onEvent sequence endOfBatch start none ∈ (s.disruptor.processors k).calls
  | .custom x => sequence ≤ s.disruptor.customs x

/-- The events that were published when `shutdown()` was called are at or below `a`. -/
def Shared.BeforeShutdown (s : Shared H X) (a : Int) : Prop :=
  ∀ range ∈ s.publishedBefore, range.2 ≤ a

/-- The consumers at the end of their chain, other than those of `rest`, have reached the cursor
that `hasBacklog()` has read. -/
def Shared.Drained (s : Shared H X) (cursor : Int) (rest : List (EventProcessorInfo X)) : Prop :=
  ∀ info ∈ s.disruptor.consumerRepository.consumerInfos, info.endOfChain = true →
    info ∈ rest ∨ cursor ≤ s.values info.eventprocessor

/-- What `shutdown()` has established at each of its places. -/
def Backlog (s : Shared H X) : MainPc X → Prop
  | .hasBacklog => s.disruptor.started = true ∧ s.BeforeShutdown s.sequencer.getCursor
  | .checkRunning cursor rest =>
    s.disruptor.started = true ∧ s.BeforeShutdown s.sequencer.getCursor ∧
      s.BeforeShutdown cursor ∧ s.Drained cursor rest
  | .checkSequence cursor info rest =>
    s.disruptor.started = true ∧ s.BeforeShutdown s.sequencer.getCursor ∧
      s.BeforeShutdown cursor ∧ s.Drained cursor (info :: rest)
  | .halt _ | .alert _ _ | .halted =>
    s.disruptor.started = true ∧
      ∀ info ∈ s.disruptor.consumerRepository.consumerInfos,
        s.BeforeShutdown (s.values info.eventprocessor)
  | _ => True

variable {s s' : Shared H X}

lemma Shared.BeforeShutdown.mono {a a' : Int} (h : s.BeforeShutdown a) (hle : a ≤ a')
    (hsame : s'.publishedBefore = s.publishedBefore) : s'.BeforeShutdown a' := by
  intro range hrange
  rw [hsame] at hrange
  exact (h range hrange).trans hle

lemma Shared.Drained.mono {cursor : Int} {rest : List (EventProcessorInfo X)}
    (h : s.Drained cursor rest) (hruns : s.Runs s') : s'.Drained cursor rest := by
  intro info hinfo hchain
  rw [hruns.consumerRepository] at hinfo
  exact (h info hinfo hchain).imp_right fun hle => hle.trans (hruns.values _)

/-- What was established stays so while the other threads move. -/
lemma Backlog.mono {pc : MainPc X} (h : Backlog s pc) (hruns : s.Runs s')
    (hsame : s'.publishedBefore = s.publishedBefore) : Backlog s' pc := by
  have hcursor := hruns.moves.getCursor
  have hpast : (∀ info ∈ s.disruptor.consumerRepository.consumerInfos,
      s.BeforeShutdown (s.values info.eventprocessor)) →
      ∀ info ∈ s'.disruptor.consumerRepository.consumerInfos,
        s'.BeforeShutdown (s'.values info.eventprocessor) := by
    intro hall info hinfo
    rw [hruns.consumerRepository] at hinfo
    exact (hall info hinfo).mono (hruns.values _) hsame
  cases pc with
  | client c => trivial
  | starting rest => trivial
  | hasBacklog => exact ⟨hruns.started, h.2.mono hcursor hsame⟩
  | checkRunning cursor rest =>
    obtain ⟨-, hnow, hread, hdrained⟩ := h
    exact ⟨hruns.started, hnow.mono hcursor hsame, hread.mono le_rfl hsame, hdrained.mono hruns⟩
  | checkSequence cursor info rest =>
    obtain ⟨-, hnow, hread, hdrained⟩ := h
    exact ⟨hruns.started, hnow.mono hcursor hsame, hread.mono le_rfl hsame, hdrained.mono hruns⟩
  | halt rest => exact ⟨hruns.started, hpast h.2⟩
  | alert k rest => exact ⟨hruns.started, hpast h.2⟩
  | halted => exact ⟨hruns.started, hpast h.2⟩

/-- A step of `shutdown()` that skips no consumer with a backlog. -/
lemma Backlog.lifecycleStep {pc pc' : MainPc X} (h : Backlog s pc) (hinv : s.Inv)
    (hpc : pc.Holds s) (hanchored : s.disruptor.Anchored)
    (horder : s.disruptor.started = true → ∀ i j, i ∈ s.disruptor.dependentSequences j →
      s.values j ≤ s.values i)
    (hskip : ∀ cursor info rest, pc = .checkRunning cursor (info :: rest) →
      info.endOfChain = true → s.isRunning info.eventprocessor = false →
        cursor ≤ s.values info.eventprocessor)
    (hs : Dsl.lifecycleStep s pc = some (s', pc')) : Backlog s' pc' := by
  have hstep := (hinv.lifecycleStep hpc hs).1
  unfold Dsl.lifecycleStep at hs
  split at hs
  · obtain ⟨rfl, rfl⟩ := Prod.mk.inj (Option.some.inj hs)
    trivial
  · obtain ⟨rfl, rfl⟩ := Prod.mk.inj (Option.some.inj hs)
    trivial
  · obtain ⟨rfl, rfl⟩ := Prod.mk.inj (Option.some.inj hs)
    exact ⟨h.1, h.2, h.2, fun info hinfo _ => Or.inl hinfo⟩
  · obtain ⟨rfl, rfl⟩ := Prod.mk.inj (Option.some.inj hs)
    obtain ⟨hstarted, -, hread, hdrained⟩ := h
    refine ⟨hstarted, ?_⟩
    intro info hinfo
    refine hread.mono ?_ rfl
    refine hanchored.le ?_ (horder hstarted) info hinfo
    exact fun info hinfo hchain => (hdrained info hinfo hchain).resolve_left (by simp)
  · rename_i cursor info rest
    obtain ⟨hstarted, hnow, hread, hdrained⟩ := h
    split_ifs at hs with hcheck
    · obtain ⟨rfl, rfl⟩ := Prod.mk.inj (Option.some.inj hs)
      exact ⟨hstarted, hnow, hread, hdrained⟩
    · obtain ⟨rfl, rfl⟩ := Prod.mk.inj (Option.some.inj hs)
      refine ⟨hstarted, hnow, hread, ?_⟩
      intro info' hinfo' hchain
      rcases hdrained info' hinfo' hchain with hmem | hle
      · rcases List.mem_cons.mp hmem with rfl | hmem
        · exact Or.inr (hskip _ _ _ rfl hchain (by simpa [hchain] using hcheck))
        · exact Or.inl hmem
      · exact Or.inr hle
  · rename_i cursor info rest
    obtain ⟨hstarted, hnow, hread, hdrained⟩ := h
    split_ifs at hs with hbehind
    · obtain ⟨rfl, rfl⟩ := Prod.mk.inj (Option.some.inj hs)
      exact ⟨hstarted, hnow⟩
    · obtain ⟨rfl, rfl⟩ := Prod.mk.inj (Option.some.inj hs)
      refine ⟨hstarted, hnow, hread, ?_⟩
      intro info' hinfo' hchain
      rcases hdrained info' hinfo' hchain with hmem | hle
      · rcases List.mem_cons.mp hmem with rfl | hmem
        · exact Or.inr (not_lt.mp hbehind)
        · exact Or.inl hmem
      · exact Or.inr hle
  · obtain ⟨rfl, rfl⟩ := Prod.mk.inj (Option.some.inj hs)
    exact h
  · split at hs
    · obtain ⟨rfl, rfl⟩ := Prod.mk.inj (Option.some.inj hs)
      have hhalted : Backlog s .halted := h
      exact hhalted.mono (hstep.runs h.1) rfl
    · obtain ⟨rfl, rfl⟩ := Prod.mk.inj (Option.some.inj hs)
      exact h
  · obtain ⟨rfl, rfl⟩ := Prod.mk.inj (Option.some.inj hs)
    have hhalted : Backlog s .halted := h
    exact hhalted.mono (hstep.runs h.1) rfl
  · cases hs

/-! ### The program and its runs -/

variable [DecidableEq H] [DecidableEq X] [DecidableEq P]

/-- The program publishes, and shuts down, after `start()`, and no handler throws. -/
def Graceful (x : Transition (Config H X P) (Label H X P)) : Prop :=
  (∀ op, x.act = ⟨.main, .client (.claim op)⟩ → x.pre.shared.disruptor.started = true) ∧
    (x.act = ⟨.main, .shutdown⟩ → x.pre.shared.disruptor.started = true) ∧
    ∀ k i, x.act = ⟨.processor k, .input i⟩ → ¬ i.Throws

/-- A call that chains consumers after a group names at least one. -/
def ChainsConsumers (x : Transition (Config H X P) (Label H X P)) : Prop :=
  ∀ call : BuildCall H X, x.act = ⟨.main, .build call⟩ →
    call.barrierSequences (Main.groups (x.pre.threads .main)) ≠ [] → call.handlers ≠ some []

/-- A consumer at the end of its chain that `hasBacklog()` skips because it is not running has no
backlog. -/
def NoneSkipped (x : Transition (Config H X P) (Label H X P)) : Prop :=
  ∀ cursor info rest, x.act = ⟨.main, .proceed⟩ →
    mainPc x.pre = .checkRunning cursor (info :: rest) → info.endOfChain = true →
      x.pre.shared.isRunning info.eventprocessor = false →
        cursor ≤ x.pre.shared.values info.eventprocessor

/-- When the loop of `shutdown()` has found no backlog, every consumer has processed every event
that was published when `shutdown()` was called. -/
def AllProcessed (c : Config H X P) : Prop :=
  (mainPc c).PastBacklog → ∀ i, c.shared.disruptor.consumerRepository.IsRegistered i →
    ∀ sequence, 0 ≤ sequence → InRanges c.shared.publishedBefore sequence →
      c.shared.Processed sequence i

variable {processor : Nat → BatchEventProcessor} {waitStrategy : WaitStrategy}

/-- Where the thread of the `k`-th processor is. -/
def processorPc (c : Config H X P) (k : Nat) : RunPc (ProcessorId X) := c.threads (.processor k)

omit [DecidableEq X] in
/-- The calls of a processor decide whether it is quiet. -/
lemma quiet_of_calls {f f' : Fields} {pc : RunPc (ProcessorId X)} (h : pc.Quiet f)
    (hcalls : f'.calls = f.calls) : pc.Quiet f' := by
  refine ⟨h.pc_quiet, ?_⟩
  rw [hcalls]
  exact h.calls_quiet

omit [DecidableEq H] in
lemma processorPc_update_self (s : Shared H X) (threads : ∀ t : Thread P X, Local X t) (k : Nat)
    (l : Local X (.processor k : Thread P X)) :
    processorPc (H := H) ⟨s, Function.update threads (.processor k) l⟩ k = l :=
  Function.update_self _ _ _

omit [DecidableEq H] in
lemma processorPc_update_of_ne {t : Thread P X} {k : Nat} (hk : .processor k ≠ t) (s : Shared H X)
    (threads : ∀ t : Thread P X, Local X t) (l : Local X t) :
    processorPc (H := H) ⟨s, Function.update threads t l⟩ k = threads (.processor k) :=
  Function.update_of_ne hk _ _

/-- The outline, the shape of the graph and what `shutdown()` has established. -/
structure DrainInv (processor : Nat → BatchEventProcessor) (waitStrategy : WaitStrategy)
    (c : Config H X P) : Prop where
  holds : (outline H X P processor waitStrategy).Holds c
  anchored : c.shared.disruptor.Anchored
  quiet : ∀ k, (processorPc c k).Quiet (c.shared.disruptor.processors k)
  building : c.shared.disruptor.started = false → mainPc c = .client .idle ∧
    c.shared.disruptor.Linked ∧ c.shared.sequencer.getCursor = INITIAL_VALUE ∧
      ∀ i, c.shared.values i = INITIAL_VALUE
  startValues : c.shared.disruptor.started = true → ∀ i, c.shared.startValues i = INITIAL_VALUE
  backlog : Backlog c.shared (mainPc c)

variable {c c' : Config H X P}

omit [DecidableEq P] in
/-- A step after `start()`. -/
lemma DrainInv.of_runs (h : DrainInv processor waitStrategy c)
    (hnext : (outline H X P processor waitStrategy).Holds c') (hruns : c.shared.Runs c'.shared)
    (hstarted : c.shared.disruptor.started = true)
    (hquiet : ∀ k, (processorPc c' k).Quiet (c'.shared.disruptor.processors k))
    (hbacklog : Backlog c'.shared (mainPc c')) : DrainInv processor waitStrategy c' where
  holds := hnext
  anchored := by
    intro n info hinfo hchain
    rw [hruns.consumerRepository] at hinfo ⊢
    rw [hruns.dependentSequences]
    exact h.anchored n info hinfo hchain
  quiet := hquiet
  building := fun hf => absurd (hf.symm.trans hruns.started) (by simp)
  startValues := by
    intro _
    rw [hruns.startValues]
    exact h.startValues hstarted
  backlog := hbacklog

omit [DecidableEq P] in
/-- A consumer never passes one that it follows. -/
lemma DrainInv.order (h : DrainInv processor waitStrategy c)
    (hstarted : c.shared.disruptor.started = true) (i j : ProcessorId X)
    (hdep : i ∈ c.shared.disruptor.dependentSequences j) :
    c.shared.values j ≤ c.shared.values i := by
  apply values_le_of_dependent h.holds hstarted hdep
  rw [h.startValues hstarted i, h.startValues hstarted j]

/-- A step of the main thread makes no calls of a handler. -/
lemma DrainInv.quiet_main (h : DrainInv processor waitStrategy c) {a : MainAction H X}
    (hs : (system H X P processor waitStrategy).next c ⟨.main, a⟩ = some c') (k : Nat) :
    (processorPc c' k).Quiet (c'.shared.disruptor.processors k) := by
  obtain ⟨s', l', hstep, rfl⟩ := (ThreadPool.next_eq_some _).mp hs
  have hne : (.processor k : Thread P X) ≠ .main := by simp
  obtain ⟨hcalls, -⟩ := (outline H X P processor waitStrategy).step_rely h.holds.shared
    (h.holds.threads .main) hstep (.processor k) hne
  rw [processorPc_update_of_ne hne]
  exact quiet_of_calls (h.quiet k) hcalls

/-- While the graph is built nothing is published and no sequence moves. -/
lemma kept_unpublished : Kept fun d : Disruptor H X =>
    d.sequencer.getCursor = INITIAL_VALUE ∧ ∀ i, d.values i = INITIAL_VALUE where
  createOne := by
    intro d barrierSequences c hd
    cases c with
    | handler h => exact ⟨hd.1, hd.2⟩
    | factory x => exact ⟨hd.1, hd.2⟩
  addGatingSequences := by
    intro d sequences hd
    refine ⟨(Sequencer.addGatingSequences_getCursor _ _ _).trans hd.1, ?_⟩
    intro i
    rw [Disruptor.addGatingSequences_values]
    split_ifs
    · exact hd.1
    · exact hd.2 i
  removeGatingSequence := by
    intro d sequence hd
    exact ⟨(Sequencer.removeGatingSequence_getCursor _ _).trans hd.1, hd.2⟩
  repository := fun d r hd => hd

/-- A step of the main thread. -/
lemma DrainInv.mainStep (h : DrainInv processor waitStrategy c) {a : MainAction H X}
    (hs : (system H X P processor waitStrategy).next c ⟨.main, a⟩ = some c')
    (hgraceful : Graceful ⟨c, ⟨.main, a⟩, c'⟩) (hchains : ChainsConsumers ⟨c, ⟨.main, a⟩, c'⟩)
    (hskip : NoneSkipped ⟨c, ⟨.main, a⟩, c'⟩) : DrainInv processor waitStrategy c' := by
  have hnext := h.holds.next hs
  have hquiet := h.quiet_main hs
  have hholds : MainPc.Holds c.shared (mainPc c) := h.holds.threads .main
  rcases main_next_cases hs with ⟨call, l', rfl, -, hpc', hbuild⟩ |
    ⟨ca, cl, cl', rfl, hpc, hpc', hclient⟩ | ⟨rfl, heq, hpc'⟩ | ⟨rfl, heq, hpc'⟩ |
    ⟨rfl, hlifecycle⟩
  · -- a call that builds the graph
    have hbacklog : Backlog c'.shared (mainPc c') := by
      rw [hpc']
      trivial
    obtain ⟨hstarted, -, ⟨heq, -⟩ | ⟨d, group, hperform, heq⟩⟩ := buildStep_eq hbuild
    · refine ⟨hnext, ?_, hquiet, ?_, ?_, hbacklog⟩
      · rw [heq]
        exact h.anchored
      · rw [heq]
        exact fun hf => ⟨hpc', (h.building hf).2⟩
      · rw [heq]
        exact h.startValues
    · obtain ⟨-, hlinked, hcursor, hvalues⟩ := h.building hstarted
      obtain ⟨hanchored, hlinked'⟩ :=
        BuildCall.perform_anchored h.anchored hlinked (hchains call rfl) hperform
      obtain ⟨hcursor', hvalues'⟩ := kept_unpublished.perform ⟨hcursor, hvalues⟩ hperform
      refine ⟨hnext, ?_, hquiet, ?_, ?_, hbacklog⟩
      · rw [heq]
        exact hanchored
      · rw [heq]
        exact fun _ => ⟨hpc', hlinked', hcursor', hvalues'⟩
      · intro hf
        exact absurd ((h.holds.shared.buildStep hbuild).2.1.symm.trans hf) (by simp)
  · -- a step of a publishing call
    have hstarted : c.shared.disruptor.started = true := by
      by_contra hnot
      obtain ⟨hidle, -⟩ := h.building (by simpa using hnot)
      obtain rfl : cl = .idle := by
        rw [hpc] at hidle
        exact MainPc.client.inj hidle
      cases ca with
      | claim op => exact hnot (hgraceful.1 op rfl)
      | proceed spurious => cases hclient
      | translate returns => cases hclient
    rw [hpc] at hholds
    refine h.of_runs hnext ((h.holds.shared.clientStep hholds hclient).runs hstarted) hstarted
      hquiet ?_
    rw [hpc']
    trivial
  · -- `start()`
    cases hstarted : c.shared.disruptor.started with
    | true =>
      have hsame : c.shared.start = (c.shared, .client .idle) := by
        simp [Shared.start, hstarted]
      rw [hsame] at heq hpc'
      have hruns : c.shared.Runs c'.shared := by
        rw [heq]
        exact Shared.Runs.refl hstarted
      refine h.of_runs hnext hruns hstarted hquiet ?_
      rw [hpc']
      trivial
    | false =>
      have hstart : c.shared.start = ({ c.shared with
          disruptor := { c.shared.disruptor with started := true }
          startValues := c.shared.values },
          .starting c.shared.disruptor.consumerRepository.consumerInfos) := by
        simp [Shared.start, hstarted]
      rw [hstart] at heq hpc'
      refine ⟨hnext, ?_, hquiet, ?_, ?_, ?_⟩
      · rw [heq]
        exact h.anchored
      · rw [heq]
        rintro ⟨⟩
      · rw [heq]
        exact fun _ => (h.building hstarted).2.2.2
      · rw [hpc']
        trivial
  · -- `shutdown()`
    have hstarted : c.shared.disruptor.started = true := hgraceful.2.1 rfl
    have hruns : c.shared.Runs c'.shared := by
      rw [heq]
      exact h.holds.shared.shutdown.runs hstarted
    refine h.of_runs hnext hruns hstarted hquiet ?_
    rw [hpc', heq]
    exact ⟨hstarted, h.holds.shared.published_le⟩
  · -- a step of `start()` or `shutdown()`
    have hstarted : c.shared.disruptor.started = true := by
      by_contra hnot
      obtain ⟨hidle, -⟩ := h.building (by simpa using hnot)
      rw [hidle] at hlifecycle
      cases hlifecycle
    have hruns := (h.holds.shared.lifecycleStep hholds hlifecycle).1.runs hstarted
    refine h.of_runs hnext hruns hstarted hquiet ?_
    refine h.backlog.lifecycleStep h.holds.shared hholds h.anchored h.order ?_ hlifecycle
    exact fun cursor info rest => hskip cursor info rest rfl

omit [DecidableEq P] in
/-- The other threads do not change what was published when `shutdown()` was called. -/
lemma publishedBefore_of_step {t : Thread P X} (ht : t ≠ .main) {l l' : Local X t}
    {a : Action H X t}
    (hs : (system H X P processor waitStrategy).step t s l a = some (s', l')) :
    s'.publishedBefore = s.publishedBefore := by
  cases t with
  | main => exact absurd rfl ht
  | producer p =>
    obtain ⟨q, granted, published, rfl⟩ := clientStep_frame (producerStep_eq hs).2.2
    rfl
  | processor k =>
    obtain ⟨-, f, -, rfl⟩ := processorStep_eq hs
    rfl
  | custom x =>
    simp only [system, Option.map_eq_some_iff] at hs
    obtain ⟨s₁, hcustom, heq⟩ := hs
    obtain ⟨rfl, -⟩ := Prod.mk.inj heq
    obtain ⟨-, ⟨value, rfl, -⟩ | ⟨running, rfl⟩⟩ := customStep_eq hcustom
    · rfl
    · rfl

/-- A step of another thread. -/
lemma DrainInv.otherStep (h : DrainInv processor waitStrategy c) {t : Thread P X} (ht : t ≠ .main)
    {a : Action H X t}
    (hs : (system H X P processor waitStrategy).next c ⟨t, a⟩ = some c')
    (hgraceful : Graceful ⟨c, ⟨t, a⟩, c'⟩) : DrainInv processor waitStrategy c' := by
  have hnext := h.holds.next hs
  obtain ⟨s', l', hstep, rfl⟩ := (ThreadPool.next_eq_some _).mp hs
  have hrely := (outline H X P processor waitStrategy).step_rely h.holds.shared
    (h.holds.threads t) hstep
  obtain ⟨hstarted, hruns, -⟩ := hrely .main ht.symm
  refine h.of_runs hnext hruns hstarted ?_ ?_
  · intro k
    by_cases hk : t = .processor k
    · subst hk
      obtain ⟨-, f, hrun, rfl⟩ := processorStep_eq hstep
      rw [processorPc_update_self]
      simp only [Shared.setProcessor, Function.update_self]
      apply runStep_quiet (h.quiet k) ?_ hrun
      rintro i rfl
      exact hgraceful.2.2 k i rfl
    · rw [processorPc_update_of_ne (Ne.symm hk)]
      exact quiet_of_calls (h.quiet k) (hrely (.processor k) (Ne.symm hk)).1
  · rw [mainPc_update_of_ne ht]
    exact h.backlog.mono hruns (publishedBefore_of_step ht hstep)

lemma DrainInv.next (h : DrainInv processor waitStrategy c) {a : Label H X P}
    (hs : (system H X P processor waitStrategy).next c a = some c')
    (hgraceful : Graceful ⟨c, a, c'⟩) (hchains : ChainsConsumers ⟨c, a, c'⟩)
    (hskip : NoneSkipped ⟨c, a, c'⟩) : DrainInv processor waitStrategy c' := by
  obtain ⟨t, a⟩ := a
  by_cases ht : t = .main
  · subst ht
    exact h.mainStep hs hgraceful hchains hskip
  · exact h.otherStep ht hs hgraceful

omit [DecidableEq P] in
lemma drainInv_initial (producerType : ProducerType) (b : BufferSize) :
    DrainInv processor waitStrategy (initial H X P producerType b) where
  holds := initial_holds producerType b
  anchored := by
    intro n info hinfo
    cases hinfo
  quiet := fun k => ⟨by rintro s call ⟨⟩, by rintro c ⟨⟩⟩
  building := by
    intro _
    refine ⟨rfl, ⟨?_, fun _ _ => rfl⟩, ?_, ?_⟩
    · rintro i n ⟨⟩
    · cases producerType <;> rfl
    · intro i
      cases i <;> rfl
  startValues := fun _ _ => rfl
  backlog := trivial

omit [DecidableEq P] in
/-- What `shutdown()` has established before it halts the consumers. -/
lemma DrainInv.allProcessed (h : DrainInv processor waitStrategy c) : AllProcessed c := by
  intro hpast i hregistered sequence hle hpublished
  obtain ⟨info, hinfo, rfl⟩ := hregistered
  obtain ⟨range, hrange, -, hsequence⟩ := hpublished
  obtain ⟨hstarted, hbefore⟩ : c.shared.disruptor.started = true ∧
      ∀ info ∈ c.shared.disruptor.consumerRepository.consumerInfos,
        c.shared.BeforeShutdown (c.shared.values info.eventprocessor) := by
    have hbacklog := h.backlog
    revert hbacklog hpast
    cases mainPc c with
    | halt rest | alert k rest | halted => exact fun _ hb => hb
    | _ => exact fun hpast => absurd hpast id
  have hreached : sequence ≤ c.shared.values info.eventprocessor :=
    hsequence.trans (hbefore info hinfo range hrange)
  cases hi : info.eventprocessor with
  | created k =>
    rw [hi] at hreached
    have hk := ((h.holds.threads (.processor k)).2 hstarted).reached
    have hstart := h.startValues hstarted (.created k)
    refine (hk.dealt sequence ?_ hreached).processed (h.quiet k).calls_quiet
    rw [hstart]
    exact lt_of_lt_of_le (by decide) hle
  | custom x =>
    rw [hi] at hreached
    exact hreached

/-- In every graceful run in which no call chains zero consumers after a group, and `hasBacklog()`
skips no consumer that has a backlog, what was published before `shutdown()` is processed by
every consumer before `shutdown()` halts them. -/
theorem shutdown_drains {producerType : ProducerType} {b : BufferSize} {as : List (Label H X P)}
    (hsteps : ∀ x ∈ transitions (system H X P processor waitStrategy).next
      (initial H X P producerType b) as, Graceful x ∧ ChainsConsumers x ∧ NoneSkipped x) :
    ∀ x ∈ transitions (system H X P processor waitStrategy).next
      (initial H X P producerType b) as, AllProcessed x.post := by
  intro x hx
  have hinv := transitions_invariant (DrainInv processor waitStrategy)
    (fun x => Graceful x ∧ ChainsConsumers x ∧ NoneSkipped x)
    (fun _ _ _ h hs hc => h.next hs hc.1 hc.2.1 hc.2.2) (drainInv_initial producerType b) hsteps
  exact (hinv x hx).2.allProcessed

/-! ### Two runs -/

/-- The conditions on a step, evaluated. -/
def meetsConditions (x : Transition (Config H X P) (Label H X P)) (skips : Bool) : Bool :=
  match x.act with
  | ⟨.main, a⟩ =>
    match (a : MainAction H X) with
    | .client (.claim _) | .shutdown => x.pre.shared.disruptor.started
    | .build call =>
      (call.barrierSequences (Main.groups (x.pre.threads .main))).isEmpty ||
        call.handlers.all fun handlers => !handlers.isEmpty
    | .proceed =>
      match mainPc x.pre with
      | .checkRunning cursor (info :: _) =>
        skips || !info.endOfChain || x.pre.shared.isRunning info.eventprocessor ||
          decide (cursor ≤ x.pre.shared.values info.eventprocessor)
      | _ => true
    | _ => true
  | ⟨.processor _, a⟩ =>
    match (a : RunAction) with
    | .input (.onBatchStart thrown) | .input (.onEvent thrown) | .input (.onTimeout thrown) =>
      thrown.isNone
    | _ => true
  | _ => true

omit [DecidableEq H] [DecidableEq X] [DecidableEq P] in
lemma meetsConditions_sound {x : Transition (Config H X P) (Label H X P)} {skips : Bool}
    (h : meetsConditions x skips = true) :
    Graceful x ∧ ChainsConsumers x ∧ (skips = false → NoneSkipped x) := by
  obtain ⟨pre, ⟨t, a⟩, post⟩ := x
  refine ⟨⟨?_, ?_, ?_⟩, ?_, ?_⟩
  · rintro op ⟨⟩
    exact h
  · rintro ⟨⟩
    exact h
  · rintro k i ⟨⟩
    cases i <;> simp_all [meetsConditions, Input.Throws]
  · rintro call ⟨⟩ hne hnil
    simp only [meetsConditions, Bool.or_eq_true, List.isEmpty_iff, hne, false_or, hnil] at h
    cases h
  · rintro rfl cursor info rest ⟨⟩ hpc hchain hrunning
    have hpc' : mainPc pre = .checkRunning cursor (info :: rest) := hpc
    simp only [meetsConditions, hpc', hchain, Bool.false_or, Bool.not_true] at h
    rcases (Bool.or_eq_true _ _).mp h with hrun | hle
    · exact absurd (hrunning.symm.trans hrun) (by simp)
    · exact of_decide_eq_true hle

/-- A handler that is given an event before `shutdown()` looks at its sequence. -/
def drained : List (Label Bool Empty Empty) :=
  [⟨.main, .build (.handleEventsWith [.handler false])⟩, ⟨.main, .start⟩, ⟨.main, .proceed⟩,
    ⟨.main, .proceed⟩, ⟨.main, .client (.claim (.next 1))⟩, ⟨.main, .client (.translate true)⟩,
    ⟨.main, .client (.proceed false)⟩] ++
  List.replicate 4 ⟨.processor 0, .proceed⟩ ++
  List.replicate 2 ⟨.processor 0, .wait .proceed⟩ ++
  [⟨.processor 0, .input (.onBatchStart none)⟩, ⟨.processor 0, .input (.onEvent none)⟩,
    ⟨.processor 0, .input .endOfBatch⟩, ⟨.main, .shutdown⟩] ++
  List.replicate 4 ⟨.main, .proceed⟩

theorem shutdown_drains_drained :
    ∃ x, (transitions (system Bool Empty Empty (fun _ => ⟨9, .NoRewindHandler, by decide⟩)
        .BusySpin).next (initial Bool Empty Empty .SINGLE ⟨1, by decide⟩) drained)[20]? = some x ∧
      (mainPc x.post).PastBacklog ∧ x.post.shared.publishedBefore = [(0, 0)] ∧
      AllProcessed x.post := by
  obtain ⟨x, hx, hpc, hbefore⟩ :
      ∃ x, (transitions (system Bool Empty Empty (fun _ => ⟨9, .NoRewindHandler, by decide⟩)
          .BusySpin).next (initial Bool Empty Empty .SINGLE ⟨1, by decide⟩) drained)[20]? = some x ∧
        mainPc x.post = .halt [⟨.created 0, true⟩] ∧
        x.post.shared.publishedBefore = [(0, 0)] := ⟨_, rfl, rfl, rfl⟩
  refine ⟨x, hx, ?_, hbefore, shutdown_drains ?_ x (List.mem_of_getElem? hx)⟩
  · rw [hpc]
    trivial
  · have hall : (transitions (system Bool Empty Empty (fun _ => ⟨9, .NoRewindHandler, by decide⟩)
        .BusySpin).next (initial Bool Empty Empty .SINGLE ⟨1, by decide⟩) drained).all
          (meetsConditions · false) = true := rfl
    intro y hy
    obtain ⟨hgraceful, hchains, hskip⟩ := meetsConditions_sound (List.all_eq_true.mp hall y hy)
    exact ⟨hgraceful, hchains, hskip rfl⟩

/-- The thread of the handler exists but has not entered `run()` when `shutdown()` looks. -/
def notYetRunning : List (Label Bool Empty Empty) :=
  [⟨.main, .build (.handleEventsWith [.handler false])⟩, ⟨.main, .start⟩, ⟨.main, .proceed⟩,
    ⟨.main, .proceed⟩, ⟨.main, .client (.claim (.next 1))⟩, ⟨.main, .client (.translate true)⟩,
    ⟨.main, .client (.proceed false)⟩, ⟨.main, .shutdown⟩] ++
  List.replicate 3 ⟨.main, .proceed⟩

/-- The loop of `shutdown()` ends although the handler has processed nothing. -/
theorem notYetRunning_skipped :
    ∃ x, (transitions (system Bool Empty Empty (fun _ => ⟨9, .NoRewindHandler, by decide⟩)
        .BusySpin).next (initial Bool Empty Empty .SINGLE ⟨1, by decide⟩) notYetRunning)[10]? =
          some x ∧
      (∀ y ∈ transitions (system Bool Empty Empty (fun _ => ⟨9, .NoRewindHandler, by decide⟩)
        .BusySpin).next (initial Bool Empty Empty .SINGLE ⟨1, by decide⟩) notYetRunning,
        Graceful y ∧ ChainsConsumers y) ∧
      (mainPc x.post).PastBacklog ∧ InRanges x.post.shared.publishedBefore 0 ∧
      x.post.shared.disruptor.consumerRepository.IsRegistered (.created 0) ∧
      ¬ x.post.shared.Processed 0 (.created 0) ∧ ¬ AllProcessed x.post := by
  obtain ⟨x, hx, hpc, hbefore, hinfos, hcalls⟩ :
      ∃ x, (transitions (system Bool Empty Empty (fun _ => ⟨9, .NoRewindHandler, by decide⟩)
          .BusySpin).next (initial Bool Empty Empty .SINGLE ⟨1, by decide⟩) notYetRunning)[10]? =
            some x ∧
        mainPc x.post = .halt [⟨.created 0, true⟩] ∧
        x.post.shared.publishedBefore = [(0, 0)] ∧
        x.post.shared.disruptor.consumerRepository.consumerInfos = [⟨.created 0, true⟩] ∧
        (x.post.shared.disruptor.processors 0).calls = [] := ⟨_, rfl, rfl, rfl, rfl, rfl⟩
  have hpast : (mainPc x.post).PastBacklog := by
    rw [hpc]
    trivial
  have hpublished : InRanges x.post.shared.publishedBefore 0 := by
    rw [hbefore]
    exact ⟨(0, 0), List.mem_cons_self, le_rfl, le_rfl⟩
  have hregistered : x.post.shared.disruptor.consumerRepository.IsRegistered (.created 0) := by
    refine ⟨⟨.created 0, true⟩, ?_, rfl⟩
    rw [hinfos]
    exact List.mem_cons_self
  have hnot : ¬ x.post.shared.Processed 0 (.created 0) := by
    rintro ⟨endOfBatch, start, hcall⟩
    rw [hcalls] at hcall
    cases hcall
  refine ⟨x, hx, ?_, hpast, hpublished, hregistered, hnot, ?_⟩
  · have hall : (transitions (system Bool Empty Empty (fun _ => ⟨9, .NoRewindHandler, by decide⟩)
        .BusySpin).next (initial Bool Empty Empty .SINGLE ⟨1, by decide⟩) notYetRunning).all
          (meetsConditions · true) = true := rfl
    intro y hy
    obtain ⟨hgraceful, hchains, -⟩ := meetsConditions_sound (List.all_eq_true.mp hall y hy)
    exact ⟨hgraceful, hchains⟩
  · exact fun hall => hnot (hall hpast _ hregistered 0 le_rfl hpublished)

end Disruptor.Dsl
