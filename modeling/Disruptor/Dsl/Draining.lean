import Disruptor.Core.Draining
import Disruptor.Core.Progress
import Disruptor.Dsl.Orderly
import Disruptor.Dsl.RegistrationOrder

/-!
# The system never gets stuck

Producers wait for the consumers that gate the ring, consumers for what is published and for one
another, and `shutdown()` for the consumers at the end of their chain. Whatever has happened since
`start()`, the threads can go on until everything that was claimed is published and has been passed
by every consumer, and `shutdown()` has returned.
-/

namespace Disruptor.Dsl

set_option linter.dupNamespace false

open Disruptor.Core BatchEventProcessor

variable {H X P : Type} [DecidableEq H] [DecidableEq X] [DecidableEq P]
  {processor : Nat → BatchEventProcessor} {waitStrategy : WaitStrategy} {c c' : Config H X P}
  {s s' : Shared H X} {repository : ConsumerRepository H X} {rank : ProcessorId X → Nat}
  {last : Int}

/-! ### Steps that claim nothing -/

/-- A thread goes on and takes nothing off the sequencer; it is not in `start()` or `shutdown()`. -/
structure Flows (x : Transition (Config H X P) (Label H X P)) : Prop where
  calm : Calm x
  claimed : x.post.shared.sequencer.claimed = x.pre.shared.sequencer.claimed
  notLifecycle : x.act ≠ ⟨.main, .proceed⟩

/-- By steps that claim nothing the system gets from one state to the other. -/
abbrev FlowsTo (processor : Nat → BatchEventProcessor) (waitStrategy : WaitStrategy)
    (c c' : Config H X P) : Prop :=
  ReachesBy (system H X P processor waitStrategy).next Flows c c'

/-- What such a step leaves alone. -/
structure Shared.Onward (s s' : Shared H X) : Prop where
  runs : s.Runs s'
  spawned : s'.spawned = s.spawned
  published : ∀ t, s.IsPublished t → s'.IsPublished t

omit [DecidableEq H] [DecidableEq X] in
lemma clientStep_published {cl cl' : Client X} {a : ClientAction}
    (hs : clientStep s cl a = some (s', cl')) {t : Int} (ht : s.IsPublished t) :
    s'.IsPublished t := by
  unfold Dsl.clientStep at hs
  split at hs
  · split_ifs at hs
    obtain ⟨rfl, -⟩ := Prod.mk.inj (Option.some.inj hs)
    exact ht
  · simp only [Option.map_eq_some_iff] at hs
    obtain ⟨r, -, heq⟩ := hs
    obtain ⟨rfl, -⟩ := Prod.mk.inj heq
    exact ht
  · split_ifs at hs <;> obtain ⟨rfl, -⟩ := Prod.mk.inj (Option.some.inj hs) <;> exact ht
  · obtain ⟨rfl, -⟩ := Prod.mk.inj (Option.some.inj hs)
    exact inRanges_cons.mpr (Or.inl ht)
  · cases hs

lemma onward_of_next (h : (outline H X P processor waitStrategy).Holds c)
    (hstarted : c.shared.disruptor.started = true) {a : Label H X P}
    (hs : (system H X P processor waitStrategy).next c a = some c') (hflows : Flows ⟨c, a, c'⟩) :
    c.shared.Onward c'.shared ∧
      (mainPc c' = mainPc c ∨ ∃ cl cl', mainPc c = .client cl ∧ mainPc c' = .client cl') := by
  obtain ⟨t, a⟩ := a
  by_cases ht : t = .main
  · subst ht
    rcases main_next_cases hs with ⟨call, l', rfl, -⟩ | ⟨ca, cl, cl', rfl, hpc, hpc', hclient⟩ |
      ⟨rfl, -⟩ | ⟨rfl, -⟩ | ⟨rfl, -⟩
    · exact hflows.calm.elim
    · have hholds : MainPc.Holds c.shared (mainPc c) := h.threads .main
      rw [hpc] at hholds
      have hspawned : c'.shared.spawned = c.shared.spawned := by
        obtain ⟨q, granted, published, heq⟩ := clientStep_frame hclient
        rw [heq]
        rfl
      exact ⟨⟨(h.shared.clientStep hholds hclient).runs hstarted, hspawned,
        fun t => clientStep_published hclient⟩, Or.inr ⟨cl, cl', hpc, hpc'⟩⟩
    · exact hflows.calm.elim
    · exact hflows.calm.elim
    · exact absurd rfl hflows.notLifecycle
  · have hspawned := spawned_of_next ht hs
    have hmain : mainPc c' = mainPc c := congrArg Main.pc (threads_of_next hs (Ne.symm ht))
    refine ⟨⟨?_, hspawned, ?_⟩, Or.inl hmain⟩
    · obtain ⟨s', l', hstep, rfl⟩ := (ThreadPool.next_eq_some _).mp hs
      exact ((outline H X P processor waitStrategy).step_rely h.shared (h.threads t) hstep .main
        (Ne.symm ht)).2.1
    · intro u hu
      obtain ⟨s', l', hstep, rfl⟩ := (ThreadPool.next_eq_some _).mp hs
      cases t with
      | main => exact absurd rfl ht
      | producer p => exact clientStep_published (producerStep_eq hstep).2.2 hu
      | processor k =>
        obtain ⟨-, f, -, rfl⟩ := processorStep_eq hstep
        exact hu
      | custom y =>
        simp only [system, Option.map_eq_some_iff] at hstep
        obtain ⟨s₁, hcustom, heq⟩ := hstep
        obtain ⟨rfl, -⟩ := Prod.mk.inj heq
        obtain ⟨-, ⟨value, rfl, -⟩ | ⟨running, rfl⟩⟩ := customStep_eq hcustom <;> exact hu

/-- `shutdown()` looks for a backlog. -/
def MainPc.ShutsDown : MainPc X → Prop
  | .hasBacklog | .checkRunning _ _ | .checkSequence _ _ _ => True
  | _ => False

/-- All consumers have their threads and none is halted, the graph has no cycle, and `last` is the
highest sequence that was claimed. -/
structure Underway (processor : Nat → BatchEventProcessor) (waitStrategy : WaitStrategy)
    (repository : ConsumerRepository H X) (rank : ProcessorId X → Nat) (last : Int)
    (c : Config H X P) : Prop where
  orderly : OrderlyInv processor waitStrategy c
  started : c.shared.disruptor.started = true
  running : ¬ (mainPc c).PastBacklog
  consumerRepository : c.shared.disruptor.consumerRepository = repository
  spawned : ∀ i, repository.IsRegistered i → i ∈ c.shared.spawned
  layered : c.shared.disruptor.Layered rank
  claimed : c.shared.sequencer.claimed = last

lemma Underway.next (h : Underway processor waitStrategy repository rank last c) {a : Label H X P}
    (hs : (system H X P processor waitStrategy).next c a = some c') (hflows : Flows ⟨c, a, c'⟩) :
    Underway processor waitStrategy repository rank last c' := by
  obtain ⟨honward, hmain⟩ := onward_of_next h.orderly.visible.holds h.started hs hflows
  refine ⟨h.orderly.next hs hflows.calm.orderly, honward.runs.started, ?_, ?_, ?_, ?_, ?_⟩
  · rcases hmain with hsame | ⟨cl, cl', -, hpc'⟩
    · rw [hsame]
      exact h.running
    · rw [hpc']
      exact id
  · exact honward.runs.consumerRepository.trans h.consumerRepository
  · rw [honward.spawned]
    exact h.spawned
  · exact h.layered.of_eq honward.runs.consumerRepository honward.runs.dependentSequences
  · exact hflows.claimed.trans h.claimed

/-- On the way nothing is lost, and `shutdown()` waits. -/
lemma Underway.flowsTo (h : Underway processor waitStrategy repository rank last c)
    (hflows : FlowsTo processor waitStrategy c c') :
    Underway processor waitStrategy repository rank last c' ∧
      (∀ i, c.shared.values i ≤ c'.shared.values i) ∧
      (∀ t, c.shared.IsPublished t → c'.shared.IsPublished t) ∧
      ((mainPc c).ShutsDown → mainPc c' = mainPc c) := by
  refine ReachesBy.invariant (fun d => Underway processor waitStrategy repository rank last d ∧
    (∀ i, c.shared.values i ≤ d.shared.values i) ∧
    (∀ t, c.shared.IsPublished t → d.shared.IsPublished t) ∧
    ((mainPc c).ShutsDown → mainPc d = mainPc c)) ?_
    ⟨h, fun _ => le_rfl, fun _ => id, fun _ => rfl⟩ hflows
  rintro d a d' ⟨hd, hvalues, hpublished, hshuts⟩ hs hx
  obtain ⟨honward, hmain⟩ := onward_of_next hd.orderly.visible.holds hd.started hs hx
  refine ⟨hd.next hs hx, fun i => (hvalues i).trans (honward.runs.values i),
    fun t ht => honward.published t (hpublished t ht), ?_⟩
  intro hpc
  have hsame := hshuts hpc
  rcases hmain with heq | ⟨cl, cl', hclient, -⟩
  · exact heq.trans hsame
  · rw [← hsame, hclient] at hpc
    exact hpc.elim

/-- A thread takes a step. -/
lemma next_of_step {t : Thread P X} {a : Action H X t} {l' : Local X t}
    (hs : (system H X P processor waitStrategy).step t c.shared (c.threads t) a = some (s', l')) :
    (system H X P processor waitStrategy).next c ⟨t, a⟩ =
      some ⟨s', Function.update c.threads t l'⟩ :=
  (ThreadPool.next_eq_some _).mpr ⟨s', l', hs, rfl⟩

/-! ### A producer publishes what it holds -/

omit [DecidableEq P] in
/-- What a producer knows. -/
lemma clients_holds (h : (outline H X P processor waitStrategy).Holds c) (a : Option P) :
    (clients c a).Holds c.shared := by
  cases a with
  | none =>
    have hholds : MainPc.Holds c.shared (mainPc c) := h.threads .main
    show (mainPc c).asClient.Holds c.shared
    cases hpc : mainPc c with
    | client cl =>
      rw [hpc] at hholds
      exact hholds
    | _ => trivial
  | some p =>
    rcases h.threads (.producer p) with hidle | ⟨-, -, hholds⟩
    · rw [show clients c (some p) = .idle from hidle]
      trivial
    · exact hholds

/-- A producer that is not idle goes on. -/
lemma flowsTo_of_clientStep (h : (outline H X P processor waitStrategy).Holds c) {a : Option P}
    (hidle : clients c a ≠ .idle) {ca : ClientAction} {cl' : Client X}
    (hs : clientStep c.shared (clients c a) ca = some (s', cl')) (hgoes : ca.GoesOn)
    (hclaimed : s'.sequencer.claimed = c.shared.sequencer.claimed) :
    ∃ c', FlowsTo processor waitStrategy c c' ∧ c'.shared = s' ∧ clients c' a = cl' := by
  cases a with
  | none =>
    obtain ⟨cl, hpc⟩ : ∃ cl, mainPc c = .client cl := by
      cases hpc : mainPc c with
      | client cl => exact ⟨cl, rfl⟩
      | _ => exact absurd (by simp [clients, hpc, MainPc.asClient]) hidle
    have hcl : clients c none = cl := by simp [clients, hpc, MainPc.asClient]
    rw [hcl] at hs
    have hstep : mainStep c.shared (c.threads .main) (.client ca) =
        some (s', { (c.threads .main : Main X) with pc := .client cl' }) := by
      simp only [mainStep]
      rw [show Main.pc (c.threads .main) = .client cl from hpc]
      simp [hs]
    have hnext : (system H X P processor waitStrategy).next c ⟨.main, .client ca⟩ = some ⟨s', _⟩ :=
      next_of_step hstep
    refine ⟨_, .single ⟨_, hnext, hgoes, hclaimed, by rintro ⟨⟩⟩, rfl, ?_⟩
    simp [clients, MainPc.asClient]
  | some p =>
    obtain ⟨hstarted, ⟨m, hm⟩, -⟩ := (h.threads (.producer p)).resolve_left hidle
    have hstep : producerStep c.shared (c.threads (.producer p)) ca = some (s', cl') := by
      unfold producerStep
      rw [hm]
      simp only [hstarted, if_true]
      exact hs
    have hnext : (system H X P processor waitStrategy).next c ⟨.producer p, ca⟩ = some ⟨s', _⟩ :=
      next_of_step hstep
    refine ⟨_, .single ⟨_, hnext, hgoes, hclaimed, by rintro ⟨⟩⟩, rfl, ?_⟩
    exact Function.update_self _ _ _

section

variable {a : Option P} {lo hi u : Int}

/-- In `publish` the first sequence is made available. -/
lemma Underway.publishing (h : Underway processor waitStrategy repository rank last c)
    (hcl : clients c a = .publishing u hi) :
    ∃ c', FlowsTo processor waitStrategy c c' ∧ c'.shared.IsPublished u := by
  have hholds := h.orderly.visible.holds
  have hknows := clients_holds hholds a
  rw [hcl] at hknows
  cases hpublish : c.shared.sequencer.publishStep u hi with
  | mk q rest =>
    obtain ⟨range, returned⟩ := rest
    obtain ⟨hclaimed, -, hfirst, hge, -⟩ := publishStep_range hknows.1 hpublish
    have hs : clientStep c.shared (clients c a) (.proceed false) =
        some ({ c.shared.setSequencer q with published := range :: c.shared.published },
          if returned then .idle else .publishing (u + 1) hi) := by
      rw [hcl]
      simp [clientStep, hpublish]
    obtain ⟨c', hflows, hshared, -⟩ :=
      flowsTo_of_clientStep hholds (by simp [hcl]) hs trivial hclaimed
    refine ⟨c', hflows, ?_⟩
    rw [hshared]
    exact inRanges_cons.mpr (Or.inr ⟨hfirst.le, hge⟩)

/-- The translator returns, and the event is published. -/
lemma Underway.translating (h : Underway processor waitStrategy repository rank last c)
    (hcl : clients c a = .translating u hi) :
    ∃ c', FlowsTo processor waitStrategy c c' ∧ c'.shared.IsPublished u := by
  have hs : clientStep c.shared (clients c a) (.translate true) =
      some (c.shared, .publishing u hi) := by
    rw [hcl]
    simp [clientStep]
  obtain ⟨c₁, hflows, -, hcl₁⟩ :=
    flowsTo_of_clientStep h.orderly.visible.holds (by simp [hcl]) hs rfl rfl
  obtain ⟨c', hflows', hpublished⟩ := (h.flowsTo hflows).1.publishing hcl₁
  exact ⟨c', hflows.trans hflows', hpublished⟩

/-- One step of a call that has taken its range. -/
lemma Underway.callStep (h : Underway processor waitStrategy repository rank last c)
    {m m' : MultiProducerSequencer (ProcessorId X)}
    {call : MultiProducerSequencer.ClaimCall (ProcessorId X)}
    {r : ClaimResult (MultiProducerSequencer.ClaimCall (ProcessorId X))}
    (hcl : clients c a = .claiming (.multi call)) (hm : c.shared.sequencer = .multi m)
    (htaken : call.taken = some (lo, hi))
    (hs : m.callStep c.shared.values false call = (r, m')) :
    ∃ c', FlowsTo processor waitStrategy c c' ∧ c'.shared.sequencer = .multi m' ∧
      c'.shared.values = c.shared.values ∧ clients c' a = .ofResult (r.map .multi) ∧
      (Sequencer.multi m).Takes (.multi m') (some (lo, hi)) (r.map .multi) := by
  have hholds := h.orderly.visible.holds
  have hknows : (Sequencer.ClaimCall.multi call).Holds c.shared.sequencer c.shared.values := by
    have hclient := clients_holds hholds a
    rw [hcl] at hclient
    exact hclient
  have hfits := h.orderly.visible.accounts.fits a
  rw [hcl] at hfits
  have hcall : c.shared.sequencer.callStep c.shared.values false (.multi call) =
      some (r.map .multi, .multi m') := by
    simp [hm, Sequencer.callStep, hs]
  obtain ⟨htakes, -, -⟩ := hholds.shared.consistent.callStep_takes hknows hfits hcall
  have hkept : (Sequencer.ClaimCall.multi call).taken = some (lo, hi) := htaken
  rw [hkept, hm] at htakes
  have hclaimed : (Sequencer.multi m').claimed = (Sequencer.multi m).claimed := by
    cases r with
    | running call' => exact (htakes.resolve_right fun hnone => by cases hnone.1).1
    | claimed lo' hi' => exact (htakes.resolve_right fun hnone => by cases hnone.1).1
    | ended => exact htakes.2
  have hstep : clientStep c.shared (clients c a) (.proceed false) =
      some (c.shared.afterClaim (r.map .multi, .multi m')) := by
    rw [hcl]
    simp [clientStep, hcall]
  obtain ⟨c', hflows, hshared, hcl'⟩ := flowsTo_of_clientStep hholds (by simp [hcl]) hstep trivial
    (by rw [hm]; exact hclaimed)
  refine ⟨c', hflows, ?_, ?_, hcl', htakes⟩
  · rw [hshared]
    rfl
  · rw [hshared]
    rfl

/-- A call that has taken its range is granted it, when there is room. -/
lemma Underway.grants (h : Underway processor waitStrategy repository rank last c)
    {values : ProcessorId X → Int} {m m' : MultiProducerSequencer (ProcessorId X)}
    {call : MultiProducerSequencer.ClaimCall (ProcessorId X)}
    (hgrants : MultiProducerSequencer.Grants values lo hi m call m')
    (hvalues : c.shared.values = values) (hcl : clients c a = .claiming (.multi call))
    (hm : c.shared.sequencer = .multi m) (htaken : call.taken = some (lo, hi)) :
    ∃ c', FlowsTo processor waitStrategy c c' ∧ clients c' a = .translating lo hi := by
  induction hgrants generalizing c with
  | done hs =>
    obtain ⟨c', hflows, -, -, hcl', -⟩ := h.callStep hcl hm htaken (hvalues ▸ hs)
    exact ⟨c', hflows, hcl'⟩
  | go hs _ ih =>
    obtain ⟨c₁, hflows, hm₁, hvalues₁, hcl₁, htakes⟩ := h.callStep hcl hm htaken (hvalues ▸ hs)
    have htaken₁ := (htakes.resolve_right fun hnone => by cases hnone.1).2
    obtain ⟨c', hflows', hcl'⟩ :=
      ih (h.flowsTo hflows).1 (hvalues₁.trans hvalues) hcl₁ hm₁ htaken₁
    exact ⟨c', hflows.trans hflows', hcl'⟩

/-- Whoever holds the lowest sequence that is not published goes on and publishes it, once every
consumer has passed what is below it. -/
lemma Underway.publishes (h : Underway processor waitStrategy repository rank last c)
    (hu : 0 ≤ u) (hlast : u ≤ last) (hbelow : Upto c.shared.IsPublished (u - 1))
    (hnot : ¬ c.shared.IsPublished u)
    (hvalues : ∀ i, repository.IsRegistered i → u - 1 ≤ c.shared.values i) :
    ∃ c', FlowsTo processor waitStrategy c c' ∧ c'.shared.IsPublished u := by
  have hholds := h.orderly.visible.holds
  have haccounts := h.orderly.visible.accounts
  obtain ⟨a, lo, hi, hrange, hlo, hhi⟩ :=
    (haccounts.balanced.accounted u hu (hlast.trans h.claimed.ge)).resolve_left hnot
  -- what the producer holds below `u` would be published
  obtain rfl : lo = u := by
    have hcovers : Covers (clients c a).range lo := ⟨lo, hi, hrange, le_rfl, hlo.trans hhi⟩
    obtain ⟨hnonneg, -, hunset⟩ := haccounts.balanced.within a lo hcovers
    by_contra hne
    exact hunset (hbelow lo hnonneg (by omega))
  cases hcl : clients c a with
  | idle =>
    simp only [Shared.ledger, hcl] at hrange
    cases hrange
  | translating l hi' =>
    simp only [Shared.ledger, hcl] at hrange
    cases hrange
    exact h.translating hcl
  | publishing l hi' =>
    simp only [Shared.ledger, hcl] at hrange
    cases hrange
    exact h.publishing hcl
  | claiming call =>
    simp only [Shared.ledger, hcl] at hrange
    have hknows := clients_holds hholds a
    have hfits := haccounts.fits a
    rw [hcl] at hknows hfits
    cases call with
    | single call => cases hrange
    | multi call =>
      obtain ⟨m, hm, hknows, -⟩ := hknows
      have hconsistent := hholds.shared.consistent
      rw [hm] at hconsistent
      obtain ⟨m', hgrants, -⟩ := MultiProducerSequencer.exists_grants hconsistent.1.gating hknows
        (hfits m hm).1 hrange (by
          intro i hi
          refine hvalues i (h.consumerRepository ▸ h.orderly.gates i ?_)
          show some i ∈ c.shared.sequencer.gatingList
          rw [hm]
          exact hi)
      obtain ⟨c₁, hflows, hcl₁⟩ := h.grants hgrants rfl hcl hm hrange
      obtain ⟨c', hflows', hpublished⟩ := (h.flowsTo hflows).1.translating hcl₁
      exact ⟨c', hflows.trans hflows', hpublished⟩

end

/-! ### A consumer moves on -/

section

variable {u : Int} {k : Nat} {x y : Fields × RunPc (ProcessorId X)}

/-- The state with the fields of the `k`-th processor and the place of its thread replaced. -/
def withProcessor (c : Config H X P) (k : Nat) (x : Fields × RunPc (ProcessorId X)) :
    Config H X P :=
  ⟨c.shared.setProcessor k x.1, Function.update c.threads (.processor k) x.2⟩

omit [DecidableEq H] in
lemma withProcessor_self (c : Config H X P) (k : Nat) :
    withProcessor c k (c.shared.disruptor.processors k, processorPc c k) = c := by
  have hthreads : Function.update c.threads (.processor k) (processorPc c k) = c.threads :=
    Function.update_eq_self _ _
  simp [withProcessor, Shared.setProcessor, hthreads]

/-- What the thread of a processor does on its own. -/
lemma next_of_goes (hspawned : .created k ∈ c.shared.spawned)
    (hgoes : Goes (processor k) (c.shared.barrier waitStrategy k)
      (fun f => (c.shared.setProcessor k f).view k) x y) :
    ∃ a : RunAction, (∀ i, a = .input i → ¬ i.Throws) ∧
      (system H X P processor waitStrategy).next (withProcessor c k x) ⟨.processor k, a⟩ =
        some (withProcessor c k y) := by
  obtain ⟨a, hthrows, hrun⟩ := hgoes
  have hstep : processorStep processor waitStrategy (c.shared.setProcessor k x.1) k x.2 a =
      some (c.shared.setProcessor k y.1, y.2) := by
    have hbarrier : (c.shared.setProcessor k x.1).barrier waitStrategy k =
        c.shared.barrier waitStrategy k := rfl
    have hmem : .created k ∈ (c.shared.setProcessor k x.1).spawned := hspawned
    have hself : (c.shared.setProcessor k x.1).disruptor.processors k = x.1 := by
      simp [Shared.setProcessor]
    simp only [processorStep, hmem, if_true, hbarrier, hself, hrun, Option.map_some]
    simp [Shared.setProcessor]
  have hlocal : (withProcessor c k x).threads (.processor k) = x.2 := Function.update_self _ _ _
  rw [← hlocal] at hstep
  have hnext : (system H X P processor waitStrategy).next (withProcessor c k x)
      ⟨.processor k, a⟩ = some ⟨c.shared.setProcessor k y.1, _⟩ := next_of_step hstep
  have hidem : Function.update (withProcessor c k x).threads (.processor k) y.2 =
      (withProcessor c k y).threads := Function.update_idem _ _ _
  refine ⟨a, hthrows, ?_⟩
  rw [hnext, hidem]
  rfl

lemma flows_of_goes (hspawned : .created k ∈ c.shared.spawned)
    (hgoes : Goes (processor k) (c.shared.barrier waitStrategy k)
      (fun f => (c.shared.setProcessor k f).view k) x y) :
    StepBy (system H X P processor waitStrategy).next Flows (withProcessor c k x)
      (withProcessor c k y) := by
  obtain ⟨a, hthrows, hnext⟩ := next_of_goes hspawned hgoes
  exact ⟨⟨.processor k, a⟩, hnext, hthrows, rfl, by rintro ⟨⟩⟩

omit [DecidableEq P] in
/-- What the processor waits for is there. -/
lemma Underway.ready (h : Underway processor waitStrategy repository rank last c)
    (hregistered : repository.IsRegistered (.created k)) (hmax : u ≤ INT64_MAX)
    (hupto : Upto c.shared.IsPublished u) (hlt : c.shared.values (.created k) < u)
    (hbelow : ∀ i, c.shared.disruptor.Follows i (.created k) → u ≤ c.shared.values i)
    {f : Fields} (halerted : f.alerted = false) :
    WaitCall.Ready (c.shared.barrier waitStrategy k) ((c.shared.setProcessor k f).view k)
      (c.shared.values (.created k) + 1) := by
  have hvisible := h.orderly.visible
  have hreg : c.shared.disruptor.consumerRepository.IsRegistered (.created k) :=
    h.consumerRepository.symm ▸ hregistered
  have hge := hvisible.values_ge (.created k)
  simp only [INITIAL_VALUE] at hge
  refine ⟨?_, ?_, ?_, ?_, by omega⟩
  · simpa [Shared.view, Shared.setProcessor] using halerted
  · obtain ⟨range, hrange, -, hle⟩ :=
      hupto (c.shared.values (.created k) + 1) (by omega) (by omega)
    exact hle.trans (hvisible.holds.shared.published_le range hrange)
  · intro i hi
    have hne : i ≠ .created k := by
      rintro rfl
      exact lt_irrefl _ (h.layered _ hreg _ hi).2
    show _ ≤ (c.shared.setProcessor k f).values i
    rw [values_setProcessor_of_ne hne]
    have hle := hbelow i hi
    omega
  · intro isAvailable havailable
    refine hvisible.accounts.tells.isAvailable_of_published havailable (by omega) ?_ ?_
    · exact hupto.mono (by omega) fun _ => Shared.isPublished_eq_true.mpr
    · intro t ht
      obtain ⟨range, hrange, hle⟩ :=
        hvisible.accounts.published_granted t (Shared.isPublished_eq_true.mp ht)
      have hlap := h.orderly.noLap k hreg range hrange
      omega

/-- A consumer that is behind what is published moves on, when those that it follows are ahead. -/
lemma Underway.advances (h : Underway processor waitStrategy repository rank last c)
    {i : ProcessorId X} (hregistered : repository.IsRegistered i) (hmax : u ≤ INT64_MAX)
    (hupto : Upto c.shared.IsPublished u) (hlt : c.shared.values i < u)
    (hbelow : ∀ j, c.shared.disruptor.Follows j i → u ≤ c.shared.values j) :
    ∃ c', FlowsTo processor waitStrategy c c' ∧ c.shared.values i < c'.shared.values i := by
  have hspawned := h.spawned i hregistered
  cases i with
  | custom y =>
    have hstep : (system H X P processor waitStrategy).step (.custom y) c.shared
        (c.threads (.custom y)) (.advance u) = some (c.shared.setCustom y u, ()) := by
      have hle : c.shared.disruptor.customs y ≤ u := hlt.le
      have hall : ∀ j ∈ c.shared.disruptor.dependentSequences (.custom y),
          u ≤ c.shared.values j := hbelow
      simp only [system, customStep]
      rw [if_pos ⟨hspawned, hle, hall⟩]
      rfl
    have hnext : (system H X P processor waitStrategy).next c ⟨.custom y, .advance u⟩ =
        some ⟨c.shared.setCustom y u, _⟩ := next_of_step hstep
    refine ⟨_, .single ⟨_, hnext, hupto, rfl, by rintro ⟨⟩⟩, ?_⟩
    rw [values_setCustom_self]
    exact hlt
  | created k =>
    have hholds := h.orderly.visible.holds
    have hknows := ((hholds.threads (.processor k)).2 h.started).knows
    have hself : c.shared.setProcessor k (c.shared.disruptor.processors k) = c.shared := by
      simp [Shared.setProcessor]
    let views : Fields → WaitView (ProcessorId X) := fun f => (c.shared.setProcessor k f).view k
    have hturns : (processorPc c k).Turns (views (c.shared.disruptor.processors k))
        (c.shared.disruptor.processors k) := by
      simp only [views, hself]
      exact h.orderly.turns h.running k
    have hsame : ∀ s wait, processorPc c k = .processEvents s wait →
        s.sequence = (c.shared.disruptor.processors k).sequence := by
      intro s wait hpc
      rw [show c.threads (.processor k) = .processEvents s wait from hpc] at hknows
      exact hknows.1
    obtain ⟨endOfBatch, hmore, f, s, hreach, hsequence⟩ := @RunPc.Turns.advances _ (processor k)
      (c.shared.barrier waitStrategy k) views (c.shared.disruptor.processors k, processorPc c k)
      hturns hsame fun f hf => h.ready hregistered hmax hupto hlt hbelow hf
    have hlift : FlowsTo processor waitStrategy
        (withProcessor c k (c.shared.disruptor.processors k, processorPc c k))
        (withProcessor c k (f, .processEvents s .checkAlert)) :=
      hreach.lift (withProcessor c k) fun _ _ => flows_of_goes hspawned
    rw [withProcessor_self] at hlift
    refine ⟨_, hlift, ?_⟩
    show _ < (c.shared.setProcessor k f).values (.created k)
    rw [values_setProcessor_self, hsequence]
    exact hmore

end

/-! ### The log drains -/

/-- Claims are published in order and consumers follow one another, as in any log. -/
lemma drains (repository : ConsumerRepository H X) (rank : ProcessorId X → Nat)
    (hmax : last ≤ INT64_MAX) :
    Drains (Underway (P := P) processor waitStrategy repository rank last)
      (FlowsTo processor waitStrategy) (fun c => c.shared.IsPublished) (fun c => c.shared.values)
      last repository.processors rank where
  refl := .refl
  trans := .trans
  keeps h hflows := (h.flowsTo hflows).1
  published_mono u h hflows := (h.flowsTo hflows).2.2.1 u
  value_mono i h hflows := (h.flowsTo hflows).2.1 i
  publishes u h hu hlast hbelow hnot hvalues :=
    h.publishes hu hlast hbelow hnot fun i hi =>
      hvalues i (ConsumerRepository.mem_processors.mpr hi)
  advances u i h hlast hupto hi hlt hbelow := by
    have hregistered := ConsumerRepository.mem_processors.mp hi
    refine h.advances hregistered (hlast.trans hmax) hupto hlt ?_
    intro j hj
    obtain ⟨hreg, hrank⟩ := h.layered i (h.consumerRepository.symm ▸ hregistered) j hj
    exact hbelow j (ConsumerRepository.mem_processors.mpr (h.consumerRepository ▸ hreg)) hrank

/-- Everything that was claimed is published, and every consumer has passed it. -/
structure Shared.CaughtUp (s : Shared H X) (last : Int) : Prop where
  started : s.disruptor.started = true
  claimed : s.sequencer.claimed = last
  published : Upto s.IsPublished last
  passed : ∀ i, s.disruptor.consumerRepository.IsRegistered i → last ≤ s.values i

lemma Underway.caughtUp (h : Underway processor waitStrategy repository rank last c)
    (hmax : last ≤ INT64_MAX) :
    ∃ c', FlowsTo processor waitStrategy c c' ∧ c'.shared.CaughtUp last := by
  have hge : -1 ≤ last := h.claimed ▸ h.orderly.visible.accounts.balanced.claimed_ge
  obtain ⟨c', hflows, hupto, hvalues⟩ := (drains repository rank hmax).drained h hge
    fun i _ => h.orderly.visible.values_ge i
  obtain ⟨h', -⟩ := h.flowsTo hflows
  refine ⟨c', hflows, h'.started, h'.claimed, hupto, ?_⟩
  intro i hi
  exact hvalues i (ConsumerRepository.mem_processors.mpr (h'.consumerRepository ▸ hi))

/-! ### `start()` and `shutdown()` return -/

/-- The main thread goes on alone with `start()` or `shutdown()`. -/
abbrev ProceedsTo (processor : Nat → BatchEventProcessor) (waitStrategy : WaitStrategy)
    (c c' : Config H X P) : Prop :=
  ReachesBy (system H X P processor waitStrategy).next (fun x => x.act = ⟨.main, .proceed⟩) c c'

/-- What `start()` and `shutdown()` leave alone. -/
structure Shared.SameLog (s s' : Shared H X) : Prop where
  sequencer : s'.sequencer = s.sequencer
  published : s'.published = s.published
  values : s'.values = s.values
  started : s'.disruptor.started = s.disruptor.started
  consumerRepository : s'.disruptor.consumerRepository = s.disruptor.consumerRepository
  dependentSequences : s'.disruptor.dependentSequences = s.disruptor.dependentSequences

lemma ProceedsTo.sameLog (h : OrderlyInv processor waitStrategy c)
    (hproceeds : ProceedsTo processor waitStrategy c c') :
    OrderlyInv processor waitStrategy c' ∧ c.shared.SameLog c'.shared := by
  refine ReachesBy.invariant (fun d => OrderlyInv processor waitStrategy d ∧
    c.shared.SameLog d.shared) ?_ ⟨h, rfl, rfl, rfl, rfl, rfl, rfl⟩ hproceeds
  rintro d a d' ⟨hd, hsame⟩ hs rfl
  have hnext := hd.next hs (Calm.orderly trivial)
  have hholds : MainPc.Holds d.shared (mainPc d) := hd.visible.holds.threads .main
  rcases main_next_cases hs with ⟨call, l', ⟨⟩, -⟩ | ⟨ca, cl, cl', ⟨⟩, -⟩ | ⟨⟨⟩, -⟩ | ⟨⟨⟩, -⟩ |
    ⟨-, hlifecycle⟩
  obtain ⟨hsequencer, -, hdependent, hrepository⟩ := lifecycleStep_keeps hlifecycle
  have hstep := (hd.visible.holds.shared.lifecycleStep hholds hlifecycle).1
  exact ⟨hnext, hsequencer.trans hsame.sequencer, hstep.published.trans hsame.published,
    hstep.values.trans hsame.values, hstep.started.trans hsame.started,
    hrepository.trans hsame.consumerRepository, hdependent.trans hsame.dependentSequences⟩

/-- One step of `start()` or `shutdown()`. -/
lemma proceedsTo_of_lifecycleStep {pc pc' : MainPc X} (hpc : mainPc c = pc)
    (hs : lifecycleStep c.shared pc = some (s', pc')) :
    ∃ c', ProceedsTo processor waitStrategy c c' ∧ c'.shared = s' ∧ mainPc c' = pc' := by
  have hstep : mainStep c.shared (c.threads .main) .proceed =
      some (s', { (c.threads .main : Main X) with pc := pc' }) := by
    simp only [mainStep]
    rw [show Main.pc (c.threads .main) = pc from hpc, hs]
    rfl
  have hnext : (system H X P processor waitStrategy).next c ⟨.main, .proceed⟩ = some ⟨s', _⟩ :=
    next_of_step hstep
  exact ⟨_, .single ⟨_, hnext, rfl⟩, rfl, mainPc_update_main _ _ _⟩

/-- `haltAll()` halts one consumer after the other, and returns. -/
lemma proceedsTo_halted {rest : List (EventProcessorInfo X)} (hpc : mainPc c = .halt rest) :
    ∃ c', ProceedsTo processor waitStrategy c c' ∧ mainPc c' = .halted := by
  induction rest generalizing c with
  | nil =>
    obtain ⟨c', hproceeds, -, hpc'⟩ := proceedsTo_of_lifecycleStep hpc rfl
    exact ⟨c', hproceeds, hpc'⟩
  | cons info rest ih =>
    obtain ⟨i, endOfChain⟩ := info
    cases i with
    | created k =>
      obtain ⟨c₁, hproceeds₁, -, hpc₁⟩ := proceedsTo_of_lifecycleStep hpc rfl
      obtain ⟨c₂, hproceeds₂, -, hpc₂⟩ := proceedsTo_of_lifecycleStep hpc₁ rfl
      obtain ⟨c', hproceeds', hpc'⟩ := ih hpc₂
      exact ⟨c', hproceeds₁.trans (hproceeds₂.trans hproceeds'), hpc'⟩
    | custom y =>
      obtain ⟨c₁, hproceeds₁, -, hpc₁⟩ := proceedsTo_of_lifecycleStep hpc rfl
      obtain ⟨c', hproceeds', hpc'⟩ := ih hpc₁
      exact ⟨c', hproceeds₁.trans hproceeds', hpc'⟩

/-- The next consumer of `hasBacklog()` has no backlog, or one is found. -/
lemma proceedsTo_checkRunning {cursor : Int} {info : EventProcessorInfo X}
    {rest : List (EventProcessorInfo X)} (hpc : mainPc c = .checkRunning cursor (info :: rest)) :
    ∃ c', ProceedsTo processor waitStrategy c c' ∧ (mainPc c' = .checkRunning cursor rest ∨
      mainPc c' = .hasBacklog ∧ c.shared.values info.eventprocessor < cursor) := by
  by_cases hrunning : (c.shared.isRunning info.eventprocessor && info.endOfChain) = true
  · obtain ⟨c₁, hproceeds₁, hshared₁, hpc₁⟩ := proceedsTo_of_lifecycleStep hpc (if_pos hrunning)
    by_cases hbehind : cursor > c₁.shared.values info.eventprocessor
    · obtain ⟨c', hproceeds', -, hpc'⟩ := proceedsTo_of_lifecycleStep hpc₁ (if_pos hbehind)
      refine ⟨c', hproceeds₁.trans hproceeds', Or.inr ⟨hpc', ?_⟩⟩
      rw [← hshared₁]
      exact hbehind
    · obtain ⟨c', hproceeds', -, hpc'⟩ := proceedsTo_of_lifecycleStep hpc₁ (if_neg hbehind)
      exact ⟨c', hproceeds₁.trans hproceeds', Or.inl hpc'⟩
  · obtain ⟨c', hproceeds, -, hpc'⟩ := proceedsTo_of_lifecycleStep hpc (if_neg hrunning)
    exact ⟨c', hproceeds, Or.inl hpc'⟩

/-- `hasBacklog()` ends, and `shutdown()` halts the consumers or looks again. -/
lemma proceedsTo_checked (h : OrderlyInv processor waitStrategy c) {cursor : Int}
    {rest : List (EventProcessorInfo X)} (hpc : mainPc c = .checkRunning cursor rest) :
    ∃ c', ProceedsTo processor waitStrategy c c' ∧ ((∃ infos, mainPc c' = .halt infos) ∨
      mainPc c' = .hasBacklog ∧ ∃ info ∈ rest, c.shared.values info.eventprocessor < cursor) := by
  induction rest generalizing c with
  | nil =>
    obtain ⟨c', hproceeds, -, hpc'⟩ := proceedsTo_of_lifecycleStep hpc rfl
    exact ⟨c', hproceeds, Or.inl ⟨_, hpc'⟩⟩
  | cons info rest ih =>
    obtain ⟨c₁, hproceeds₁, hpc₁ | ⟨hpc₁, hbehind⟩⟩ := proceedsTo_checkRunning hpc
    · obtain ⟨h₁, hsame⟩ := hproceeds₁.sameLog h
      obtain ⟨c', hproceeds', hhalt | ⟨hpc', info', hinfo', hbehind⟩⟩ := ih h₁ hpc₁
      · exact ⟨c', hproceeds₁.trans hproceeds', Or.inl hhalt⟩
      · rw [hsame.values] at hbehind
        exact ⟨c', hproceeds₁.trans hproceeds',
          Or.inr ⟨hpc', info', List.mem_cons_of_mem _ hinfo', hbehind⟩⟩
    · exact ⟨c₁, hproceeds₁, Or.inr ⟨hpc₁, info, List.mem_cons_self, hbehind⟩⟩

omit [DecidableEq H] [DecidableEq X] in
lemma Shared.CaughtUp.of_sameLog (h : s.CaughtUp last) (hsame : s.SameLog s') :
    s'.CaughtUp last := by
  refine ⟨hsame.started.trans h.started, ?_, ?_, ?_⟩
  · rw [hsame.sequencer]
    exact h.claimed
  · show Upto (InRanges s'.published) last
    rw [hsame.published]
    exact h.published
  · rw [hsame.consumerRepository, hsame.values]
    exact h.passed

/-- When every consumer has passed what was claimed, `hasBacklog()` finds none the next time that
it reads the cursor. -/
lemma Shared.CaughtUp.proceedsTo_halted (hcaught : c.shared.CaughtUp last)
    (h : OrderlyInv processor waitStrategy c) (hpc : (mainPc c).ShutsDown) :
    ∃ c', ProceedsTo processor waitStrategy c c' ∧ mainPc c' = .halted := by
  have hagain : ∀ c : Config H X P, OrderlyInv processor waitStrategy c →
      c.shared.CaughtUp last → mainPc c = .hasBacklog →
        ∃ c', ProceedsTo processor waitStrategy c c' ∧ mainPc c' = .halted := by
    intro c h hcaught hpc
    obtain ⟨c₁, hproceeds₁, hshared₁, hpc₁⟩ := proceedsTo_of_lifecycleStep hpc rfl
    obtain ⟨h₁, -⟩ := hproceeds₁.sameLog h
    obtain ⟨c₂, hproceeds₂, ⟨infos, hpc₂⟩ | ⟨-, info, hinfo, hbehind⟩⟩ :=
      proceedsTo_checked h₁ hpc₁
    · obtain ⟨c', hproceeds', hpc'⟩ := Dsl.proceedsTo_halted hpc₂
      exact ⟨c', hproceeds₁.trans (hproceeds₂.trans hproceeds'), hpc'⟩
    · rw [hshared₁] at hbehind
      have hcursor := Sequencer.getCursor_le_claimed h.visible.holds.shared.consistent
      have hpassed := hcaught.passed _ ⟨info, hinfo, rfl⟩
      rw [hcaught.claimed] at hcursor
      omega
  -- a look at the consumers that has begun may go by an old value of the cursor
  have hcheck : ∀ c : Config H X P, OrderlyInv processor waitStrategy c →
      c.shared.CaughtUp last → ∀ cursor rest, mainPc c = .checkRunning cursor rest →
        ∃ c', ProceedsTo processor waitStrategy c c' ∧ mainPc c' = .halted := by
    intro c h hcaught cursor rest hpc
    obtain ⟨c₁, hproceeds₁, ⟨infos, hpc₁⟩ | ⟨hpc₁, -⟩⟩ := proceedsTo_checked h hpc
    · obtain ⟨c', hproceeds', hpc'⟩ := Dsl.proceedsTo_halted hpc₁
      exact ⟨c', hproceeds₁.trans hproceeds', hpc'⟩
    · obtain ⟨h₁, hsame⟩ := hproceeds₁.sameLog h
      obtain ⟨c', hproceeds', hpc'⟩ := hagain c₁ h₁ (hcaught.of_sameLog hsame) hpc₁
      exact ⟨c', hproceeds₁.trans hproceeds', hpc'⟩
  cases hat : mainPc c with
  | hasBacklog => exact hagain c h hcaught hat
  | checkRunning cursor rest => exact hcheck c h hcaught cursor rest hat
  | checkSequence cursor info rest =>
    by_cases hbehind : cursor > c.shared.values info.eventprocessor
    · obtain ⟨c₁, hproceeds₁, hshared₁, hpc₁⟩ := proceedsTo_of_lifecycleStep hat (if_pos hbehind)
      obtain ⟨h₁, hsame⟩ := hproceeds₁.sameLog h
      obtain ⟨c', hproceeds', hpc'⟩ := hagain c₁ h₁ (hcaught.of_sameLog hsame) hpc₁
      exact ⟨c', hproceeds₁.trans hproceeds', hpc'⟩
    · obtain ⟨c₁, hproceeds₁, hshared₁, hpc₁⟩ := proceedsTo_of_lifecycleStep hat (if_neg hbehind)
      obtain ⟨h₁, hsame⟩ := hproceeds₁.sameLog h
      obtain ⟨c', hproceeds', hpc'⟩ := hcheck c₁ h₁ (hcaught.of_sameLog hsame) _ _ hpc₁
      exact ⟨c', hproceeds₁.trans hproceeds', hpc'⟩
  | client cl | starting rest | halt rest | alert k rest | halted =>
    rw [hat] at hpc
    exact hpc.elim

/-! ### The system drains -/

/-- Once `start()` has created the threads, the log drains and `shutdown()` returns. -/
lemma OrderlyInv.drains (h : OrderlyInv processor waitStrategy c)
    (hstarted : c.shared.disruptor.started = true) (hrunning : ¬ (mainPc c).PastBacklog)
    (hlayered : c.shared.disruptor.Layered rank)
    (hmax : c.shared.sequencer.claimed ≤ INT64_MAX)
    (hthreads : ∀ rest, mainPc c ≠ .starting rest) :
    ∃ c', ReachesBy (system H X P processor waitStrategy).next Calm c c' ∧
      OrderlyInv processor waitStrategy c' ∧
      c'.shared.CaughtUp c.shared.sequencer.claimed ∧
      c'.shared.disruptor.consumerRepository = c.shared.disruptor.consumerRepository ∧
      ((mainPc c).ShutsDown → mainPc c' = .halted) := by
  have hunderway : Underway processor waitStrategy c.shared.disruptor.consumerRepository rank
      c.shared.sequencer.claimed c := by
    refine ⟨h, hstarted, hrunning, rfl, ?_, hlayered, rfl⟩
    intro i hi
    refine (h.spawned.complete hstarted i hi).resolve_right ?_
    rintro ⟨rest, hpc, -⟩
    exact hthreads rest hpc
  obtain ⟨c₁, hflows, hcaught⟩ := hunderway.caughtUp hmax
  obtain ⟨hunderway₁, -, -, hshuts⟩ := hunderway.flowsTo hflows
  have hcalm₁ := hflows.mono fun _ => Flows.calm
  by_cases hpc : (mainPc c).ShutsDown
  · obtain ⟨c', hproceeds, hpc'⟩ :=
      hcaught.proceedsTo_halted hunderway₁.orderly ((hshuts hpc).symm ▸ hpc)
    obtain ⟨h', hsame⟩ := hproceeds.sameLog hunderway₁.orderly
    refine ⟨c', hcalm₁.trans (hproceeds.mono ?_), h', hcaught.of_sameLog hsame,
      hsame.consumerRepository.trans hunderway₁.consumerRepository, fun _ => hpc'⟩
    rintro ⟨c, a, c'⟩ rfl
    trivial
  · exact ⟨c₁, hcalm₁, hunderway₁.orderly, hcaught, hunderway₁.consumerRepository,
      fun hshutsDown => absurd hshutsDown hpc⟩

end Disruptor.Dsl
