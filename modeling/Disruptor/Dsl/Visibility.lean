import Disruptor.Dsl.Claims
import Disruptor.Dsl.DependencyOrder
import Disruptor.Dsl.Shutdown
import Disruptor.EventProcessor.Visibility

/-!
# Only published events are handled

Whatever a handler is given was published before, however the graph was built and the threads
interleave.
-/

namespace Disruptor.Dsl

open Disruptor.Core BatchEventProcessor

variable {H X P : Type} {s s' : Shared H X}

/-! ### What a processor has seen -/

/-- What the `k`-th processor has seen was published. -/
def Shared.Sees (waitStrategy : WaitStrategy) (s : Shared H X) (k : Nat)
    (pc : RunPc (ProcessorId X)) : Prop :=
  (s.disruptor.processors k).SeesOnly s.IsPublished ∧
    pc.Sees (s.barrier waitStrategy k) s.sequencer.available.isSome s.IsPublished s.values
      (s.startValues (.created k)) (s.disruptor.processors k)

lemma Shared.Sees.mono {waitStrategy : WaitStrategy} {k : Nat} {pc : RunPc (ProcessorId X)}
    (h : s.Sees waitStrategy k pc)
    (hdependent : s'.disruptor.dependentSequences = s.disruptor.dependentSequences)
    (hstart : s'.startValues = s.startValues) (hv : ∀ i, s.values i ≤ s'.values i)
    (hflags : s'.sequencer.available.isSome = s.sequencer.available.isSome)
    (hpublished : ∀ t, s.IsPublished t → s'.IsPublished t)
    (hsequence : (s'.disruptor.processors k).sequence = (s.disruptor.processors k).sequence)
    (hcalls : (s'.disruptor.processors k).calls = (s.disruptor.processors k).calls) :
    s'.Sees waitStrategy k pc := by
  have hbarrier : s'.barrier waitStrategy k = s.barrier waitStrategy k := by
    simp only [Shared.barrier, hdependent]
  refine ⟨h.1.mono hpublished hsequence hcalls, ?_⟩
  rw [hbarrier, hflags, hstart]
  exact h.2.mono hpublished (fun i _ => hv i) hcalls

/-! ### The threads of a state -/

/-- The producer that the main thread is. -/
def MainPc.asClient : MainPc X → Client X
  | .client c => c
  | _ => .idle

/-- Where the producer `p` is. -/
def producerClient (c : Config H X P) (p : P) : Client X := c.threads (.producer p)

/-- The producers: the main thread, and the others. -/
def clients (c : Config H X P) : Option P → Client X
  | none => (mainPc c).asClient
  | some p => producerClient c p

variable [DecidableEq H] [DecidableEq X] [DecidableEq P] {processor : Nat → BatchEventProcessor}
  {waitStrategy : WaitStrategy} {c c' : Config H X P}

/-- Only the thread that takes a step changes its place. -/
lemma threads_of_next {t u : Thread P X} {a : Action H X t}
    (hs : (system H X P processor waitStrategy).next c ⟨t, a⟩ = some c') (hu : u ≠ t) :
    c'.threads u = c.threads u := by
  obtain ⟨s', l', -, rfl⟩ := (ThreadPool.next_eq_some _).mp hs
  exact Function.update_of_ne hu _ _

lemma clients_of_next_main {a : MainAction H X}
    (hs : (system H X P processor waitStrategy).next c ⟨.main, a⟩ = some c') :
    clients c' = Function.update (clients c) none (mainPc c').asClient := by
  funext p
  cases p with
  | none => simp [clients]
  | some p =>
    have hsame : producerClient c' p = producerClient c p := threads_of_next hs (by simp)
    simp [clients, hsame]

lemma clients_of_next_producer {p : P} {a : ClientAction}
    (hs : (system H X P processor waitStrategy).next c ⟨.producer p, a⟩ = some c') :
    clients c' = Function.update (clients c) (some p) (producerClient c' p) := by
  have hmain : mainPc c' = mainPc c := congrArg Main.pc (threads_of_next hs (by simp))
  funext b
  by_cases hb : b = some p
  · subst hb
    simp [clients]
  · rw [Function.update_of_ne hb]
    cases b with
    | none => simp [clients, hmain]
    | some b =>
      have hne : (.producer b : Thread P X) ≠ .producer p :=
        fun heq => hb (congrArg some (Thread.producer.inj heq))
      exact threads_of_next hs hne

lemma clients_of_next_consumer {t : Thread P X} {a : Action H X t} (hmain : t ≠ .main)
    (hproducer : ∀ p, t ≠ .producer p)
    (hs : (system H X P processor waitStrategy).next c ⟨t, a⟩ = some c') :
    clients c' = clients c := by
  funext p
  cases p with
  | none => exact congrArg (fun l => (Main.pc l).asClient) (threads_of_next hs hmain.symm)
  | some p => exact threads_of_next hs (hproducer p).symm

/-! ### Building -/

/-- What building leaves of the sequencer, and of the sequences. -/
structure Built (d d' : Disruptor H X) : Prop where
  claimed : d'.sequencer.claimed = d.sequencer.claimed
  bufferSize : d'.sequencer.bufferSize = d.sequencer.bufferSize
  getCursor : d'.sequencer.getCursor = d.sequencer.getCursor
  available : d'.sequencer.available.isSome = d.sequencer.available.isSome
  tells : ∀ published, d.sequencer.Tells published → d'.sequencer.Tells published
  values : ∀ i, d'.values i = d.values i ∨ d'.values i = d.sequencer.getCursor

omit [DecidableEq P] in
lemma kept_built (d : Disruptor H X) : Kept (Built d) where
  createOne := by
    intro d' barrierSequences c h
    cases c <;> exact ⟨h.claimed, h.bufferSize, h.getCursor, h.available, h.tells, h.values⟩
  addGatingSequences := by
    intro d' sequences h
    have hsame : (d'.addGatingSequences sequences).sequencer =
        (d'.sequencer.addGatingSequences d'.values (sequences.map some)).2 := rfl
    refine ⟨?_, ?_, ?_, ?_, ?_, ?_⟩
    · rw [hsame, ← h.claimed]
      cases d'.sequencer <;> rfl
    · rw [hsame, ← h.bufferSize]
      cases d'.sequencer <;> rfl
    · rw [hsame, ← h.getCursor]
      exact Sequencer.addGatingSequences_getCursor _ _ _
    · rw [hsame, ← h.available]
      cases d'.sequencer <;> simp [Sequencer.addGatingSequences, Sequencer.available]
    · intro published hd
      rw [hsame]
      exact (h.tells published hd).addGatingSequences _ _
    · intro i
      rw [Disruptor.addGatingSequences_values]
      split_ifs
      · exact Or.inr h.getCursor
      · exact h.values i
  removeGatingSequence := by
    intro d' sequence h
    have hsame : (d'.removeGatingSequence sequence).sequencer =
        (d'.sequencer.removeGatingSequence sequence).2 := rfl
    refine ⟨?_, ?_, ?_, ?_, ?_, h.values⟩
    · rw [hsame, ← h.claimed]
      cases d'.sequencer <;> rfl
    · rw [hsame, ← h.bufferSize]
      cases d'.sequencer <;> rfl
    · rw [hsame, ← h.getCursor]
      exact Sequencer.removeGatingSequence_getCursor _ _
    · rw [hsame, ← h.available]
      cases d'.sequencer <;> simp [Sequencer.removeGatingSequence, Sequencer.available]
    · intro published hd
      rw [hsame]
      exact (h.tells published hd).removeGatingSequence _
  repository := fun d' r h => ⟨h.claimed, h.bufferSize, h.getCursor, h.available, h.tells, h.values⟩

/-! ### The invariant -/

/-- Some consumer gates the ring when `start()` is called, the translator of a single event returns,
and the user's own processors pass nothing that is not published. -/
structure Regular (x : Transition (Config H X P) (Label H X P)) : Prop where
  start : x.act = ⟨.main, .start⟩ → ∃ i, some i ∈ x.pre.shared.sequencer.gatingList
  main : ∀ a, x.act = ⟨.main, .client a⟩ → a.Returns (clients x.pre none)
  producer : ∀ p a, x.act = ⟨.producer p, a⟩ → a.Returns (producerClient x.pre p)
  custom : ∀ y value, x.act = ⟨.custom y, .advance value⟩ → Upto x.pre.shared.IsPublished value

/-- The claims are accounted for, and no sequence of a consumer has passed one that is not
published. -/
structure VisibleInv (processor : Nat → BatchEventProcessor) (waitStrategy : WaitStrategy)
    (c : Config H X P) : Prop where
  holds : (outline H X P processor waitStrategy).Holds c
  accounts : c.shared.Accounts (clients c)
  gated : c.shared.disruptor.started = true →
    ∃ i, some i ∈ c.shared.sequencer.gatingList
  values_ge : ∀ i, INITIAL_VALUE ≤ c.shared.values i
  values : ∀ i, Upto c.shared.IsPublished (c.shared.values i)
  sees : ∀ k, c.shared.Sees waitStrategy k (processorPc c k)

omit [DecidableEq P] in
/-- Before `start()`, and over a single-producer sequencer, only the main thread publishes. -/
lemma producerClient_idle (h : (outline H X P processor waitStrategy).Holds c)
    (hwhen : c.shared.disruptor.started = false ∨ ∃ q, c.shared.sequencer = .single q) (p : P) :
    producerClient c p = .idle := by
  rcases h.threads (.producer p) with hidle | ⟨hstarted, ⟨m, hm⟩, -⟩
  · exact hidle
  · rcases hwhen with hf | ⟨q, hq⟩
    · exact absurd (hf.symm.trans hstarted) (by simp)
    · cases hq.symm.trans hm

omit [DecidableEq P] in
/-- The thread of a processor has not begun before `start()`. -/
lemma processorPc_of_not_started (h : (outline H X P processor waitStrategy).Holds c)
    (hstarted : c.shared.disruptor.started = false) (k : Nat) :
    processorPc c k = .enterRun :=
  (h.threads (.processor k)).1 hstarted

/-- A step of a producer. -/
lemma VisibleInv.clientStep (h : VisibleInv processor waitStrategy c)
    (hnext : (outline H X P processor waitStrategy).Holds c') {a : Option P} {ca : ClientAction}
    {cl' : Client X} (hs : Dsl.clientStep c.shared (clients c a) ca = some (c'.shared, cl'))
    (hholds : (clients c a).Holds c.shared) (hreturns : ca.Returns (clients c a))
    (hothers : c.shared.disruptor.started = false ∨ (∃ q, c.shared.sequencer = .single q) →
      ∀ b, b ≠ a → clients c b = .idle)
    (hclients : clients c' = Function.update (clients c) a cl')
    (hpcs : ∀ k, processorPc c' k = processorPc c k) : VisibleInv processor waitStrategy c' := by
  have hstep := h.holds.shared.clientStep hholds hs
  have hmove := h.holds.shared.clientMove hholds (h.accounts.fits a) hreturns hs
  have hpublished := fun t => hmove.published_mono (t := t)
  have hflags := hmove.available_isSome
  have hlist := hstep.moves.gatingList
  obtain ⟨q, granted, published, heq⟩ := hstep.eq
  have hvalues : c'.shared.values = c.shared.values := by
    rw [heq]
    rfl
  have hprocessors : c'.shared.disruptor.processors = c.shared.disruptor.processors := by
    rw [heq]
    rfl
  have hstarted : c'.shared.disruptor.started = c.shared.disruptor.started := by
    rw [heq]
    rfl
  refine ⟨hnext, ?_, ?_, ?_, ?_, ?_⟩
  · rw [hclients]
    refine h.accounts.clientStep hstep hmove (fun q hq => hothers (Or.inr ⟨q, hq⟩)) ?_ h.values
    cases hs : c.shared.disruptor.started with
    | false => exact Or.inl (hothers (Or.inl hs))
    | true => exact Or.inr (h.gated hs)
  · rw [hstarted, hlist]
    exact h.gated
  · rw [hvalues]
    exact h.values_ge
  · intro i
    rw [hvalues]
    exact (h.values i).mono le_rfl hpublished
  · intro k
    rw [hpcs]
    refine (h.sees k).mono ?_ ?_ ?_ hflags hpublished ?_ ?_
    · rw [heq]
      rfl
    · rw [heq]
      rfl
    · exact fun i => (congrFun hvalues i).ge
    · rw [hprocessors]
    · rw [hprocessors]

omit [DecidableEq H] [DecidableEq X] in
/-- What building leaves of the accounts. -/
lemma Shared.Accounts.built {A : Type} {clients : A → Client X} (h : s.Accounts clients)
    {d : Disruptor H X} (hd : Built s.disruptor d)
    (declared : ProcessorId X → List (ProcessorId X)) :
    ({ s with disruptor := d, declared := declared } : Shared H X).Accounts clients := by
  have hmulti : ∀ m, d.sequencer = .multi m → ∃ m', s.sequencer = .multi m' := by
    intro m hm
    have havailable := hd.available
    cases hq : s.sequencer with
    | single q =>
      rw [hm, show s.disruptor.sequencer = .single q from hq] at havailable
      cases havailable
    | multi m' => exact ⟨m', rfl⟩
  refine ⟨?_, ?_, ?_, ?_, h.published_granted, ?_, hd.tells _ h.tells⟩
  · exact h.cursor_ge.trans hd.getCursor.ge
  · exact h.balanced.step (.keep hd.claimed (fun _ => Iff.rfl) fun _ _ => Iff.rfl)
  · exact fun a => (h.fits a).mono hd.bufferSize hmulti fun _ => id
  · exact fun range hrange => (h.granted_le range hrange).trans hd.claimed.ge
  · show Sequencer.Roomy d.sequencer.bufferSize _ _
    rw [hd.bufferSize]
    exact h.roomy

omit [DecidableEq H] [DecidableEq X] in
/-- When nobody holds a claim, everything up to the cursor is published. -/
lemma Shared.Accounts.upto_cursor {A : Type} {clients : A → Client X} (h : s.Accounts clients)
    (hinv : s.Inv) (hidle : ∀ a, clients a = .idle) : Upto s.IsPublished s.sequencer.getCursor := by
  refine (h.balanced.upto (Sequencer.getCursor_le_claimed hinv.consistent) ?_).mono le_rfl
    fun _ => id
  intro a t hcovers
  simp [Shared.ledger, hidle a, Client.range] at hcovers

omit [DecidableEq P] in
lemma clients_idle (h : (outline H X P processor waitStrategy).Holds c)
    (hstarted : c.shared.disruptor.started = false) (hpc : mainPc c = .client .idle)
    (a : Option P) : clients c a = .idle := by
  cases a with
  | none => simp [clients, hpc, MainPc.asClient]
  | some p => exact producerClient_idle h (Or.inl hstarted) p

omit [DecidableEq P] in
/-- A call that builds the graph. -/
lemma VisibleInv.buildStep (h : VisibleInv processor waitStrategy c)
    (hnext : (outline H X P processor waitStrategy).Holds c') {call : BuildCall H X} {l' : Main X}
    (hs : Dsl.buildStep c.shared (c.threads .main) call = some (c'.shared, l'))
    (hpc : mainPc c = .client .idle) (hclients : clients c' = clients c)
    (hpcs : ∀ k, processorPc c' k = processorPc c k) : VisibleInv processor waitStrategy c' := by
  have hcalls := (h.holds.shared.buildStep hs).2.2.2
  obtain ⟨hstarted, -, ⟨heq, -⟩ | ⟨d, group, hperform, heq⟩⟩ := buildStep_eq hs
  · refine ⟨hnext, ?_, ?_, ?_, ?_, ?_⟩
    · rw [hclients, heq]
      exact h.accounts
    · rw [heq]
      exact h.gated
    · rw [heq]
      exact h.values_ge
    · rw [heq]
      exact h.values
    · intro k
      rw [hpcs, heq]
      exact h.sees k
  · have hd : Built c.shared.disruptor d :=
      (kept_built _).perform ⟨rfl, rfl, rfl, rfl, fun _ => id, fun _ => Or.inl rfl⟩ hperform
    have hupto := h.accounts.upto_cursor h.holds.shared (clients_idle h.holds hstarted hpc)
    have hstarted' := (h.holds.shared.buildStep hs).2.1
    have hvalues : ∀ i, Upto c.shared.IsPublished (d.values i) := by
      intro i
      rcases hd.values i with hsame | hcursor
      · rw [hsame]
        exact h.values i
      · rw [hcursor]
        exact hupto
    refine ⟨hnext, ?_, ?_, ?_, ?_, ?_⟩
    · rw [hclients, heq]
      exact h.accounts.built hd _
    · exact fun ht => absurd (hstarted'.symm.trans ht) (by simp)
    · intro i
      rw [heq]
      show _ ≤ d.values i
      rcases hd.values i with hsame | hcursor
      · rw [hsame]
        exact h.values_ge i
      · rw [hcursor]
        exact h.accounts.cursor_ge
    · rw [heq]
      exact hvalues
    · intro k
      rw [hpcs, processorPc_of_not_started h.holds hstarted, heq]
      rw [heq] at hcalls
      refine ⟨⟨hvalues (.created k), ?_⟩, trivial⟩
      show ∀ t endOfBatch start thrown, _ ∈ (d.processors k).calls → _
      rw [show (d.processors k).calls = _ from hcalls k]
      exact (h.sees k).1.onEvent

omit [DecidableEq H] [DecidableEq X] in
/-- `start()` and `shutdown()` leave the sequencer and the graph alone. -/
lemma lifecycleStep_keeps {pc pc' : MainPc X} (hs : lifecycleStep s pc = some (s', pc')) :
    s'.sequencer = s.sequencer ∧ s'.startValues = s.startValues ∧
      s'.disruptor.dependentSequences = s.disruptor.dependentSequences ∧
      s'.disruptor.consumerRepository = s.disruptor.consumerRepository := by
  unfold lifecycleStep at hs
  split at hs
  case h_5 | h_6 =>
    split_ifs at hs <;> obtain ⟨rfl, -⟩ := Prod.mk.inj (Option.some.inj hs) <;>
      exact ⟨rfl, rfl, rfl, rfl⟩
  case h_8 =>
    split at hs <;> obtain ⟨rfl, -⟩ := Prod.mk.inj (Option.some.inj hs) <;>
      exact ⟨rfl, rfl, rfl, rfl⟩
  case h_10 => cases hs
  all_goals
    obtain ⟨rfl, -⟩ := Prod.mk.inj (Option.some.inj hs)
    exact ⟨rfl, rfl, rfl, rfl⟩

omit [DecidableEq P] in
/-- A step that leaves the sequencer and the sequences as they are. -/
lemma VisibleInv.of_same (h : VisibleInv processor waitStrategy c)
    (hnext : (outline H X P processor waitStrategy).Holds c')
    (hsequencer : c'.shared.sequencer = c.shared.sequencer)
    (hgranted : c'.shared.granted = c.shared.granted)
    (hpublished : c'.shared.published = c.shared.published)
    (hvalues : c'.shared.values = c.shared.values)
    (hstarted : c'.shared.disruptor.started = true → c.shared.disruptor.started = true ∨
      ∃ i, some i ∈ c.shared.sequencer.gatingList)
    (hclients : clients c' = clients c)
    (hsees : ∀ k, c'.shared.Sees waitStrategy k (processorPc c' k)) :
    VisibleInv processor waitStrategy c' := by
  have hsame : c'.shared.IsPublished = c.shared.IsPublished := congrArg InRanges hpublished
  refine ⟨hnext, ?_, ?_, ?_, ?_, hsees⟩
  · have hledger : c'.shared.ledger (clients c) = c.shared.ledger (clients c) := by
      simp only [Shared.ledger, hsequencer, hsame]
    have hdecided : c'.shared.isPublished = c.shared.isPublished := by
      funext t
      simp only [Shared.isPublished, hpublished]
    rw [hclients]
    refine ⟨?_, ?_, ?_, ?_, ?_, ?_, ?_⟩
    · rw [hsequencer]
      exact h.accounts.cursor_ge
    · rw [hledger]
      exact h.accounts.balanced
    · intro a
      refine (h.accounts.fits a).mono (congrArg Sequencer.bufferSize hsequencer) ?_ ?_
      · exact fun m hm => ⟨m, hsequencer.symm.trans hm⟩
      · rw [hgranted]
        exact fun _ => id
    · rw [hgranted, hsequencer]
      exact h.accounts.granted_le
    · rw [hgranted, hsame]
      exact h.accounts.published_granted
    · rw [hgranted, hsequencer, hdecided]
      exact h.accounts.roomy
    · rw [hsequencer, hdecided]
      exact h.accounts.tells
  · intro ht
    rw [hsequencer]
    exact (hstarted ht).elim h.gated id
  · rw [hvalues]
    exact h.values_ge
  · rw [hvalues, hsame]
    exact h.values

/-- A step of the main thread. -/
lemma VisibleInv.mainStep (h : VisibleInv processor waitStrategy c) {a : MainAction H X}
    (hs : (system H X P processor waitStrategy).next c ⟨.main, a⟩ = some c')
    (hregular : Regular ⟨c, ⟨.main, a⟩, c'⟩) : VisibleInv processor waitStrategy c' := by
  have hnext := h.holds.next hs
  have hclients := clients_of_next_main hs
  have hpcs : ∀ k, processorPc c' k = processorPc c k := fun k => threads_of_next hs (by simp)
  have hsame : (mainPc c').asClient = (mainPc c).asClient → clients c' = clients c := by
    intro heq
    rw [hclients, heq]
    exact Function.update_eq_self none (clients c)
  have hholds : MainPc.Holds c.shared (mainPc c) := h.holds.threads .main
  rcases main_next_cases hs with ⟨call, l', rfl, hpc, hpc', hbuild⟩ |
    ⟨ca, cl, cl', rfl, hpc, hpc', hclient⟩ | ⟨rfl, heq, hpc'⟩ | ⟨rfl, heq, hpc'⟩ |
    ⟨rfl, hlifecycle⟩
  · exact h.buildStep hnext hbuild hpc (hsame (by rw [hpc, hpc'])) hpcs
  · have hmain : clients c none = cl := by simp [clients, hpc, MainPc.asClient]
    rw [hpc] at hholds
    rw [hpc'] at hclients
    refine h.clientStep hnext (a := none) ?_ ?_ (hregular.main ca rfl) ?_ hclients hpcs
    · rw [hmain]
      exact hclient
    · rw [hmain]
      exact hholds
    · intro hwhen b hb
      cases b with
      | none => exact absurd rfl hb
      | some p => exact producerClient_idle h.holds hwhen p
  · -- `start()`
    have hidle := main_next_idle (Or.inl rfl) hs
    have hasClient : (mainPc c').asClient = (mainPc c).asClient := by
      rw [hidle, hpc']
      unfold Shared.start
      split_ifs <;> rfl
    obtain ⟨hsequencer, hgranted, hpublished, hvalues⟩ :
        c'.shared.sequencer = c.shared.sequencer ∧ c'.shared.granted = c.shared.granted ∧
          c'.shared.published = c.shared.published ∧ c'.shared.values = c.shared.values := by
      rw [heq]
      unfold Shared.start
      split_ifs <;> exact ⟨rfl, rfl, rfl, rfl⟩
    refine h.of_same hnext hsequencer hgranted hpublished hvalues
      (fun _ => Or.inr (hregular.start rfl)) (hsame hasClient) ?_
    intro k
    rw [hpcs, heq]
    unfold Shared.start
    split_ifs with hstarted
    · exact h.sees k
    · rw [processorPc_of_not_started h.holds (by simpa using hstarted)]
      exact ⟨(h.sees k).1, trivial⟩
  · -- `shutdown()`
    have hidle := main_next_idle (Or.inr rfl) hs
    refine h.of_same hnext ?_ ?_ ?_ ?_ ?_ (hsame (by rw [hidle, hpc']; rfl)) ?_
    · rw [heq]
      rfl
    · rw [heq]
    · rw [heq]
    · rw [heq]
      rfl
    · rw [heq]
      exact Or.inl
    · intro k
      rw [hpcs, heq]
      exact h.sees k
  · have hstep := (h.holds.shared.lifecycleStep hholds hlifecycle).1
    obtain ⟨hsequencer, hstart, hdependent, -⟩ := lifecycleStep_keeps hlifecycle
    have hasClient : (mainPc c').asClient = (mainPc c).asClient := by
      cases hpc : mainPc c with
      | client cl =>
        rw [hpc] at hlifecycle
        cases hlifecycle
      | _ =>
        cases hpc' : mainPc c' with
        | client cl =>
          rw [hpc'] at hlifecycle
          rw [lifecycleStep_client hlifecycle]
          rfl
        | _ => rfl
    refine h.of_same hnext hsequencer hstep.granted hstep.published hstep.values ?_
      (hsame hasClient) ?_
    · rw [hstep.started]
      exact Or.inl
    · intro k
      rw [hpcs]
      refine (h.sees k).mono hdependent hstart ?_ (by rw [hsequencer]) ?_ (hstep.processors k).1
        (hstep.processors k).2
      · exact fun i => (congrFun hstep.values i).ge
      · intro t ht
        show InRanges c'.shared.published t
        rw [hstep.published]
        exact ht

/-- A step of the thread of a processor. -/
lemma VisibleInv.processorStep (h : VisibleInv processor waitStrategy c) {k : Nat}
    {a : RunAction}
    (hs : (system H X P processor waitStrategy).next c ⟨.processor k, a⟩ = some c') :
    VisibleInv processor waitStrategy c' := by
  have hnext := h.holds.next hs
  have hclients := clients_of_next_consumer (by simp) (by simp) hs
  obtain ⟨s', pc', hstep, rfl⟩ := (ThreadPool.next_eq_some _).mp hs
  obtain ⟨hspawned, f, hrun, rfl⟩ := processorStep_eq hstep
  have hstarted := h.holds.shared.started_of_spawned hspawned
  obtain ⟨hreached, hknows⟩ := (h.holds.threads (.processor k)).2 hstarted
  have hle := (runStep_knows hreached hknows hrun).2.2
  obtain ⟨hf, hsees⟩ := h.sees k
  have hseen : ∀ t, c.shared.isPublished t = true → c.shared.IsPublished t :=
    fun t => Shared.isPublished_eq_true.mp
  obtain ⟨hf', hsees'⟩ := runStep_sees hf ((h.values (.created k)).mono hreached.start_le
    fun _ => id) (h.values_ge (.created k)) hknows hsees rfl
    (fun hflags => (h.accounts.tells.upto_cursor hflags).mono le_rfl hseen)
    (fun i _ => h.values i) (by
      intro isAvailable t havailable ht hbelow hset
      refine hseen t (h.accounts.tells.published_of_isAvailable havailable ht ?_ ?_ hset)
      · exact hbelow.mono le_rfl fun _ => Shared.isPublished_eq_true.mpr
      · intro hnot u hu
        exact h.accounts.lt_of_published ht (Shared.isPublished_eq_false.mp hnot) (hseen u hu))
    hrun
  have hvalues : ∀ i, c.shared.values i ≤ (c.shared.setProcessor k f).values i := by
    intro i
    by_cases hi : i = .created k
    · rw [hi, values_setProcessor_self]
      exact hle
    · exact (values_setProcessor_of_ne hi).ge
  refine ⟨hnext, ?_, h.gated, fun i => (h.values_ge i).trans (hvalues i), ?_, ?_⟩
  · rw [hclients]
    exact ⟨h.accounts.cursor_ge, h.accounts.balanced, h.accounts.fits, h.accounts.granted_le,
      h.accounts.published_granted, h.accounts.roomy, h.accounts.tells⟩
  · intro i
    show Upto c.shared.IsPublished ((c.shared.setProcessor k f).values i)
    by_cases hi : i = .created k
    · rw [hi, values_setProcessor_self]
      exact hf'.sequence
    · rw [values_setProcessor_of_ne hi]
      exact h.values i
  · intro j
    by_cases hj : j = k
    · subst hj
      rw [processorPc_update_self]
      have hself : (c.shared.setProcessor j f).disruptor.processors j = f := by
        simp [Shared.setProcessor]
      refine ⟨?_, ?_⟩
      · show ((c.shared.setProcessor j f).disruptor.processors j).SeesOnly _
        rw [hself]
        exact hf'
      · show RunPc.Sees _ _ _ _ _ ((c.shared.setProcessor j f).disruptor.processors j) pc'
        rw [hself]
        exact hsees'.mono (fun _ => id) (fun i _ => hvalues i) rfl
    · have hne : (.processor j : Thread P X) ≠ .processor k := by simpa using hj
      have hsame : (c.shared.setProcessor k f).disruptor.processors j =
          c.shared.disruptor.processors j := by
        simp [Shared.setProcessor, Function.update_of_ne hj]
      rw [processorPc_update_of_ne hne]
      refine (h.sees j).mono rfl rfl hvalues rfl (fun _ => id) ?_ ?_
      · rw [hsame]
      · rw [hsame]

/-- A step of the user's own processors. -/
lemma VisibleInv.customStep (h : VisibleInv processor waitStrategy c) {y : X} {a : CustomAction}
    (hs : (system H X P processor waitStrategy).next c ⟨.custom y, a⟩ = some c')
    (hregular : Regular ⟨c, ⟨.custom y, a⟩, c'⟩) : VisibleInv processor waitStrategy c' := by
  have hnext := h.holds.next hs
  have hclients := clients_of_next_consumer (by simp) (by simp) hs
  have hpcs : ∀ k, processorPc c' k = processorPc c k := fun k => threads_of_next hs (by simp)
  obtain ⟨s', l', hstep, rfl⟩ := (ThreadPool.next_eq_some _).mp hs
  simp only [system, Option.map_eq_some_iff] at hstep
  obtain ⟨s₁, hcustom, heq⟩ := hstep
  obtain ⟨rfl, -⟩ := Prod.mk.inj heq
  cases a with
  | advance value =>
    have hupto := hregular.custom y value rfl
    simp only [Dsl.customStep] at hcustom
    split_ifs at hcustom with hcond
    obtain ⟨-, hle, -⟩ := hcond
    obtain rfl := Option.some.inj hcustom
    have hvalues : ∀ i, c.shared.values i ≤ (c.shared.setCustom y value).values i := by
      intro i
      by_cases hi : i = .custom y
      · rw [hi, values_setCustom_self]
        exact hle
      · exact (values_setCustom_of_ne hi).ge
    refine ⟨hnext, ?_, h.gated, fun i => (h.values_ge i).trans (hvalues i), ?_, ?_⟩
    · rw [hclients]
      exact ⟨h.accounts.cursor_ge, h.accounts.balanced, h.accounts.fits, h.accounts.granted_le,
        h.accounts.published_granted, h.accounts.roomy, h.accounts.tells⟩
    · intro i
      show Upto c.shared.IsPublished ((c.shared.setCustom y value).values i)
      by_cases hi : i = .custom y
      · rw [hi, values_setCustom_self]
        exact hupto
      · rw [values_setCustom_of_ne hi]
        exact h.values i
    · intro k
      rw [hpcs]
      exact (h.sees k).mono rfl rfl hvalues rfl (fun _ => id) rfl rfl
  | setRunning running =>
    simp only [Dsl.customStep] at hcustom
    split_ifs at hcustom
    obtain rfl := Option.some.inj hcustom
    refine h.of_same hnext rfl rfl rfl rfl Or.inl hclients ?_
    intro k
    rw [hpcs]
    exact h.sees k

lemma VisibleInv.next (h : VisibleInv processor waitStrategy c) {a : Label H X P}
    (hs : (system H X P processor waitStrategy).next c a = some c')
    (hregular : Regular ⟨c, a, c'⟩) : VisibleInv processor waitStrategy c' := by
  obtain ⟨t, a⟩ := a
  cases t with
  | main => exact h.mainStep hs hregular
  | producer p =>
    have hclients := clients_of_next_producer hs
    have hpcs : ∀ k, processorPc c' k = processorPc c k := fun k => threads_of_next hs (by simp)
    have hnext := h.holds.next hs
    obtain ⟨s', l', hstep, rfl⟩ := (ThreadPool.next_eq_some _).mp hs
    obtain ⟨⟨m, hm⟩, hstarted, hclient⟩ := producerStep_eq hstep
    have hholds : (producerClient c p).Holds c.shared := by
      rcases h.holds.threads (.producer p) with hidle | ⟨-, -, hholds⟩
      · rw [show producerClient c p = .idle from hidle]
        trivial
      · exact hholds
    have hself : producerClient (H := H) ⟨s', Function.update c.threads (.producer p) l'⟩ p = l' :=
      Function.update_self _ _ _
    rw [hself] at hclients
    refine h.clientStep hnext (a := some p) hclient hholds (hregular.producer p a rfl) ?_ hclients
      hpcs
    rintro (hf | ⟨q, hq⟩)
    · exact absurd (hf.symm.trans hstarted) (by simp)
    · cases hq.symm.trans hm
  | processor k => exact h.processorStep hs
  | custom y => exact h.customStep hs hregular

omit [DecidableEq P] in
lemma visibleInv_initial (producerType : ProducerType) (b : BufferSize) :
    VisibleInv processor waitStrategy (initial H X P producerType b) where
  holds := initial_holds producerType b
  accounts := by
    refine ⟨?_, ?_, ?_, ?_, ?_, ?_, ?_⟩
    · cases producerType <;> exact le_rfl
    · have hclaimed : (initial H X P producerType b).shared.sequencer.claimed = -1 := by
        cases producerType <;> rfl
      refine Ledger.balanced_empty.step (.keep hclaimed (by simp [Shared.ledger, initial,
        Shared.IsPublished, Ledger.empty]) ?_)
      intro a t
      cases a <;> simp [Shared.ledger, initial, clients, mainPc, MainPc.asClient, producerClient,
        Client.range, Ledger.empty]
    · intro a
      cases a <;> trivial
    · rintro range ⟨⟩
    · rintro t ⟨range, ⟨⟩, -⟩
    · rintro u - - range ⟨⟩
    · exact Sequencer.tells_initial producerType b
  gated := by rintro ⟨⟩
  values_ge := by
    intro i
    cases i <;> exact le_rfl
  values := by
    intro i t ht ht'
    have hvalue : (initial H X P producerType b).shared.values i = -1 := by
      cases i <;> rfl
    omega
  sees := by
    intro k
    refine ⟨⟨?_, by rintro t e start thrown ⟨⟩⟩, trivial⟩
    intro t ht ht'
    have hvalue : ((initial H X P producerType b).shared.disruptor.processors k).sequence = -1 :=
      rfl
    omega

end Disruptor.Dsl
