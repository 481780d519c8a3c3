import Disruptor.Barrier.WakeUp

/-!
# `TimeoutBlockingWaitStrategy` and `LiteTimeoutBlockingWaitStrategy`

Both park in a timed wait. They signal as `BlockingWaitStrategy` and `LiteBlockingWaitStrategy` do,
but a consumer of the lite one does not look at the cursor again after it has set `signalNeeded_`.
-/

namespace Disruptor.Signalling

open Disruptor.Core

variable {C S : Type}

/-- The strategies that park with a timeout. -/
inductive TimedStrategy where
  | TimeoutBlocking
  | LiteTimeoutBlocking
  deriving DecidableEq, Repr

namespace TimedStrategy

/-- The strategy with the same `signalAllWhenBlocking()`. -/
def untimed : TimedStrategy → Strategy
  | .TimeoutBlocking => .Blocking
  | .LiteTimeoutBlocking => .LiteBlocking

/-- The start of the body of the loop. -/
def body : TimedStrategy → WaitPc
  | .TimeoutBlocking => .checkAlert
  | .LiteTimeoutBlocking => .storeSignalNeeded

end TimedStrategy

inductive TimedConsumerAction where
  | call (sequence : Int)
  | proceed
  /-- The time of the wait is over, or the wake-up is spurious. -/
  | wakeUp
  /-- The wait has ended, and no time is left. -/
  | timeout
  /-- `dependentSequence.get()` returns. -/
  | dependent (value : Int)

abbrev TimedAction (C S : Type) : Thread C S → Type
  | .consumer _ => TimedConsumerAction
  | .signaller _ => SignalAction C

section

variable [DecidableEq C] [DecidableEq S]

/-- One step of a consumer. A call of `waitFor` that ends leaves it idle. -/
def timedConsumerStep (strategy : TimedStrategy) (c : C) (s : Shared C S) :
    Option (Int × WaitPc) → TimedConsumerAction → Option (Shared C S × Option (Int × WaitPc))
  | none, .call sequence => some (s, some (sequence, .enter))
  | some (sequence, .enter), .proceed =>
    some (s, if s.alerted c then none else some (sequence, .readCursor))
  | some (sequence, .readCursor), .proceed =>
    some (s, some (sequence, if s.cursor < sequence then .lock else .readDependent))
  | some (sequence, .lock), .proceed =>
    (s.monitor.lock (.consumer c)).map fun m =>
      ({ s with monitor := m }, some (sequence, .loopCondition))
  | some (sequence, .loopCondition), .proceed =>
    some (s, some (sequence, if s.cursor < sequence then strategy.body else .unlock false))
  | some (sequence, .storeSignalNeeded), .proceed =>
    some ({ s with signalNeeded := true }, some (sequence, .checkAlert))
  | some (sequence, .checkAlert), .proceed =>
    some (s, some (sequence, if s.alerted c then .unlock true else .wait))
  | some (sequence, .wait), .proceed =>
    some ({ s with monitor := s.monitor.park (.consumer c) }, some (sequence, .waiting))
  | some (sequence, .waiting), .wakeUp =>
    some ({ s with monitor := s.monitor.wake (.consumer c) }, some (sequence, .waiting))
  | some (sequence, .waiting), .proceed =>
    if s.monitor.parked (.consumer c) then none
    else
      (s.monitor.lock (.consumer c)).map fun m =>
        ({ s with monitor := m }, some (sequence, .loopCondition))
  | some (sequence, .waiting), .timeout =>
    if s.monitor.parked (.consumer c) then none
    else
      (s.monitor.lock (.consumer c)).map fun m =>
        ({ s with monitor := m }, some (sequence, .unlock true))
  | some (sequence, .unlock thrown), .proceed =>
    some ({ s with monitor := s.monitor.unlock },
      if thrown then none else some (sequence, .readDependent))
  | some (sequence, .readDependent), .dependent availableSequence =>
    some (s, if availableSequence < sequence then some (sequence, .dependentBehind) else none)
  | some (sequence, .dependentBehind), .proceed =>
    some (s, if s.alerted c then none else some (sequence, .readDependent))
  | _, _ => none

/-- Any number of consumers, publishers and alerters. -/
def timedPool (C S : Type) [DecidableEq C] [DecidableEq S] (strategy : TimedStrategy) :
    ThreadPool (Thread C S) (Shared C S) (Local C S) (TimedAction C S) where
  step
    | .consumer c => timedConsumerStep strategy c
    | .signaller t => signallerStep strategy.untimed t

end

/-! ### Parking in time -/

/-- Some thread has made an update, or has taken `signalNeeded_`, and will notify. -/
def WillNotify (strategy : TimedStrategy) (cfg : Config C S) : Prop :=
  ∃ t : S, (cfg.threads (.signaller t)).Notifies ∨
    (cfg.threads (.signaller t)).Announces ∧ strategy.untimed.Signals cfg.shared

/-- No consumer sleeps over a publication or an alert that is complete. -/
def NoneSleepsOver (strategy : TimedStrategy) (cfg : Config C S) : Prop :=
  ∀ c sequence, cfg.threads (.consumer c) = some (sequence, .waiting) →
    cfg.shared.monitor.parked (.consumer c) = true →
    sequence ≤ cfg.shared.cursor ∨ cfg.shared.alerted c = true → WillNotify strategy cfg

/-- Where a consumer of the lite strategy passes the alert check, on its way from the store of
`signalNeeded_` to the timed wait, the cursor is still behind or a thread will notify. -/
def PassesInTime (strategy : TimedStrategy)
    (x : Transition (Config C S) (Σ t, TimedAction C S t)) : Prop :=
  strategy = .LiteTimeoutBlocking → ∀ c sequence, x.act.1 = .consumer c →
    x.pre.threads (.consumer c) = some (sequence, .checkAlert) → x.pre.shared.alerted c = false →
    x.pre.shared.cursor < sequence ∨ WillNotify strategy x.pre

variable {strategy : TimedStrategy} {cfg cfg' : Config C S} {s' : Shared C S} {c : C} {t : S}

lemma willNotify_iff : WillNotify strategy cfg ↔ Pending strategy.untimed cfg := by
  constructor
  · rintro ⟨t, hnotifies | ⟨hannounces, hsignals⟩⟩
    · exact Or.inr ⟨t, hnotifies⟩
    · exact Or.inl ⟨hsignals, t, hannounces⟩
  · rintro (⟨hsignals, t, hannounces⟩ | ⟨t, hnotifies⟩)
    · exact ⟨t, Or.inr ⟨hannounces, hsignals⟩⟩
    · exact ⟨t, Or.inl hnotifies⟩

/-! ### The invariant

A consumer of the lite strategy that is before its alert check knows no more of the cursor than one
of `LiteBlockingWaitStrategy` that is about to look at it again. -/

/-- What the place of a consumer means in the invariant of the strategies without a timeout. -/
def TimedStrategy.asUntimed : TimedStrategy → WaitPc → WaitPc
  | .LiteTimeoutBlocking, .checkAlert => .recheck
  | _, pc => pc

def asUntimed (strategy : TimedStrategy) : ∀ t : Thread C S, Local C S t → Local C S t
  | .consumer _, l => l.map fun call => (call.1, strategy.asUntimed call.2)
  | .signaller _, pc => pc

/-- The state with the places of the consumers so understood. -/
def untimedConfig (strategy : TimedStrategy) (cfg : Config C S) : Config C S where
  shared := cfg.shared
  threads t := asUntimed strategy t (cfg.threads t)

section

variable [DecidableEq C] [DecidableEq S]

lemma untimedConfig_update {u : Thread C S} {l : Local C S u} :
    untimedConfig strategy ⟨s', Function.update cfg.threads u l⟩ =
      ⟨s', Function.update (untimedConfig strategy cfg).threads u (asUntimed strategy u l)⟩ := by
  apply ThreadPool.Config.ext
  · rfl
  · funext v
    by_cases hv : v = u
    · subst hv
      simp [untimedConfig]
    · simp [untimedConfig, Function.update_of_ne hv]

/-- What is said of a consumer of the lite strategy is said of no other. -/
structure TimedInv (strategy : TimedStrategy) (cfg : Config C S) : Prop where
  untimed : Inv strategy.untimed (untimedConfig strategy cfg)
  /-- Only one of the strategies has the store. -/
  lite : ∀ c sequence, cfg.threads (.consumer c) = some (sequence, .storeSignalNeeded) →
    strategy = .LiteTimeoutBlocking

/-- A step of a consumer is one of a consumer without a timeout, except where the lite strategy
takes the lock, where it checks the alert, and where the time is over. -/
lemma timedConsumerStep_cases {s : Shared C S} {l l' : Option (Int × WaitPc)}
    {a : TimedConsumerAction} (hs : timedConsumerStep strategy c s l a = some (s', l'))
    (hlite : ∀ sequence, l = some (sequence, .storeSignalNeeded) →
      strategy = .LiteTimeoutBlocking) :
    (∃ b, consumerStep strategy.untimed c s (asUntimed (S := S) strategy (.consumer c) l) b =
        some (s', asUntimed (S := S) strategy (.consumer c) l')) ∨
      (∃ sequence m, l = some (sequence, .lock) ∧ s.monitor.lock (.consumer c) = some m ∧
        s' = { s with monitor := m } ∧ l' = some (sequence, .loopCondition)) ∨
      (∃ sequence, strategy = .LiteTimeoutBlocking ∧ l = some (sequence, .checkAlert) ∧
        s' = s ∧ l' = some (sequence, if s.alerted c then .unlock true else .wait)) ∨
      ∃ sequence m, l = some (sequence, .waiting) ∧ s.monitor.lock (.consumer c) = some m ∧
        s' = { s with monitor := m } ∧ l' = some (sequence, .unlock true) := by
  unfold timedConsumerStep at hs
  split at hs
  · -- a call begins
    rename_i sequence
    cases hs
    exact Or.inl ⟨.call sequence, by cases strategy <;> rfl⟩
  · -- `checkAlert()` of the barrier
    cases hs
    refine Or.inl ⟨.proceed, ?_⟩
    cases strategy <;> simp [asUntimed, TimedStrategy.asUntimed, consumerStep, apply_ite]
  · -- the first look at the cursor
    cases hs
    refine Or.inl ⟨.proceed, ?_⟩
    cases strategy <;> simp [asUntimed, TimedStrategy.asUntimed, consumerStep, apply_ite]
  · -- the lock
    rename_i sequence
    obtain ⟨m, hlock, heq⟩ := Option.map_eq_some_iff.mp hs
    cases heq
    exact Or.inr (Or.inl ⟨sequence, m, rfl, hlock, rfl, rfl⟩)
  · -- the condition of the loop
    rename_i sequence
    cases hs
    refine Or.inl ⟨.proceed, ?_⟩
    cases strategy <;> by_cases hbehind : s'.cursor < sequence <;>
      simp [asUntimed, TimedStrategy.asUntimed, consumerStep, TimedStrategy.body,
        TimedStrategy.untimed, Strategy.body, hbehind]
  · -- `signalNeeded_.store(true)`
    rename_i sequence
    cases hs
    obtain rfl := hlite sequence rfl
    exact Or.inl ⟨.proceed, rfl⟩
  · -- `checkAlert()` in the loop
    rename_i sequence
    cases hs
    cases strategy with
    | TimeoutBlocking =>
      refine Or.inl ⟨.proceed, ?_⟩
      simp [asUntimed, TimedStrategy.asUntimed, consumerStep]
    | LiteTimeoutBlocking => exact Or.inr (Or.inr (Or.inl ⟨sequence, rfl, rfl, rfl, rfl⟩))
  · -- the consumer parks
    cases hs
    exact Or.inl ⟨.proceed, by cases strategy <;> rfl⟩
  · -- a wake-up
    cases hs
    exact Or.inl ⟨.spuriousWakeUp, by cases strategy <;> rfl⟩
  · -- the consumer takes the lock again
    split_ifs at hs with hparked
    obtain ⟨m, hlock, heq⟩ := Option.map_eq_some_iff.mp hs
    cases heq
    refine Or.inl ⟨.proceed, ?_⟩
    cases strategy <;> simp [asUntimed, TimedStrategy.asUntimed, consumerStep, hparked, hlock]
  · -- the time is over
    rename_i sequence
    split_ifs at hs with hparked
    obtain ⟨m, hlock, heq⟩ := Option.map_eq_some_iff.mp hs
    cases heq
    exact Or.inr (Or.inr (Or.inr ⟨sequence, m, rfl, hlock, rfl, rfl⟩))
  · -- the lock is released
    rename_i sequence thrown
    cases hs
    refine Or.inl ⟨.proceed, ?_⟩
    cases strategy <;> cases thrown <;> rfl
  · -- a look at the dependent sequence
    rename_i sequence availableSequence
    cases hs
    refine Or.inl ⟨.dependent availableSequence, ?_⟩
    cases strategy <;> simp [asUntimed, TimedStrategy.asUntimed, consumerStep, apply_ite]
  · -- `checkAlert()` in the second loop
    cases hs
    refine Or.inl ⟨.proceed, ?_⟩
    cases strategy <;> simp [asUntimed, TimedStrategy.asUntimed, consumerStep, apply_ite]
  · cases hs

/-- A place in the lite strategy is reached in the lite strategy only. -/
lemma timedConsumerStep_lite {s : Shared C S} {l : Option (Int × WaitPc)} {a : TimedConsumerAction}
    {sequence : Int}
    (hs : timedConsumerStep strategy c s l a = some (s', some (sequence, .storeSignalNeeded))) :
    strategy = .LiteTimeoutBlocking := by
  cases strategy with
  | LiteTimeoutBlocking => rfl
  | TimeoutBlocking =>
    unfold timedConsumerStep at hs
    split at hs
    all_goals try split_ifs at hs
    all_goals simp [TimedStrategy.body] at hs

/-- A step of a consumer keeps the invariant if, at the alert check of the lite strategy, the
cursor is still behind or a thread will notify. -/
lemma timedConsumerStep_inv (h : TimedInv strategy cfg) {a : TimedConsumerAction}
    {l' : Option (Int × WaitPc)}
    (hs : timedConsumerStep strategy c cfg.shared (cfg.threads (.consumer c)) a = some (s', l'))
    (hpasses : strategy = .LiteTimeoutBlocking → ∀ sequence,
      cfg.threads (.consumer c) = some (sequence, .checkAlert) → cfg.shared.alerted c = false →
        cfg.shared.cursor < sequence ∨ WillNotify strategy cfg) :
    TimedInv strategy ⟨s', Function.update cfg.threads (.consumer c) l'⟩ := by
  refine ⟨?_, ?_⟩
  · rw [untimedConfig_update]
    rcases timedConsumerStep_cases hs (h.lite c) with
      ⟨b, hstep⟩ | ⟨sequence, m, hl, hlock, rfl, rfl⟩ | ⟨sequence, rfl, hl, rfl, rfl⟩ |
        ⟨sequence, m, hl, hlock, rfl, rfl⟩
    · exact consumerStep_inv h.untimed hstep
    · -- the lock
      have hpc : strategy.asUntimed .loopCondition = .loopCondition := by cases strategy <;> rfl
      simp only [asUntimed, Option.map_some, hpc]
      exact h.untimed.take hlock trivial fun _ => id
    · -- the alert check of the lite strategy
      have hl' : (untimedConfig .LiteTimeoutBlocking cfg).threads (.consumer c) =
          some (sequence, .recheck) := by
        simp [untimedConfig, hl, asUntimed, TimedStrategy.asUntimed]
      obtain ⟨harmed, -, -⟩ := h.untimed.covered c sequence _ hl'
      by_cases halerted : cfg.shared.alerted c = true
      · simp only [halerted, asUntimed, Option.map_some, if_true]
        apply h.untimed.move
        · rw [hl']
          exact Iff.rfl
        · rintro _ _ ⟨⟩
          exact covered_of_not_committed id
      · simp only [halerted, asUntimed, Option.map_some]
        apply h.untimed.move
        · rw [hl']
          exact Iff.rfl
        · rintro _ _ ⟨⟩
          refine ⟨fun _ => harmed trivial, ?_, fun _ hflag => absurd hflag halerted⟩
          intro _ hle
          rcases hpasses rfl sequence hl (by simpa using halerted) with hbehind | hnotify
          · exact absurd hle (by simpa [untimedConfig] using hbehind)
          · exact willNotify_iff.mp hnotify
    · -- the time is over
      have hpc : strategy.asUntimed (.unlock true) = .unlock true := by cases strategy <;> rfl
      simp only [asUntimed, Option.map_some, hpc]
      exact h.untimed.take hlock trivial fun _ => id
  · intro d sequence hd
    by_cases heq : d = c
    · subst heq
      simp only [Function.update_self] at hd
      subst hd
      exact timedConsumerStep_lite hs
    · simp only [Function.update_of_ne (consumer_ne heq)] at hd
      exact h.lite d sequence hd

lemma timedPool_inv {a : Σ t, TimedAction C S t} (h : TimedInv strategy cfg)
    (hs : (timedPool C S strategy).next cfg a = some cfg')
    (hpasses : PassesInTime strategy ⟨cfg, a, cfg'⟩) : TimedInv strategy cfg' := by
  obtain ⟨u, a⟩ := a
  obtain ⟨s', l', hstep, rfl⟩ := (timedPool C S strategy).next_eq_some.mp hs
  cases u with
  | consumer c =>
    apply timedConsumerStep_inv h hstep
    intro hlite sequence hl halerted
    exact hpasses hlite c sequence rfl hl halerted
  | signaller t =>
    refine ⟨?_, ?_⟩
    · rw [untimedConfig_update]
      exact signallerStep_inv h.untimed hstep
    · intro d sequence hd
      exact h.lite d sequence (by simpa using hd)

omit [DecidableEq C] [DecidableEq S] in
lemma timedInv_initial (strategy : TimedStrategy) (cursor : Int) (alerted : C → Bool) :
    TimedInv strategy (initial cursor alerted : Config C S) := by
  have hinitial : untimedConfig strategy (initial cursor alerted : Config C S) =
      initial cursor alerted := by
    apply ThreadPool.Config.ext
    · rfl
    · funext t
      cases t <;> rfl
  refine ⟨?_, ?_⟩
  · rw [hinitial]
    exact inv_initial strategy.untimed cursor alerted
  · rintro c sequence ⟨⟩

omit [DecidableEq C] [DecidableEq S] in
lemma TimedInv.noneSleepsOver (h : TimedInv strategy cfg) : NoneSleepsOver strategy cfg := by
  intro c sequence hwaiting hparked hready
  have hwaiting' : (untimedConfig strategy cfg).threads (.consumer c) =
      some (sequence, .waiting) := by
    simp only [untimedConfig, hwaiting, asUntimed]
    cases strategy <;> rfl
  have hcovered := h.untimed.covered c sequence _ hwaiting'
  apply willNotify_iff.mpr
  rcases hready with hreached | halerted
  · exact hcovered.reached hparked hreached
  · exact hcovered.alerted hparked halerted

/-- Where a consumer does not pass in time, it parks with its next step, and sleeps over a
publication that is complete. -/
lemma sleepsOver_of_not_passesInTime {x : Transition (Config C S) (Σ t, TimedAction C S t)}
    (hs : (timedPool C S strategy).next x.pre x.act = some x.post)
    (hlate : ¬ PassesInTime strategy x) :
    ∃ c cfg', (timedPool C S strategy).next x.post ⟨.consumer c, .proceed⟩ = some cfg' ∧
      ¬ NoneSleepsOver strategy cfg' := by
  obtain ⟨pre, ⟨u, a⟩, post⟩ := x
  dsimp only at hs ⊢
  simp only [PassesInTime, not_forall, not_or, exists_prop] at hlate
  obtain ⟨rfl, c, sequence, rfl, hl, halerted, hreached, hquiet⟩ := hlate
  obtain ⟨s', l', hstep, rfl⟩ := (timedPool C S _).next_eq_some.mp hs
  have hmoved : (s', l') = (pre.shared, some (sequence, .wait)) := by
    change timedConsumerStep _ c pre.shared (pre.threads (.consumer c)) a = _ at hstep
    rw [hl] at hstep
    cases a <;> simp [timedConsumerStep, halerted] at hstep
    rw [← hstep.1, ← hstep.2]
  obtain ⟨rfl, rfl⟩ := Prod.mk.inj hmoved
  refine ⟨c, _, (timedPool C S _).next_eq_some.mpr
    ⟨{ pre.shared with monitor := pre.shared.monitor.park (.consumer c) },
      some (sequence, .waiting), ?_, rfl⟩, ?_⟩
  · simp only [Function.update_self]
    rfl
  · intro hnone
    apply hquiet
    apply willNotify_iff.mpr
    have hnotify := hnone c sequence (by simp) (by simp [Monitor.park])
      (Or.inl (Int.not_lt.mp hreached))
    have hpending := pending_consumer.mp (willNotify_iff.mp hnotify)
    simpa [Pending, Notifying, Strategy.Signals] using hpending

/-- A consumer is never left in the timed wait over a publication or an alert that is complete,
in any interleaving in which each consumer of the lite strategy passes its alert check in time;
one that does not, parks and sleeps. -/
theorem noneSleepsOver_of_passesInTime {cursor : Int} {alerted : C → Bool}
    {as : List (Σ t, TimedAction C S t)} :
    ((∀ x ∈ transitions (timedPool C S strategy).next (initial cursor alerted) as,
        PassesInTime strategy x) →
      ∀ x ∈ transitions (timedPool C S strategy).next (initial cursor alerted) as,
        NoneSleepsOver strategy x.post) ∧
      ∀ x ∈ transitions (timedPool C S strategy).next (initial cursor alerted) as,
        ¬ PassesInTime strategy x →
          ∃ c cfg', (timedPool C S strategy).next x.post ⟨.consumer c, .proceed⟩ = some cfg' ∧
            ¬ NoneSleepsOver strategy cfg' := by
  constructor
  · intro hpasses x hx
    have hinv := transitions_invariant (TimedInv strategy) (PassesInTime strategy)
      (fun _ _ _ h hs hp => timedPool_inv h hs hp) (timedInv_initial strategy cursor alerted)
      hpasses x hx
    exact hinv.2.noneSleepsOver
  · intro x hx
    exact sleepsOver_of_not_passesInTime (mem_transitions hx).2

end

/-- The consumer finds the cursor behind, and the publication, signal included, is made before
`signalNeeded_` is set. -/
def publishBeforeStore : List (Σ t, TimedAction Unit Unit t) :=
  ⟨.consumer (), .call 0⟩ :: List.replicate 4 ⟨.consumer (), .proceed⟩ ++
    [⟨.signaller (), .advance 0⟩, ⟨.signaller (), .proceed⟩, ⟨.signaller (), .proceed⟩] ++
    List.replicate 3 ⟨.consumer (), .proceed⟩

theorem publishBeforeStore_sleepsOver :
    ∃ cfg, run (timedPool Unit Unit .LiteTimeoutBlocking).next (initial (-1) fun _ => false)
        publishBeforeStore = some cfg ∧
      cfg.threads (.consumer ()) = some (0, .waiting) ∧
      cfg.shared.monitor.parked (.consumer ()) = true ∧ cfg.shared.cursor = 0 ∧
      ∀ t : Unit, cfg.threads (.signaller t) = .idle :=
  ⟨_, rfl, rfl, rfl, rfl, fun _ => rfl⟩

end Disruptor.Signalling
