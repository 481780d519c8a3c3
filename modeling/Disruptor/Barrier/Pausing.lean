import Disruptor.Barrier.WaitCall
import Disruptor.Core.Run

/-!
# How the wait strategies pause

`WaitCall` leaves to the schedule what a strategy does between two looks at the dependent sequence.
Here are the loops of the strategies with their local variables: the counter of
`YieldingWaitStrategy` and `SleepingWaitStrategy`, and the counter and the clock of
`PhasedBackoffWaitStrategy`. Every step is one of `WaitCall`.
-/

namespace Disruptor.Pausing

open Disruptor.Core

variable {ι : Type}

/-- What a strategy does between two looks at the dependent sequence. -/
inductive Pause where
  | spin
  | yield
  | sleep (nanos : Int)
  deriving DecidableEq, Repr

/-- The fields of the strategies. -/
structure Parameters where
  /-- `retries_` of `SleepingWaitStrategy`. -/
  retries : Int := 200
  sleepTimeNs : Int := 100
  /-- `spinTimeoutNanos_` of `PhasedBackoffWaitStrategy`. -/
  spinTimeoutNanos : Int := 0
  /-- `yieldTimeoutNanos_`, which counts from the start too. -/
  yieldTimeoutNanos : Int := 0

def YieldingWaitStrategy.SPIN_TRIES : Int := 100

def SleepingWaitStrategy.SPIN_THRESHOLD : Int := 100

def PhasedBackoffWaitStrategy.SPIN_TRIES : Int := 10000

/-- `YieldingWaitStrategy::applyWaitMethod`, after the alert check. -/
def YieldingWaitStrategy.applyWaitMethod (counter : Int) : Pause × Int :=
  if counter = 0 then (.yield, counter) else (.spin, counter - 1)

/-- `SleepingWaitStrategy::applyWaitMethod`, after the alert check. -/
def SleepingWaitStrategy.applyWaitMethod (sleepTimeNs counter : Int) : Pause × Int :=
  if counter > SPIN_THRESHOLD then (.spin, counter - 1)
  else if counter > 0 then (.yield, counter - 1)
  else (.sleep sleepTimeNs, counter)

/-- What `PhasedBackoffWaitStrategy` does when it looks at the clock. -/
inductive Phase where
  | start
  | spin
  | yield
  | fallback
  deriving DecidableEq, Repr

def Phase.rank : Phase → Nat
  | .start => 0
  | .spin => 1
  | .yield => 2
  | .fallback => 3

/-- The body of `if (--counter == 0)`. -/
def PhasedBackoffWaitStrategy.look (p : Parameters) (startTimeNs nowNanos : Int) : Phase :=
  if startTimeNs = 0 then .start
  else if nowNanos - startTimeNs > p.yieldTimeoutNanos then .fallback
  else if nowNanos - startTimeNs > p.spinTimeoutNanos then .yield
  else .spin

/-- `counter` when a strategy is entered. -/
def initialCounter (p : Parameters) : WaitStrategy → Int
  | .Yielding => YieldingWaitStrategy.SPIN_TRIES
  | .Sleeping => p.retries
  | .PhasedBackoff _ => PhasedBackoffWaitStrategy.SPIN_TRIES
  | _ => 0

/-- A call of `waitFor`. -/
structure State (ι : Type) where
  call : WaitCall ι := .checkAlert
  /-- The strategy that is waiting. -/
  strategy : WaitStrategy
  counter : Int
  startTimeNs : Int := 0
  /-- What the clock shows. -/
  nowNanos : Int
  ended : Option (Except Exception Int) := none
  /-- History: how often the strategy has found the dependent sequence behind. -/
  behind : Nat := 0
  /-- History: how it has paused, the latest first. -/
  pauses : List Pause := []
  /-- History: what it has done at each look at the clock, the latest first. -/
  looks : List Phase := []
  /-- History: when the strategies that it falls back from had started, and had ended. -/
  fallbacks : List (Int × Int) := []
  /-- History: how often the call has found the dependent sequence behind. -/
  finds : Nat := 0

/-- What a step depends on: the state that is shared, the schedule, and the time that passes. -/
structure Input (ι : Type) where
  view : WaitView ι
  choice : WaitChoice := .proceed
  elapsed : Nat := 0

namespace State

/-- The strategy pauses and looks again. -/
def pause (s : State ι) (r : Pause × Int) : State ι :=
  { s with
    counter := r.2
    behind := s.behind + 1
    pauses := r.1 :: s.pauses
    finds := s.finds + 1 }

/-- `fallbackStrategy_.waitFor(..)`. -/
def fallBack (p : Parameters) (s : State ι) (fallback : WaitStrategy) : State ι :=
  { s with
    strategy := fallback
    counter := initialCounter p fallback
    startTimeNs := 0
    behind := 0
    pauses := []
    looks := []
    fallbacks := (s.startTimeNs, s.nowNanos) :: s.fallbacks
    finds := s.finds + 1 }

/-- The strategy has found the dependent sequence behind, and no alert. -/
def backOff (p : Parameters) (s : State ι) : WaitStrategy → State ι × WaitChoice
  | .Yielding => (s.pause (YieldingWaitStrategy.applyWaitMethod s.counter), .proceed)
  | .Sleeping =>
    (s.pause (SleepingWaitStrategy.applyWaitMethod p.sleepTimeNs s.counter), .proceed)
  | .PhasedBackoff fallback =>
    if s.counter - 1 = 0 then
      match PhasedBackoffWaitStrategy.look p s.startTimeNs s.nowNanos with
      | .start =>
        ({ s.pause (.spin, PhasedBackoffWaitStrategy.SPIN_TRIES) with
            startTimeNs := s.nowNanos
            looks := .start :: s.looks },
          .proceed)
      | .spin =>
        ({ s.pause (.spin, PhasedBackoffWaitStrategy.SPIN_TRIES) with
            looks := .spin :: s.looks },
          .proceed)
      | .yield =>
        ({ s.pause (.yield, PhasedBackoffWaitStrategy.SPIN_TRIES) with
            looks := .yield :: s.looks },
          .proceed)
      | .fallback => (s.fallBack p fallback, .fallback)
    else (s.pause (.spin, s.counter - 1), .proceed)
  | _ => (s.pause (.spin, s.counter), .proceed)

/-- Where a step of `WaitCall` leads. -/
def goOn (s after : State ι) : Option (WaitCall ι ⊕ Except Exception Int) → Option (State ι)
  | some (.inl call) => some { after with call := call }
  | some (.inr answer) => some { s with ended := some answer }
  | none => none

/-- The clock goes on. -/
def wait (s : State ι) (elapsed : Nat) : State ι := { s with nowNanos := s.nowNanos + elapsed }

/-- One step of `waitFor(sequence)`. -/
def step (p : Parameters) (b : Barrier ι) (sequence : Int) (s : State ι) (i : Input ι) :
    Option (State ι) :=
  if s.ended.isSome then none
  else
    match s.call with
    | .dependentBehind strategy =>
      let r := (s.wait i.elapsed).backOff p strategy
      (s.wait i.elapsed).goOn r.1 (s.call.step b i.view sequence r.2)
    | _ =>
      (s.wait i.elapsed).goOn (s.wait i.elapsed) (s.call.step b i.view sequence i.choice)

end State

/-- A call starts. -/
def initial (p : Parameters) (b : Barrier ι) (nowNanos : Int) : State ι :=
  { strategy := b.waitStrategy, counter := initialCounter p b.waitStrategy, nowNanos := nowNanos }

variable {p : Parameters} {b : Barrier ι} {sequence : Int} {s s' : State ι} {i : Input ι}

/-! ### The steps -/

/-- The call is at a place of the strategy. -/
def Within (b : Barrier ι) (strategy : WaitStrategy) : WaitCall ι → Prop
  | .checkAlert => strategy = b.waitStrategy
  | .readCursor present | .cursorBehind present =>
    present = strategy ∧ strategy.waitsForCursor = true
  | .readDependent present | .scan present _ _ | .dependentBehind present => present = strategy
  | .readFlag _ _ => True

lemma within_dependent (strategy : WaitStrategy) :
    Within b strategy (WaitCall.dependent b strategy) := by
  unfold WaitCall.dependent
  split_ifs <;> rfl

lemma within_enter (strategy : WaitStrategy) :
    Within b strategy (WaitCall.enter b strategy) := by
  unfold WaitCall.enter
  split_ifs with hcursor
  · exact ⟨rfl, hcursor⟩
  · exact within_dependent strategy

lemma within_found {strategy : WaitStrategy} {view : WaitView ι} {a : Int} {c : WaitCall ι}
    (hs : WaitCall.found view sequence strategy a = .inl c) : Within b strategy c := by
  unfold WaitCall.found at hs
  split_ifs at hs
  · obtain rfl := Sum.inl.inj hs
    rfl
  · split at hs
    · cases hs
    · obtain rfl := Sum.inl.inj hs
      trivial

variable {strategy : WaitStrategy} {view : WaitView ι} {choice : WaitChoice} {c c' : WaitCall ι}

/-- A step stays within the strategy, unless it falls back. -/
lemma Within.step (h : Within b strategy c)
    (hs : c.step b view sequence choice = some (.inl c')) :
    Within b strategy c' ∨
      ∃ fallback, strategy = .PhasedBackoff fallback ∧ c = .dependentBehind strategy ∧
        choice = .fallback ∧ Within b fallback c' := by
  unfold WaitCall.step at hs
  split at hs
  · split_ifs at hs
    · cases hs
    · obtain rfl := Sum.inl.inj (Option.some.inj hs)
      obtain rfl : strategy = b.waitStrategy := h
      exact Or.inl (within_enter _)
  · obtain ⟨rfl, hcursor⟩ := h
    split_ifs at hs
    · obtain rfl := Sum.inl.inj (Option.some.inj hs)
      exact Or.inl ⟨rfl, hcursor⟩
    · obtain rfl := Sum.inl.inj (Option.some.inj hs)
      exact Or.inl (within_dependent _)
  · split_ifs at hs
    · cases hs
    · obtain rfl := Sum.inl.inj (Option.some.inj hs)
      exact Or.inl h
  · obtain rfl := Sum.inl.inj (Option.some.inj hs)
    exact Or.inl h
  · split_ifs at hs
    cases hs
  · obtain rfl := h
    exact Or.inl (within_found (Option.some.inj hs))
  · obtain rfl := h
    exact Or.inl (within_found (Option.some.inj hs))
  · obtain rfl := Sum.inl.inj (Option.some.inj hs)
    exact Or.inl h
  · obtain rfl := h
    split_ifs at hs
    · cases hs
    · obtain rfl := Sum.inl.inj (Option.some.inj hs)
      exact Or.inl (within_dependent _)
  · rename_i fallback
    obtain rfl := h
    obtain rfl := Sum.inl.inj (Option.some.inj hs)
    exact Or.inr ⟨fallback, rfl, rfl, rfl, within_enter fallback⟩
  · split at hs
    · cases hs
    · split_ifs at hs
      · obtain rfl := Sum.inl.inj (Option.some.inj hs)
        exact Or.inl trivial
      · cases hs
      · cases hs
  · cases hs

/-- The loop of `PhasedBackoffWaitStrategy` throws nothing. -/
lemma Within.error (h : Within b strategy c) {e : Exception}
    (hs : c.step b view sequence choice = some (.inr (.error e))) :
    c = .checkAlert ∨ ∀ fallback, strategy ≠ .PhasedBackoff fallback := by
  by_contra hnot
  simp only [not_or, not_forall, not_not] at hnot
  obtain ⟨hc, fallback, rfl⟩ := hnot
  have hfound : ∀ present a, WaitCall.found view sequence present a ≠ .inr (.error e) := by
    intro present a
    unfold WaitCall.found
    split_ifs
    · simp
    · split <;> simp
  cases c with
  | checkAlert => exact hc rfl
  | readCursor present => simp [Within, WaitStrategy.waitsForCursor] at h
  | cursorBehind present => simp [Within, WaitStrategy.waitsForCursor] at h
  | readDependent present =>
    cases choice <;> simp [WaitCall.step, hfound] at hs
  | scan present rest m =>
    cases choice <;> cases rest <;> simp [WaitCall.step, hfound] at hs
  | dependentBehind present =>
    obtain rfl := h
    cases choice <;> simp [WaitCall.step, WaitStrategy.checksAlert] at hs
  | readFlag a t =>
    cases choice <;> simp only [WaitCall.step, reduceCtorEq] at hs
    split at hs
    · cases hs
    · split_ifs at hs <;> simp at hs

namespace State

/-- The strategy goes on, or falls back. -/
lemma backOff_strategy (p : Parameters) (s : State ι) (strategy : WaitStrategy) :
    (s.backOff p strategy).2 = .proceed ∧ (s.backOff p strategy).1.strategy = s.strategy ∨
      ∃ fallback, strategy = .PhasedBackoff fallback ∧ (s.backOff p strategy).2 = .fallback ∧
        (s.backOff p strategy).1 = s.fallBack p fallback := by
  cases strategy with
  | PhasedBackoff fallback =>
    simp only [backOff]
    split_ifs
    · split
      · exact Or.inl ⟨rfl, rfl⟩
      · exact Or.inl ⟨rfl, rfl⟩
      · exact Or.inl ⟨rfl, rfl⟩
      · exact Or.inr ⟨fallback, rfl, rfl, rfl⟩
    · exact Or.inl ⟨rfl, rfl⟩
  | _ => exact Or.inl ⟨rfl, rfl⟩

lemma goOn_cases {after : State ι} {r : Option (WaitCall ι ⊕ Except Exception Int)}
    (hs : s.goOn after r = some s') :
    (∃ answer, r = some (.inr answer) ∧ s' = { s with ended := some answer }) ∨
      ∃ call, r = some (.inl call) ∧ s' = { after with call := call } := by
  cases r with
  | none => cases hs
  | some r =>
    obtain call | answer := r
    · exact Or.inr ⟨call, rfl, (Option.some.inj hs).symm⟩
    · exact Or.inl ⟨answer, rfl, (Option.some.inj hs).symm⟩

/-- A step of a strategy that has found the dependent sequence behind, or another step. -/
lemma step_goOn (hs : s.step p b sequence i = some s') :
    ∃ after choice,
      (s.wait i.elapsed).goOn after (s.call.step b i.view sequence choice) = some s' ∧
      ((∀ strategy, s.call ≠ .dependentBehind strategy) ∧ after = s.wait i.elapsed ∨
        ∃ strategy, s.call = .dependentBehind strategy ∧
          after = ((s.wait i.elapsed).backOff p strategy).1 ∧
          choice = ((s.wait i.elapsed).backOff p strategy).2) := by
  unfold step at hs
  split_ifs at hs
  split at hs
  · rename_i strategy hcall
    exact ⟨_, _, hs, Or.inr ⟨strategy, hcall, rfl, rfl⟩⟩
  · rename_i hcall
    exact ⟨_, _, hs, Or.inl ⟨hcall, rfl⟩⟩

/-- Every step is one of the call that leaves the pauses to the schedule. -/
theorem step_refines (hs : s.step p b sequence i = some s') :
    ∃ choice, s.call.step b i.view sequence choice = some (.inl s'.call) ∨
      ∃ answer, s.call.step b i.view sequence choice = some (.inr answer) ∧
        s'.ended = some answer := by
  obtain ⟨after, choice, hgo, -⟩ := step_goOn hs
  rcases goOn_cases hgo with ⟨answer, hstep, rfl⟩ | ⟨call, hstep, rfl⟩
  · exact ⟨choice, Or.inr ⟨answer, hstep, rfl⟩⟩
  · exact ⟨choice, Or.inl hstep⟩

/-- What a step does: the call ends, goes on, or backs off. -/
lemma step_cases (hs : s.step p b sequence i = some s') (h : Within b s.strategy s.call) :
    (∃ answer, s' = { s.wait i.elapsed with ended := some answer } ∧
      ∀ e, answer = .error e → s.call = .checkAlert ∨
        ∀ fallback, s.strategy ≠ .PhasedBackoff fallback) ∨
    ∃ call after, s' = { after with call := call } ∧ Within b after.strategy call ∧
      (after = s.wait i.elapsed ∨
        after = ((s.wait i.elapsed).backOff p s.strategy).1) := by
  obtain ⟨after, choice, hgo, hafter⟩ := step_goOn hs
  rcases goOn_cases hgo with ⟨answer, hstep, rfl⟩ | ⟨call, hstep, rfl⟩
  · refine Or.inl ⟨answer, rfl, ?_⟩
    rintro e rfl
    exact h.error hstep
  · refine Or.inr ⟨call, after, rfl, ?_⟩
    rcases hafter with ⟨hcall, rfl⟩ | ⟨strategy, hcall, rfl, rfl⟩
    · refine ⟨?_, Or.inl rfl⟩
      rcases h.step hstep with hwithin | ⟨fallback, -, hbehind, -⟩
      · exact hwithin
      · exact absurd hbehind (hcall _)
    · obtain rfl : strategy = s.strategy := by
        rw [hcall] at h
        exact h
      refine ⟨?_, Or.inr rfl⟩
      rcases (s.wait i.elapsed).backOff_strategy p s.strategy with
        ⟨hchoice, hsame⟩ | ⟨fallback, hphased, hchoice, hafter⟩
      · rw [hsame]
        rcases h.step hstep with hwithin | ⟨fallback, -, -, hfallback, -⟩
        · exact hwithin
        · rw [hchoice] at hfallback
          cases hfallback
      · rw [hafter]
        rw [hchoice, hcall, hphased] at hstep
        obtain rfl := Sum.inl.inj (Option.some.inj hstep)
        exact within_enter fallback

end State

/-! ### Pausing by count -/

/-- How a strategy pauses when it has found the dependent sequence behind `k` times before. -/
def pauseAt (p : Parameters) : WaitStrategy → Nat → Pause
  | .Yielding, k => if (k : Int) < 100 then .spin else .yield
  | .Sleeping, k =>
    if (k : Int) < p.retries - 100 then .spin
    else if (k : Int) < p.retries then .yield
    else .sleep p.sleepTimeNs
  | _, _ => .spin

/-- The counter then. -/
def counterAt (p : Parameters) : WaitStrategy → Nat → Int
  | .Yielding, k => max (100 - k) 0
  | .Sleeping, k => max (p.retries - k) (min p.retries 0)
  | strategy, _ => initialCounter p strategy

/-- The strategy pauses by count, not by the clock. -/
def ByCount : WaitStrategy → Prop
  | .PhasedBackoff _ => False
  | _ => True

lemma initialCounter_eq (p : Parameters) (strategy : WaitStrategy) :
    initialCounter p strategy = counterAt p strategy 0 := by
  cases strategy <;> simp [initialCounter, counterAt, YieldingWaitStrategy.SPIN_TRIES]

lemma applyWaitMethod_yielding (p : Parameters) (k : Nat) :
    YieldingWaitStrategy.applyWaitMethod (counterAt p .Yielding k) =
      (pauseAt p .Yielding k, counterAt p .Yielding (k + 1)) := by
  have hcounter : counterAt p .Yielding k = max (100 - (k : Int)) 0 := rfl
  have hnext : counterAt p .Yielding (k + 1) = max (100 - ((k + 1 : Nat) : Int)) 0 := rfl
  generalize counterAt p .Yielding k = counter at hcounter ⊢
  generalize counterAt p .Yielding (k + 1) = next at hnext ⊢
  simp only [YieldingWaitStrategy.applyWaitMethod, pauseAt]
  by_cases hk : (k : Int) < 100
  · have hne : counter ≠ 0 := by omega
    have hcount : counter - 1 = next := by omega
    rw [if_neg hne, if_pos hk, hcount]
  · have heq : counter = 0 := by omega
    have hcount : counter = next := by omega
    rw [if_pos heq, if_neg hk, hcount]

lemma applyWaitMethod_sleeping (p : Parameters) (k : Nat) :
    SleepingWaitStrategy.applyWaitMethod p.sleepTimeNs (counterAt p .Sleeping k) =
      (pauseAt p .Sleeping k, counterAt p .Sleeping (k + 1)) := by
  have hcounter : counterAt p .Sleeping k = max (p.retries - k) (min p.retries 0) := rfl
  have hnext : counterAt p .Sleeping (k + 1) =
    max (p.retries - ((k + 1 : Nat) : Int)) (min p.retries 0) := rfl
  generalize counterAt p .Sleeping k = counter at hcounter ⊢
  generalize counterAt p .Sleeping (k + 1) = next at hnext ⊢
  have hthreshold : SleepingWaitStrategy.SPIN_THRESHOLD = 100 := rfl
  simp only [SleepingWaitStrategy.applyWaitMethod, pauseAt]
  by_cases hspin : (k : Int) < p.retries - 100
  · have habove : counter > SleepingWaitStrategy.SPIN_THRESHOLD := by omega
    have hcount : counter - 1 = next := by omega
    rw [if_pos habove, if_pos hspin, hcount]
  · have habove : ¬ counter > SleepingWaitStrategy.SPIN_THRESHOLD := by omega
    rw [if_neg habove, if_neg hspin]
    by_cases hyield : (k : Int) < p.retries
    · have hpos : counter > 0 := by omega
      have hcount : counter - 1 = next := by omega
      rw [if_pos hpos, if_pos hyield, hcount]
    · have hpos : ¬ counter > 0 := by omega
      have hcount : counter = next := by omega
      rw [if_neg hpos, if_neg hyield, hcount]

/-- A strategy that pauses by count. -/
lemma State.backOff_byCount (p : Parameters) (s : State ι) {strategy : WaitStrategy}
    (h : ByCount strategy) (hcounter : s.counter = counterAt p strategy s.behind) :
    (s.backOff p strategy).1 =
      s.pause (pauseAt p strategy s.behind, counterAt p strategy (s.behind + 1)) := by
  cases strategy with
  | Yielding => simp only [backOff, hcounter, applyWaitMethod_yielding]
  | Sleeping => simp only [backOff, hcounter, applyWaitMethod_sleeping]
  | PhasedBackoff fallback => exact h.elim
  | _ =>
    simp only [backOff, pauseAt, counterAt] at hcounter ⊢
    rw [hcounter]

/-! ### Backing off by the clock -/

/-- What `PhasedBackoffWaitStrategy` knows of its looks at the clock, in a call that started at
`start`. -/
structure Backoff (p : Parameters) (start : Int) (s : State ι) : Prop where
  counter_pos : 1 ≤ s.counter
  counter_le : s.counter ≤ 10000
  counter_eq : s.behind + s.counter = 10000 * (s.looks.length + 1)
  inPhases : s.looks.Pairwise fun later earlier => earlier.rank ≤ later.rank
  notStarted : s.startTimeNs = 0 → ∀ look ∈ s.looks, look = .start
  started : s.startTimeNs ≠ 0 → s.looks ≠ [] ∧ start ≤ s.startTimeNs
  yielded : .yield ∈ s.looks → p.spinTimeoutNanos < s.nowNanos - s.startTimeNs
  goesOn : .fallback ∉ s.looks

/-- What the local variables of the strategies say about a call that started at `start`. -/
structure Counts (p : Parameters) (b : Barrier ι) (start : Int) (s : State ι) : Prop where
  clock : start ≤ s.nowNanos
  byCount : ByCount s.strategy → s.counter = counterAt p s.strategy s.behind ∧
    s.pauses = ((List.range s.behind).map (pauseAt p s.strategy)).reverse
  byClock : ∀ fallback, s.strategy = .PhasedBackoff fallback → Backoff p start s
  /-- Each strategy that was left for its fallback had looked twice at the clock. -/
  fellBack : ∀ f ∈ s.fallbacks, start ≤ f.1 ∧ f.2 ≤ s.nowNanos ∧ p.yieldTimeoutNanos < f.2 - f.1
  finds : 20000 * s.fallbacks.length + s.behind ≤ s.finds
  first : s.strategy = b.waitStrategy ∨ s.fallbacks ≠ []

/-- A strategy is entered. -/
lemma backoff_enter (p : Parameters) (start : Int) {s : State ι}
    (hcounter : s.counter = PhasedBackoffWaitStrategy.SPIN_TRIES) (hbehind : s.behind = 0)
    (hlooks : s.looks = []) (hstart : s.startTimeNs = 0) : Backoff p start s where
  counter_pos := by simp [hcounter, PhasedBackoffWaitStrategy.SPIN_TRIES]
  counter_le := by simp [hcounter, PhasedBackoffWaitStrategy.SPIN_TRIES]
  counter_eq := by simp [hcounter, hbehind, hlooks, PhasedBackoffWaitStrategy.SPIN_TRIES]
  inPhases := by simp [hlooks]
  notStarted := by simp [hlooks]
  started := fun h => absurd hstart h
  yielded := by simp [hlooks]
  goesOn := by simp [hlooks]

/-- What holds before and after every step of a call that started at `start`. -/
structure Inv (p : Parameters) (b : Barrier ι) (start : Int) (s : State ι) : Prop where
  within : Within b s.strategy s.call
  counts : Counts p b start s
  thrown : ∀ e, s.ended = some (.error e) → s.call = .checkAlert ∨
    ∀ fallback, s.strategy ≠ .PhasedBackoff fallback

lemma inv_initial (p : Parameters) (b : Barrier ι) (start : Int) :
    Inv p b start (initial p b start) := by
  refine ⟨rfl, ⟨le_refl _, fun _ => ⟨initialCounter_eq p _, rfl⟩, ?_, by simp [initial],
    by simp [initial], Or.inl rfl⟩, by simp [initial]⟩
  intro fallback h
  have hstrategy : b.waitStrategy = .PhasedBackoff fallback := h
  refine backoff_enter p start ?_ rfl rfl rfl
  simp [initial, hstrategy, initialCounter]

lemma Backoff.goOn {start : Int} (h : Backoff p start s) (call : WaitCall ι)
    (ended : Option (Except Exception Int)) :
    Backoff p start { s with call := call, ended := ended } :=
  ⟨h.counter_pos, h.counter_le, h.counter_eq, h.inPhases, h.notStarted, h.started, h.yielded,
    h.goesOn⟩

/-- Where the call is does not matter. -/
lemma Counts.goOn {start : Int} (h : Counts p b start s) (call : WaitCall ι)
    (ended : Option (Except Exception Int)) :
    Counts p b start { s with call := call, ended := ended } :=
  ⟨h.clock, h.byCount, fun fallback hf => (h.byClock fallback hf).goOn call ended, h.fellBack,
    h.finds, h.first⟩

/-- The clock goes on. -/
lemma Counts.wait {start : Int} (h : Counts p b start s) (elapsed : Nat) :
    Counts p b start (s.wait elapsed) := by
  have hle : s.nowNanos ≤ (s.wait elapsed).nowNanos := by
    simp only [State.wait]
    omega
  refine ⟨h.clock.trans hle, h.byCount, ?_, ?_, h.finds, h.first⟩
  · intro fallback hfallback
    obtain ⟨hpos, hle', heq, hphases, hnot, hstarted, hyielded, hgoes⟩ :=
      h.byClock fallback hfallback
    refine ⟨hpos, hle', heq, hphases, hnot, hstarted, ?_, hgoes⟩
    exact fun hyield => (hyielded hyield).trans_le (Int.sub_le_sub_right hle _)
  · intro f hf
    obtain ⟨hstart, hnow, hlt⟩ := h.fellBack f hf
    exact ⟨hstart, hnow.trans hle, hlt⟩

/-- What the clock has shown. -/
lemma look_cases (p : Parameters) (startTimeNs nowNanos : Int) :
    (PhasedBackoffWaitStrategy.look p startTimeNs nowNanos = .start ∧ startTimeNs = 0) ∨
    (PhasedBackoffWaitStrategy.look p startTimeNs nowNanos = .spin ∧ startTimeNs ≠ 0 ∧
      nowNanos - startTimeNs ≤ p.spinTimeoutNanos) ∨
    (PhasedBackoffWaitStrategy.look p startTimeNs nowNanos = .yield ∧ startTimeNs ≠ 0 ∧
      p.spinTimeoutNanos < nowNanos - startTimeNs) ∨
    (PhasedBackoffWaitStrategy.look p startTimeNs nowNanos = .fallback ∧ startTimeNs ≠ 0 ∧
      p.yieldTimeoutNanos < nowNanos - startTimeNs) := by
  unfold PhasedBackoffWaitStrategy.look
  split_ifs with hnone hyield hspin
  · exact Or.inl ⟨rfl, hnone⟩
  · exact Or.inr (Or.inr (Or.inr ⟨rfl, hnone, hyield⟩))
  · exact Or.inr (Or.inr (Or.inl ⟨rfl, hnone, hspin⟩))
  · exact Or.inr (Or.inl ⟨rfl, hnone, not_lt.mp hspin⟩)

/-- A look at the clock after which the strategy goes on. -/
lemma Backoff.look {start : Int} (h : Backoff p start s) (hcounter : s.counter = 1) (look : Phase)
    (hlook : look ≠ .fallback) (hordered : ∀ earlier ∈ s.looks, earlier.rank ≤ look.rank)
    (hafter : s'.behind = s.behind + 1 ∧ s'.counter = PhasedBackoffWaitStrategy.SPIN_TRIES ∧
      s'.looks = look :: s.looks)
    (hnot : s'.startTimeNs = 0 → ∀ look ∈ s'.looks, look = .start)
    (hstarted : s'.startTimeNs ≠ 0 → start ≤ s'.startTimeNs)
    (hyielded : .yield ∈ s'.looks → p.spinTimeoutNanos < s'.nowNanos - s'.startTimeNs) :
    Backoff p start s' := by
  obtain ⟨hbehind, hcounter', hlooks⟩ := hafter
  have heq := h.counter_eq
  refine ⟨?_, ?_, ?_, ?_, hnot, fun hne => ⟨by simp [hlooks], hstarted hne⟩, hyielded, ?_⟩
  · simp [hcounter', PhasedBackoffWaitStrategy.SPIN_TRIES]
  · simp [hcounter', PhasedBackoffWaitStrategy.SPIN_TRIES]
  · simp only [hbehind, hcounter', hlooks, PhasedBackoffWaitStrategy.SPIN_TRIES, List.length_cons]
    omega
  · rw [hlooks]
    exact List.pairwise_cons.mpr ⟨hordered, h.inPhases⟩
  · rw [hlooks, List.mem_cons, not_or]
    exact ⟨hlook.symm, h.goesOn⟩

/-- `PhasedBackoffWaitStrategy` has found the dependent sequence behind: it goes on, or the second
of its looks at the clock, or a later one, has made it fall back. -/
lemma Backoff.backOff {start : Int} (h : Backoff p start s) (hclock : start ≤ s.nowNanos)
    (fallback : WaitStrategy) :
    (Backoff p start (s.backOff p (.PhasedBackoff fallback)).1 ∧
      ∃ counter startTimeNs pause looks, (s.backOff p (.PhasedBackoff fallback)).1 =
        { s.pause (pause, counter) with startTimeNs := startTimeNs, looks := looks }) ∨
    (s.backOff p (.PhasedBackoff fallback)).1 = s.fallBack p fallback ∧ start ≤ s.startTimeNs ∧
      p.yieldTimeoutNanos < s.nowNanos - s.startTimeNs ∧ 20000 ≤ s.behind + 1 := by
  have hpos := h.counter_pos
  have hle := h.counter_le
  have heq := h.counter_eq
  by_cases hzero : s.counter - 1 = 0
  · have hcounter : s.counter = 1 := by omega
    simp only [State.backOff, if_pos hzero]
    rcases look_cases p s.startTimeNs s.nowNanos with ⟨hlook, hnone⟩ | ⟨hlook, hsome, hle⟩ |
      ⟨hlook, hsome, hlt⟩ | ⟨hlook, hsome, hlt⟩
    · simp only [hlook]
      refine Or.inl ⟨h.look hcounter .start (by simp) ?_ ⟨rfl, rfl, rfl⟩ ?_ ?_ ?_,
        _, _, _, _, rfl⟩
      · intro earlier hearlier
        simp [h.notStarted hnone earlier hearlier]
      · intro _ look hl
        rcases List.mem_cons.mp hl with rfl | hl
        · rfl
        · exact h.notStarted hnone look hl
      · exact fun _ => hclock
      · intro hyield
        have hold : .yield ∈ s.looks := by simpa using hyield
        cases h.notStarted hnone _ hold
    · simp only [hlook]
      refine Or.inl ⟨h.look hcounter .spin (by simp) ?_ ⟨rfl, rfl, rfl⟩ ?_ ?_ ?_,
        _, _, _, _, rfl⟩
      · intro earlier hearlier
        cases earlier with
        | start | spin => simp [Phase.rank]
        | yield => exact absurd (h.yielded hearlier) (not_lt.mpr hle)
        | fallback => exact absurd hearlier h.goesOn
      · exact fun hnone => absurd hnone hsome
      · exact fun hne => (h.started hne).2
      · intro hyield
        exact h.yielded (by simpa using hyield)
    · simp only [hlook]
      refine Or.inl ⟨h.look hcounter .yield (by simp) ?_ ⟨rfl, rfl, rfl⟩ ?_ ?_ ?_,
        _, _, _, _, rfl⟩
      · intro earlier hearlier
        cases earlier with
        | fallback => exact absurd hearlier h.goesOn
        | _ => simp [Phase.rank]
      · exact fun hnone => absurd hnone hsome
      · exact fun hne => (h.started hne).2
      · exact fun _ => hlt
    · simp only [hlook]
      obtain ⟨hlooks, hstart⟩ := h.started hsome
      have hlength : 1 ≤ s.looks.length := List.length_pos_iff.mpr hlooks
      exact Or.inr ⟨trivial, hstart, hlt, by omega⟩
  · simp only [State.backOff, if_neg hzero]
    refine Or.inl ⟨⟨?_, ?_, ?_, h.inPhases, h.notStarted, h.started, h.yielded, h.goesOn⟩,
      s.counter - 1, s.startTimeNs, .spin, s.looks, rfl⟩
    all_goals
      simp only [State.pause]
      omega

/-- The strategy has found the dependent sequence behind. -/
lemma Counts.backOff {start : Int} (h : Counts p b start s) :
    Counts p b start (s.backOff p s.strategy).1 := by
  have hpause : ∀ r : Pause × Int, ∀ startTimeNs looks,
      (ByCount s.strategy → r = (pauseAt p s.strategy s.behind,
        counterAt p s.strategy (s.behind + 1))) →
      (∀ fallback, s.strategy = .PhasedBackoff fallback →
        Backoff p start { s.pause r with startTimeNs := startTimeNs, looks := looks }) →
      Counts p b start { s.pause r with startTimeNs := startTimeNs, looks := looks } := by
    intro r startTimeNs looks hcount hclock
    refine ⟨h.clock, ?_, hclock, h.fellBack, ?_, h.first⟩
    · intro hby
      obtain rfl := hcount hby
      refine ⟨rfl, ?_⟩
      simp [State.pause, (h.byCount hby).2, List.range_succ]
    · have := h.finds
      simp only [State.pause]
      omega
  by_cases hby : ByCount s.strategy
  · rw [s.backOff_byCount p hby (h.byCount hby).1]
    refine hpause _ s.startTimeNs s.looks (fun _ => rfl) ?_
    intro fallback hfallback
    rw [hfallback] at hby
    exact hby.elim
  · obtain ⟨fallback, hfallback⟩ : ∃ fallback, s.strategy = .PhasedBackoff fallback := by
      revert hby
      cases s.strategy <;> simp [ByCount]
    rw [hfallback]
    rcases (h.byClock fallback hfallback).backOff h.clock fallback with
      ⟨hback, counter, startTimeNs, pause, looks, heq⟩ | ⟨heq, hstart, hlt, hbehind⟩
    · rw [heq] at hback ⊢
      exact hpause _ _ _ (fun hc => absurd hc hby) fun _ _ => hback
    · rw [heq]
      refine ⟨h.clock, fun _ => ⟨initialCounter_eq p fallback, rfl⟩, ?_, ?_, ?_, Or.inr ?_⟩
      · intro next hnext
        obtain rfl : fallback = .PhasedBackoff next := hnext
        exact backoff_enter p start rfl rfl rfl rfl
      · exact List.forall_mem_cons.mpr ⟨⟨hstart, le_refl _, hlt⟩, h.fellBack⟩
      · have := h.finds
        simp only [State.fallBack, List.length_cons]
        omega
      · simp [State.fallBack]

lemma State.backOff_ended (p : Parameters) (s : State ι) (strategy : WaitStrategy) :
    (s.backOff p strategy).1.ended = s.ended := by
  cases strategy with
  | PhasedBackoff fallback =>
    simp only [backOff]
    split_ifs
    · split <;> rfl
    · rfl
  | _ => rfl

/-- A call that has ended takes no step. -/
lemma State.ended_of_step (hs : s.step p b sequence i = some s') : s.ended = none := by
  unfold step at hs
  split_ifs at hs with hended
  simpa using hended

/-- Every step keeps the invariant. -/
lemma Inv.step {start : Int} (h : Inv p b start s) (hs : s.step p b sequence i = some s') :
    Inv p b start s' := by
  obtain ⟨hin, hcounts, -⟩ := h
  have hwait := hcounts.wait i.elapsed
  have hended := State.ended_of_step hs
  rcases State.step_cases hs hin with ⟨answer, rfl, hthrown⟩ |
    ⟨call, after, rfl, hwithin, rfl | rfl⟩
  · refine ⟨hin, hwait.goOn _ _, ?_⟩
    intro e he
    exact hthrown e (Option.some.inj he)
  · refine ⟨hwithin, hwait.goOn _ _, ?_⟩
    simp [State.wait, hended]
  · refine ⟨hwithin, hwait.backOff.goOn _ _, ?_⟩
    simp [State.backOff_ended, State.wait, hended]

/-- In every run of a call, a strategy that pauses by count pauses by its schedule:
`YieldingWaitStrategy` spins 100 times and yields from then on, `SleepingWaitStrategy` spins until
100 of its retries are left, yields for these, and sleeps from then on. -/
theorem pauses_byCount (p : Parameters) (b : Barrier ι) (sequence start : Int)
    (is : List (Input ι)) (s : State ι)
    (h : run (State.step p b sequence) (initial p b start) is = some s)
    (hby : ByCount s.strategy) :
    s.pauses.reverse = (List.range s.behind).map (pauseAt p s.strategy) := by
  have hinv := run_invariant (Inv p b start) (fun _ _ _ h hs => h.step hs)
    (inv_initial p b start) h
  rw [(hinv.counts.byCount hby).2, List.reverse_reverse]

/-- A consumer that sleeps after one retry finds the cursor behind three times. -/
theorem pauses_byCount_sleeping :
    ∃ s : State Empty,
      run (State.step { retries := 1 } ⟨.Sleeping, []⟩ 0) (initial { retries := 1 }
        ⟨.Sleeping, []⟩ 5) (List.replicate 7 { view := ⟨-1, Empty.elim, false, none⟩ }) = some s ∧
      s.pauses.reverse = [.yield, .sleep 100, .sleep 100] := by
  obtain ⟨s, hs, hstrategy, hbehind⟩ :
      ∃ s : State Empty,
        run (State.step { retries := 1 } ⟨.Sleeping, []⟩ 0) (initial { retries := 1 }
          ⟨.Sleeping, []⟩ 5) (List.replicate 7 { view := ⟨-1, Empty.elim, false, none⟩ }) =
            some s ∧ s.strategy = .Sleeping ∧ s.behind = 3 := ⟨_, rfl, rfl, rfl⟩
  have hpauses := pauses_byCount _ _ _ _ _ s hs (by rw [hstrategy]; trivial)
  rw [hstrategy, hbehind] at hpauses
  exact ⟨s, hs, hpauses⟩

/-- The cursor is behind the sequence 0, and nobody alerts. -/
def cursorBehind (elapsed : Nat) : Input Empty where
  view := ⟨-1, Empty.elim, false, none⟩
  elapsed := elapsed

end Disruptor.Pausing
