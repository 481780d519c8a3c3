import Disruptor.Core.Run
import Disruptor.EventProcessor.BatchEventProcessor
import Mathlib.Algebra.Group.Nat.Defs

/-!
# Rewind attempts

`retriesAttempted_` is set back when a batch is completed and when the strategy gives up. The start
of the batch moves in other cases too: an event is skipped after another exception, or a timeout or
an alert leaves the batch half done.
-/

namespace Disruptor.BatchEventProcessor

open Disruptor.Core

/-- `EventuallyGiveUpBatchRewindStrategy::handleRewindException(e, attempts)`. -/
def EventuallyGiveUpBatchRewindStrategy.handleRewindException (maxAttempts attempts : Int) :
    RewindAction :=
  if attempts = maxAttempts then .THROW else .REWIND

/-- The processor of a rewindable handler, with a strategy. -/
def rewindable (batchLimitOffset : Nat) : BatchEventProcessor where
  batchLimitOffset := batchLimitOffset
  rewindHandler := .TryRewindHandler false
  batchLimitOffset_nonneg := Int.natCast_nonneg _

/-- A `RewindableException` is thrown inside the inner `try`. -/
def Input.raises : Input → Bool
  | .waitFor (.error .RewindableException) | .onBatchStart (some .RewindableException)
  | .onEvent (some .RewindableException) => true
  | _ => false

/-- A batch is completed, or the strategy gives up. -/
def Input.resets : Input → Bool
  | .endOfBatch | .handleRewindException (.ok .THROW) => true
  | _ => false

def Input.rewinds : Input → Bool
  | .handleRewindException (.ok .REWIND) => true
  | _ => false

/-- A processor, with the history of its retries. -/
structure Retries where
  state : State
  /-- `startOfBatchSequence`. -/
  start : Int
  /-- The `RewindableException`s since the start of the batch last moved. -/
  raised : Nat := 0
  /-- Those since a batch was last completed, or the strategy last gave up. -/
  outstanding : Nat := 0
  /-- How often the batch was rewound since its start last moved. -/
  rewinds : Nat := 0

inductive RetryInput where
  | step (i : Input)
  /-- `run()` is called again. -/
  | run

namespace Retries

/-- The top of the loop, where the start of the batch may move. -/
def top (r : Retries) : Retries :=
  if r.state.pc = .waitFor ∧ r.state.nextSequence ≠ r.start then
    { r with start := r.state.nextSequence, raised := 0, rewinds := 0 }
  else r

def step (p : BatchEventProcessor) (r : Retries) : RetryInput → Option Retries
  | .step i => (p.step r.state i).map fun s => top
    { r with
      state := s
      raised := r.raised + i.raises.toNat
      outstanding := if i.resets then 0 else r.outstanding + i.raises.toNat
      rewinds := r.rewinds + i.rewinds.toNat }
  | .run =>
    match r.state.pc with
    | .exited _ => some <| top
      { r with
        state :=
          { enter r.state.sequence with retriesAttempted := r.state.retriesAttempted } }
    | _ => none

/-- A new processor, in `processEvents()`. -/
def initial (sequence : Int) : Retries where
  state := enter sequence
  start := sequence + 1

end Retries

/-- The strategy is told how many `RewindableException`s there were since the start of the batch
last moved; an `int` can hold the number. -/
def CountsRetries (x : Transition Retries RetryInput) : Prop :=
  ∀ i attempts answer, x.act = .step i →
    call x.pre.state i = some (.handleRewindException attempts answer) →
      attempts = x.pre.raised ∧ attempts < 2 ^ 31

/-- The strategy is an `EventuallyGiveUpBatchRewindStrategy(maxAttempts)`. -/
def AnsweredBy (maxAttempts : Int) (x : Transition Retries RetryInput) : Prop :=
  ∀ i attempts answer, x.act = .step i →
    call x.pre.state i = some (.handleRewindException attempts answer) →
      answer = .ok (EventuallyGiveUpBatchRewindStrategy.handleRewindException maxAttempts attempts)

/-- The strategy gives up when the batch has been rewound `maxAttempts - 1` times to its start, and
not before. -/
def GivesUpAfter (maxAttempts : Int) (x : Transition Retries RetryInput) : Prop :=
  ∀ i attempts answer, x.act = .step i →
    call x.pre.state i = some (.handleRewindException attempts answer) →
      (answer = .ok .THROW ↔ (x.pre.rewinds : Int) = maxAttempts - 1)

/-- When the strategy is asked, the `RewindableException`s since the last completed batch, or since
the strategy last gave up, have all been thrown since the start of the batch last moved; and an
`int` can hold their number. -/
def NoneCarriedOver (x : Transition Retries RetryInput) : Prop :=
  ∀ answer, x.act = .step (.handleRewindException answer) →
    x.pre.outstanding = x.pre.raised ∧ x.pre.raised < 2 ^ 31

variable {r r' : Retries} {s s' : State} {i : Input} {batchLimitOffset : Nat}

/-! ### What a step does -/

/-- An exception is about to be reported, or has been, so the event will be skipped. -/
def Pc.Reported : Pc → Prop
  | .handleEventException | .failed => True
  | _ => False

/-- The exceptions that the strategy has not been asked about. -/
def Pc.asked : Pc → Nat
  | .attemptRewind _ => 1
  | _ => 0

/-- The strategy is asked. -/
def Input.asks : Input → Bool
  | .handleRewindException _ => true
  | _ => false

/-- What a step does to the retries. -/
structure StepRetries (s s' : State) (i : Input) : Prop where
  retriesAttempted : s'.retriesAttempted =
    if i.resets then 0 else s.retriesAttempted + (i.raises.toNat : Int)
  nextSequence : s'.pc = .waitFor ∨ s.nextSequence ≤ s'.nextSequence
  asked : i.asks = false → ¬ s.pc.Reported →
    s'.pc.Reported ∨ s'.pc.asked = s.pc.asked + i.raises.toNat
  reported : s.pc.Reported →
    s'.pc.Reported ∨ s'.pc = .waitFor ∧ s.nextSequence < s'.nextSequence

/-- A step inside a batch. -/
lemma stepRetries_of_quiet (hretries : s'.retriesAttempted = s.retriesAttempted)
    (hnext : s.nextSequence ≤ s'.nextSequence) (hreported : ¬ s.pc.Reported)
    (hasked : s'.pc.asked = s.pc.asked) (hresets : i.resets = false) (hraises : i.raises = false) :
    StepRetries s s' i := by
  refine ⟨?_, Or.inr hnext, fun _ _ => Or.inr ?_, fun h => absurd h hreported⟩
  · simp [hretries, hresets, hraises]
  · simp [hasked, hraises]

lemma nextEvent_asked (s : State) (start endOfBatch : Int) :
    (s.nextEvent start endOfBatch).pc.asked = 0 := by
  unfold State.nextEvent
  split_ifs <;> rfl

/-- A step that throws inside the inner `try`. -/
lemma stepRetries_throwException {start : Int} {e : Exception} {event : Option Int}
    (hreported : ¬ s.pc.Reported) (hasked : s.pc.asked = 0) (hresets : i.resets = false)
    (hraises : i.raises = decide (e = .RewindableException)) :
    StepRetries s
      ({ s with event := event }.throwException (rewindable batchLimitOffset) start e) i := by
  constructor
  · simp only [hresets, hraises]
    cases e <;>
      simp [State.throwException, State.catchRewindable, State.catchException, rewindable]
  · right
    cases e <;>
      simp [State.throwException, State.catchRewindable, State.catchException, rewindable]
  · intro _ _
    simp only [hasked, hraises]
    cases e <;>
      simp [State.throwException, State.catchRewindable, State.catchException, rewindable,
        Pc.asked, Pc.Reported]
  · exact fun h => absurd h hreported

lemma stepRetries (hs : (rewindable batchLimitOffset).step s i = some s') :
    StepRetries s s' i := by
  cases step_iff.mp hs with
  | available hpc =>
    have hquiet : ¬ s.pc.Reported ∧ s.pc.asked = 0 := by simp [hpc, Pc.Reported, Pc.asked]
    unfold State.available
    dsimp only
    split_ifs
    · exact stepRetries_of_quiet rfl le_rfl hquiet.1 rfl rfl rfl
    · exact stepRetries_of_quiet rfl le_rfl hquiet.1 hquiet.2.symm rfl rfl
    · apply stepRetries_of_quiet _ _ hquiet.1 _ rfl rfl
      · simp
      · simp
      · exact (nextEvent_asked _ _ _).trans hquiet.2.symm
  | onBatchStart hpc | onEvent hpc =>
    apply stepRetries_of_quiet _ _ _ _ rfl rfl
    · simp
    · simp
    · simp [hpc, Pc.Reported]
    · exact (nextEvent_asked _ _ _).trans (by simp [hpc, Pc.asked])
  | @waitForThrows e hpc | @onBatchStartThrows _ _ _ e hpc | @onEventThrows _ _ e hpc =>
    apply stepRetries_throwException
    · simp [hpc, Pc.Reported]
    · simp [hpc, Pc.asked]
    · rfl
    · cases e <;> rfl
  | endOfBatch hpc =>
    constructor
    · rfl
    · exact Or.inl rfl
    · intro _ _
      right
      simp [hpc, Pc.asked, Input.raises]
    · simp [hpc, Pc.Reported]
  | rewinds hpc =>
    refine ⟨by simp [Input.resets, Input.raises], Or.inl rfl, ?_, ?_⟩
    · rintro ⟨⟩
    · simp [hpc, Pc.Reported]
  | rethrows hpc =>
    refine ⟨rfl, Or.inr le_rfl, ?_, ?_⟩
    · rintro ⟨⟩
    · simp [hpc, Pc.Reported]
  | @strategyThrows _ e hpc =>
    refine ⟨?_, Or.inr (by simp), ?_, ?_⟩
    · cases e <;> simp [State.catchException, Input.resets, Input.raises]
    · rintro ⟨⟩
    · simp [hpc, Pc.Reported]
  | onTimeout hpc | onTimeoutThrows hpc | onTimeoutEscapes hpc | timeoutHandled hpc =>
    refine stepRetries_of_quiet rfl le_rfl ?_ ?_ rfl rfl
    · simp [hpc, Pc.Reported]
    · simp [hpc, Pc.asked]
  | handled hpc =>
    refine ⟨by simp [Input.resets, Input.raises], Or.inr le_rfl, fun _ _ => Or.inl trivial, ?_⟩
    exact fun _ => Or.inl trivial
  | checkRunning hpc =>
    refine stepRetries_of_quiet rfl le_rfl ?_ ?_ rfl rfl
    · simp [hpc, Pc.Reported]
    · dsimp only
      split_ifs <;> simp [hpc, Pc.asked]
  | skip hpc =>
    refine ⟨by simp [Input.resets, Input.raises], Or.inl rfl, ?_, ?_⟩
    · intro _ hreported
      exact absurd (by simp [hpc, Pc.Reported]) hreported
    · exact fun _ => Or.inr ⟨rfl, Int.lt_succ _⟩
  | halt =>
    refine ⟨by simp [State.halt, Input.resets, Input.raises], Or.inr le_rfl, ?_, Or.inl⟩
    exact fun _ _ => Or.inr rfl

/-! ### The number that the strategy is told -/

lemma Retries.top_state (r : Retries) : r.top.state = r.state := by
  unfold Retries.top
  split_ifs <;> rfl

lemma Retries.top_outstanding (r : Retries) : r.top.outstanding = r.outstanding := by
  unfold Retries.top
  split_ifs <;> rfl

/-- `retriesAttempted_` counts what has been thrown since it was set back. -/
def Retries.Counted (r : Retries) : Prop := r.state.retriesAttempted = r.outstanding

lemma Retries.Counted.step (h : r.Counted) {a : RetryInput}
    (hs : r.step (rewindable batchLimitOffset) a = some r') : r'.Counted := by
  unfold Retries.Counted at h ⊢
  cases a with
  | step i =>
    obtain ⟨s', hstep, rfl⟩ := Option.map_eq_some_iff.mp hs
    rw [top_state, top_outstanding]
    simp only [(stepRetries hstep).retriesAttempted, h]
    split_ifs <;> simp
  | run =>
    simp only [Retries.step] at hs
    split at hs
    · obtain rfl := Option.some.inj hs
      rw [top_state, top_outstanding]
      exact h
    · cases hs

/-- The strategy is told the value of `retriesAttempted_`. -/
lemma call_eq_handleRewindException {attempts : Int} {answer : Except Exception RewindAction}
    (h : call s i = some (.handleRewindException attempts answer)) :
    i = .handleRewindException answer ∧ attempts = s.retriesAttempted ∧
      ∃ start, s.pc = .attemptRewind start := by
  cases i with
  | handleRewindException answer' =>
    simp only [call] at h
    split at h
    · rename_i start hpc
      cases h
      exact ⟨rfl, rfl, start, hpc⟩
    · cases h
  | onBatchStart _ | onEvent _ | onTimeout _ =>
    simp only [call] at h
    split at h <;> cases h
  | handleEventException _ =>
    simp only [call] at h
    split at h <;> cases h
  | waitFor _ | endOfBatch | checkRunning | skip | halt => cases h

lemma call_handleRewindException {p : BatchEventProcessor}
    {answer : Except Exception RewindAction}
    (hs : p.step s (.handleRewindException answer) = some s') :
    call s (.handleRewindException answer) =
      some (.handleRewindException s.retriesAttempted answer) := by
  cases step_iff.mp hs with
  | rewinds hpc | rethrows hpc | strategyThrows hpc => simp [call, hpc]

/-! ### Giving up -/

/-- At each start of a batch, the strategy has been asked about every exception but the last, and
has answered `REWIND`. -/
structure Retries.Balanced (r : Retries) : Prop where
  start_le : r.start ≤ r.state.nextSequence
  balanced : r.state.pc.Reported ∨ r.raised = r.rewinds + r.state.pc.asked

lemma Retries.top_balanced {r : Retries}
    (hstart : r.state.pc = .waitFor ∨ r.start ≤ r.state.nextSequence)
    (hbalanced : r.state.pc.Reported ∨ r.raised = r.rewinds + r.state.pc.asked ∨
      r.state.pc = .waitFor ∧ r.start < r.state.nextSequence) : r.top.Balanced := by
  unfold Retries.top
  split_ifs with hmoves
  · refine ⟨le_rfl, Or.inr ?_⟩
    simp [hmoves.1, Pc.asked]
  · have hstays : r.state.pc = .waitFor → r.state.nextSequence = r.start := by
      intro hpc
      by_contra hne
      exact hmoves ⟨hpc, hne⟩
    constructor
    · rcases hstart with hpc | hle
      · exact (hstays hpc).ge
      · exact hle
    · rcases hbalanced with hreported | hraised | ⟨hpc, hlt⟩
      · exact Or.inl hreported
      · exact Or.inr hraised
      · exact absurd (hstays hpc) hlt.ne'

lemma Retries.Balanced.step (h : r.Balanced) {a : RetryInput} {maxAttempts : Int}
    (hs : r.step (rewindable batchLimitOffset) a = some r')
    (hanswered : AnsweredBy maxAttempts ⟨r, a, r'⟩) : r'.Balanced := by
  cases a with
  | run =>
    simp only [Retries.step] at hs
    split at hs
    · rename_i thrown hpc
      obtain rfl := Option.some.inj hs
      have hraised := h.balanced
      rw [hpc] at hraised
      apply top_balanced
      · exact Or.inl rfl
      · exact Or.inr (Or.inl (hraised.resolve_left id))
    · cases hs
  | step i =>
    obtain ⟨s', hstep, rfl⟩ := Option.map_eq_some_iff.mp hs
    have hretries := stepRetries hstep
    apply top_balanced
    · exact hretries.nextSequence.imp_right h.start_le.trans
    · cases hasks : i.asks with
      | true =>
        cases i with
        | handleRewindException answer =>
          have hcall := call_handleRewindException hstep
          obtain ⟨-, -, start, hpc⟩ := call_eq_handleRewindException hcall
          have hanswer := hanswered _ _ answer rfl hcall
          have hraised := h.balanced
          rw [hpc] at hraised
          have hraised := hraised.resolve_left id
          unfold EventuallyGiveUpBatchRewindStrategy.handleRewindException at hanswer
          split_ifs at hanswer with hlast
          · -- the strategy gives up
            subst hanswer
            cases step_iff.mp hstep with
            | rethrows => exact Or.inl trivial
          · subst hanswer
            cases step_iff.mp hstep with
            | rewinds => exact Or.inr (Or.inl hraised)
        | _ => cases hasks
      | false =>
        have hrewinds : i.rewinds = false := by
          cases i <;> first | rfl | cases hasks
        simp only [hrewinds, Bool.toNat_false, Nat.add_zero]
        by_cases hreported : r.state.pc.Reported
        · rcases hretries.reported hreported with hreported' | ⟨hpc, hlt⟩
          · exact Or.inl hreported'
          · exact Or.inr (Or.inr ⟨hpc, lt_of_le_of_lt h.start_le hlt⟩)
        · rcases hretries.asked hasks hreported with hreported' | hasked
          · exact Or.inl hreported'
          · refine Or.inr (Or.inl ?_)
            rw [hasked, h.balanced.resolve_left hreported, Nat.add_assoc]

lemma Retries.counted_initial (sequence : Int) : (initial sequence).Counted := rfl

lemma Retries.balanced_initial (sequence : Int) : (initial sequence).Balanced :=
  ⟨le_rfl, Or.inr rfl⟩

/-- The strategy is told what it is to be told just when nothing is carried over. -/
lemma counts_iff_noneCarriedOver {sequence : Int} {inputs : List RetryInput} :
    (∀ x ∈ transitions (Retries.step (rewindable batchLimitOffset)) (.initial sequence) inputs,
      CountsRetries x) ↔
      ∀ x ∈ transitions (Retries.step (rewindable batchLimitOffset)) (.initial sequence) inputs,
        NoneCarriedOver x := by
  apply transitions_forall_iff Retries.Counted
  · intro r a r' h hs hnone
    refine ⟨h.step hs, ?_⟩
    rintro i attempts answer rfl hcall
    obtain ⟨rfl, rfl, -⟩ := call_eq_handleRewindException hcall
    obtain ⟨hsame, hlt⟩ := hnone answer rfl
    have hcounted : r.state.retriesAttempted = r.outstanding := h
    simp only at hsame hlt ⊢
    omega
  · rintro r a r' h hs hcounts answer rfl
    obtain ⟨s', hstep, -⟩ := Option.map_eq_some_iff.mp hs
    have hcount := hcounts _ _ answer rfl (call_handleRewindException hstep)
    have hcounted : r.state.retriesAttempted = r.outstanding := h
    simp only at hcount ⊢
    omega
  · exact Retries.counted_initial sequence

/-- A strategy that is told the right numbers gives up after as many rewinds as it is to. -/
lemma givesUpAfter_of_counts {sequence maxAttempts : Int} {inputs : List RetryInput}
    (hcounts : ∀ x ∈ transitions (Retries.step (rewindable batchLimitOffset)) (.initial sequence)
      inputs, CountsRetries x)
    (hanswered : ∀ x ∈ transitions (Retries.step (rewindable batchLimitOffset)) (.initial sequence)
      inputs, AnsweredBy maxAttempts x) :
    ∀ x ∈ transitions (Retries.step (rewindable batchLimitOffset)) (.initial sequence) inputs,
      GivesUpAfter maxAttempts x := by
  intro x hx i attempts answer hact hcall
  have hbalanced := transitions_invariant Retries.Balanced (AnsweredBy maxAttempts)
    (fun _ _ _ h hs hanswered => h.step hs hanswered) (Retries.balanced_initial sequence)
    hanswered x hx
  have hattempts := hcounts x hx i attempts answer hact hcall
  have hanswer := hanswered x hx i attempts answer hact hcall
  obtain ⟨-, -, start, hpc⟩ := call_eq_handleRewindException hcall
  have hraised := hbalanced.1.balanced
  rw [hpc] at hraised
  have hraised : x.pre.raised = x.pre.rewinds + 1 := hraised.resolve_left id
  rw [hanswer]
  unfold EventuallyGiveUpBatchRewindStrategy.handleRewindException
  split_ifs with hlast
  · refine iff_of_true rfl ?_
    omega
  · refine iff_of_false (by simp) ?_
    omega

/-- The strategy is always told how many `RewindableException`s there were since the start of the
batch last moved, and an `EventuallyGiveUpBatchRewindStrategy` gives up after as many rewinds as it
is to, just when no exception that the strategy has not given up on is left over from an earlier
start. -/
theorem countsRetries_iff {sequence : Int} {inputs : List RetryInput} :
    ((∀ x ∈ transitions (Retries.step (rewindable batchLimitOffset)) (.initial sequence) inputs,
        CountsRetries x) ∧
      ∀ maxAttempts,
        (∀ x ∈ transitions (Retries.step (rewindable batchLimitOffset)) (.initial sequence) inputs,
          AnsweredBy maxAttempts x) →
        ∀ x ∈ transitions (Retries.step (rewindable batchLimitOffset)) (.initial sequence) inputs,
          GivesUpAfter maxAttempts x) ↔
      ∀ x ∈ transitions (Retries.step (rewindable batchLimitOffset)) (.initial sequence) inputs,
        NoneCarriedOver x := by
  rw [← counts_iff_noneCarriedOver]
  exact ⟨And.left, fun hcounts => ⟨hcounts, fun _ => givesUpAfter_of_counts hcounts⟩⟩

/-- The first batch fails on another exception after a rewind; the second one is told of two
attempts when it fails for the first time. -/
def failThenRewind : List Input :=
  [.waitFor (.ok 1), .onBatchStart none, .onEvent (some .RewindableException),
    .handleRewindException (.ok .REWIND), .waitFor (.ok 1), .onBatchStart none,
    .onEvent (some .exception), .handleEventException true, .skip, .waitFor (.ok 1),
    .onBatchStart none, .onEvent (some .RewindableException)]

/-- An `EventuallyGiveUpBatchRewindStrategy(2)` gives up on the second batch at once. -/
theorem failThenRewind_carriesOver :
    ∃ r, run (Retries.step (rewindable 0)) (.initial (-1)) (failThenRewind.map .step) = some r ∧
      r.raised = 1 ∧ r.rewinds = 0 ∧
      call r.state (.handleRewindException (.ok .THROW)) =
        some (.handleRewindException 2 (.ok .THROW)) ∧
      EventuallyGiveUpBatchRewindStrategy.handleRewindException 2 2 = .THROW :=
  ⟨_, rfl, rfl, rfl, rfl, rfl⟩

/-! ### When nothing is carried over -/

/-- The barrier throws its own exceptions, the handler a `RewindableException`, the strategy none,
and `run()` is not called again. -/
def RetryInput.Rewinding : RetryInput → Prop
  | .step (.waitFor (.error e)) => e = .TimeoutException ∨ e = .AlertException
  | .step (.onBatchStart (some e)) | .step (.onEvent (some e)) => e = .RewindableException
  | .step (.handleRewindException (.error _)) | .run => False
  | _ => True

/-- While `RewindableException`s are outstanding, the handler throws no other exception: no event
is skipped, and no timeout or alert leaves the batch half done. An `int` can hold their number. -/
def RewindsOnly (x : Transition Retries RetryInput) : Prop :=
  x.pre.outstanding < 2 ^ 31 ∧ (x.pre.outstanding ≠ 0 → x.act.Rewinding)

/-- What is known of the start of the batch at each place. -/
def Retries.InBatch (r : Retries) : Pc → Prop
  | .waitFor => r.state.nextSequence = r.start
  | .onBatchStart start endOfBatch _ =>
    start = r.start ∧ r.state.nextSequence = r.start ∧ r.start ≤ endOfBatch
  | .onEvent start endOfBatch => start = r.start ∧ r.state.nextSequence ≤ endOfBatch
  | .endOfBatch _ => r.start < r.state.nextSequence
  | .attemptRewind start => start = r.start
  | .onTimeout | .onTimeoutFailed _ | .alerted =>
    r.outstanding = 0 ∨ r.state.nextSequence = r.start
  | .handleEventException | .failed => r.outstanding = 0
  | .exited _ => True

/-- The start of the batch has not moved while exceptions are outstanding. -/
structure Retries.Whole (r : Retries) : Prop where
  start_le : r.start ≤ r.state.nextSequence
  inBatch : r.InBatch r.state.pc
  counted : r.state.pc.Reported ∨ r.outstanding = r.raised

/-- At the top of the loop the start may move if nothing is outstanding. -/
lemma Retries.top_whole {r : Retries}
    (hstays : r.state.pc = .waitFor → r.state.nextSequence = r.start → r.outstanding = r.raised)
    (hmoves : r.state.pc = .waitFor → r.state.nextSequence ≠ r.start → r.outstanding = 0)
    (hinside : r.state.pc ≠ .waitFor → r.Whole) : r.top.Whole := by
  unfold Retries.top
  split_ifs with hmove
  · refine ⟨le_rfl, ?_, Or.inr (hmoves hmove.1 hmove.2)⟩
    rw [hmove.1]
    rfl
  · by_cases hpc : r.state.pc = .waitFor
    · have hsame : r.state.nextSequence = r.start := by
        by_contra hne
        exact hmove ⟨hpc, hne⟩
      refine ⟨hsame.ge, ?_, Or.inr (hstays hpc hsame)⟩
      rw [hpc]
      exact hsame
    · exact hinside hpc

/-- The inner loop goes on or ends. -/
lemma Retries.whole_nextEvent {r : Retries} {start endOfBatch : Int}
    (hle : r.start ≤ r.state.nextSequence) (hstart : start = r.start)
    (hmore : r.state.nextSequence ≤ endOfBatch ∨ r.start < r.state.nextSequence)
    (hcount : r.outstanding = r.raised) :
    (top { r with state := r.state.nextEvent start endOfBatch }).Whole := by
  unfold State.nextEvent
  split_ifs with hlast
  · refine top_whole (by rintro ⟨⟩) (by rintro ⟨⟩) fun _ => ?_
    exact ⟨hle, ⟨hstart, hlast⟩, Or.inr hcount⟩
  · refine top_whole (by rintro ⟨⟩) (by rintro ⟨⟩) fun _ => ?_
    exact ⟨hle, hmore.resolve_left hlast, Or.inr hcount⟩

/-- `waitFor` has returned. -/
lemma Retries.whole_available {r : Retries} (hpc : r.state.pc = .waitFor)
    (hstart : r.state.nextSequence = r.start) (hcount : r.outstanding = r.raised)
    (availableSequence : Int) :
    (top { r with
      state := r.state.available (rewindable batchLimitOffset) availableSequence }).Whole := by
  have hoffset := (rewindable batchLimitOffset).batchLimitOffset_nonneg
  unfold State.available
  dsimp only
  split_ifs with hless hmore
  · exact top_whole (fun _ _ => hcount) (fun _ hne => absurd hstart hne) fun hne => absurd hpc hne
  · refine top_whole (by rintro ⟨⟩) (by rintro ⟨⟩) fun _ => ?_
    exact ⟨hstart.ge, ⟨hstart, hstart, hstart.symm.trans_le hmore⟩, Or.inr hcount⟩
  · exact absurd (le_min (by omega) (by omega)) hmore

/-- An exception is thrown inside the inner `try`. -/
lemma Retries.Whole.throwException (h : r.Whole) {start : Int} {e : Exception}
    {event : Option Int} (hreported : ¬ r.state.pc.Reported) (hstart : start = r.start)
    (hresets : i.resets = false) (hraises : i.raises = decide (e = .RewindableException))
    (he : r.outstanding ≠ 0 → e = .RewindableException ∨
      (e = .TimeoutException ∨ e = .AlertException) ∧ r.state.nextSequence = r.start) :
    (top { r with
      state :=
        { r.state with event := event }.throwException (rewindable batchLimitOffset) start e
      raised := r.raised + i.raises.toNat
      outstanding := if i.resets then 0 else r.outstanding + i.raises.toNat
      rewinds := r.rewinds + i.rewinds.toNat }).Whole := by
  have hcount := h.counted.resolve_left hreported
  have hnone : r.outstanding = 0 ∨ r.outstanding ≠ 0 := eq_or_ne _ _
  rw [hraises, hresets]
  cases e with
  | RewindableException =>
    refine top_whole (by rintro ⟨⟩) (by rintro ⟨⟩) fun _ => ⟨h.start_le, hstart, Or.inr ?_⟩
    exact congrArg Nat.succ hcount
  | TimeoutException | AlertException =>
    refine top_whole (by rintro ⟨⟩) (by rintro ⟨⟩) fun _ => ⟨h.start_le, ?_, Or.inr hcount⟩
    exact hnone.imp_right fun hne => ((he hne).resolve_left (by simp)).2
  | exception =>
    refine top_whole (by rintro ⟨⟩) (by rintro ⟨⟩) fun _ => ⟨h.start_le, ?_, Or.inr hcount⟩
    exact hnone.resolve_right fun hne => by simpa using he hne
  | other =>
    exact top_whole (by rintro ⟨⟩) (by rintro ⟨⟩) fun _ => ⟨h.start_le, trivial, Or.inr hcount⟩

/-- Each step keeps the start of the batch while exceptions are outstanding. -/
lemma Retries.Whole.step (h : r.Whole) (hi : r.outstanding ≠ 0 → (RetryInput.step i).Rewinding)
    (hs : (rewindable batchLimitOffset).step r.state i = some s') :
    (top { r with
      state := s'
      raised := r.raised + i.raises.toNat
      outstanding := if i.resets then 0 else r.outstanding + i.raises.toNat
      rewinds := r.rewinds + i.rewinds.toNat }).Whole := by
  have hle := h.start_le
  have hat := h.inBatch
  have hcount : ¬ r.state.pc.Reported → r.outstanding = r.raised := h.counted.resolve_left
  cases step_iff.mp hs with
  | available hpc =>
    have hcount := hcount (by simp [hpc, Pc.Reported])
    rw [hpc] at hat
    exact whole_available (r := { r with raised := _, outstanding := _, rewinds := _ }) hpc hat
      hcount _
  | @waitForThrows e hpc =>
    rw [hpc] at hat
    refine h.throwException (by simp [hpc, Pc.Reported]) hat rfl (by cases e <;> rfl) ?_
    exact fun hne => Or.inr ⟨hi hne, hat⟩
  | onBatchStart hpc =>
    have hcount := hcount (by simp [hpc, Pc.Reported])
    rw [hpc] at hat
    obtain ⟨hstart, hnext, hend⟩ := hat
    exact whole_nextEvent (r := { r with raised := _, outstanding := _, rewinds := _ }) hle hstart
      (Or.inl (hnext ▸ hend)) hcount
  | @onBatchStartThrows _ _ _ e hpc =>
    rw [hpc] at hat
    refine h.throwException (by simp [hpc, Pc.Reported]) hat.1 rfl (by cases e <;> rfl) ?_
    exact fun hne => Or.inl (hi hne)
  | onEvent hpc =>
    have hcount := hcount (by simp [hpc, Pc.Reported])
    rw [hpc] at hat
    refine whole_nextEvent (r := { r with
      state :=
        { r.state with
          event := some r.state.nextSequence
          nextSequence := r.state.nextSequence + 1 }
      raised := _
      outstanding := _
      rewinds := _ }) ?_ hat.1 (Or.inr ?_) hcount
    · simp only
      omega
    · simp only
      omega
  | @onEventThrows _ _ e hpc =>
    rw [hpc] at hat
    refine h.throwException (by simp [hpc, Pc.Reported]) hat.1 rfl (by cases e <;> rfl) ?_
    exact fun hne => Or.inl (hi hne)
  | endOfBatch hpc =>
    rw [hpc] at hat
    exact top_whole (fun _ hsame => absurd hsame hat.ne') (fun _ _ => rfl) fun hne =>
      absurd rfl hne
  | rewinds hpc =>
    have hcount := hcount (by simp [hpc, Pc.Reported])
    rw [hpc] at hat
    exact top_whole (fun _ _ => hcount) (fun _ hne => absurd hat hne) fun hne => absurd rfl hne
  | rethrows hpc =>
    refine top_whole (by rintro ⟨⟩) (by rintro ⟨⟩) fun _ => ?_
    exact ⟨hle, rfl, Or.inl trivial⟩
  | @strategyThrows _ e hpc =>
    have hcount := hcount (by simp [hpc, Pc.Reported])
    have hnone : r.outstanding = 0 := by
      by_contra hne
      exact hi hne
    refine top_whole ?_ ?_ fun _ => ⟨by simpa using hle, ?_, Or.inr hcount⟩
    · exact fun _ _ => hcount
    · exact fun _ _ => hnone
    · cases e with
      | TimeoutException | AlertException => exact Or.inl hnone
      | RewindableException | exception => exact hnone
      | other => trivial
  | onTimeout hpc | timeoutHandled hpc =>
    have hcount := hcount (by simp [hpc, Pc.Reported])
    rw [hpc] at hat
    exact top_whole (fun _ _ => hcount) (fun _ hne => hat.resolve_right hne) fun hne =>
      absurd rfl hne
  | onTimeoutThrows hpc =>
    have hcount := hcount (by simp [hpc, Pc.Reported])
    rw [hpc] at hat
    exact top_whole (by rintro ⟨⟩) (by rintro ⟨⟩) fun _ => ⟨hle, hat, Or.inr hcount⟩
  | onTimeoutEscapes hpc =>
    have hcount := hcount (by simp [hpc, Pc.Reported])
    exact top_whole (by rintro ⟨⟩) (by rintro ⟨⟩) fun _ => ⟨hle, trivial, Or.inr hcount⟩
  | handled hpc =>
    rw [hpc] at hat
    exact top_whole (by rintro ⟨⟩) (by rintro ⟨⟩) fun _ => ⟨hle, hat, Or.inl trivial⟩
  | checkRunning hpc =>
    have hcount := hcount (by simp [hpc, Pc.Reported])
    rw [hpc] at hat
    refine top_whole (fun _ _ => hcount) (fun _ hne => hat.resolve_right hne) fun hne => ?_
    have hhalted : r.state.running ≠ .RUNNING := by
      intro hrunning
      simp [hrunning] at hne
    refine ⟨hle, ?_, Or.inr hcount⟩
    simp only [if_pos hhalted]
    trivial
  | skip hpc =>
    rw [hpc] at hat
    refine top_whole (fun _ hsame => ?_) (fun _ _ => hat) fun hne => absurd rfl hne
    simp only at hsame
    omega
  | halt =>
    refine top_whole (fun hpc _ => ?_) (fun hpc hne => ?_) fun _ => ⟨hle, ?_, h.counted⟩
    · have hpc' : r.state.pc = .waitFor := hpc
      exact hcount (by simp [hpc', Pc.Reported])
    · have hpc' : r.state.pc = .waitFor := hpc
      rw [hpc'] at hat
      exact absurd hat hne
    · show Retries.InBatch _ r.state.pc
      revert hat
      cases r.state.pc <;> exact id

lemma Retries.whole_initial (sequence : Int) : (initial sequence).Whole :=
  ⟨le_rfl, rfl, Or.inr rfl⟩

lemma Retries.Whole.retryStep (h : r.Whole) {a : RetryInput}
    (hs : r.step (rewindable batchLimitOffset) a = some r') (ha : RewindsOnly ⟨r, a, r'⟩) :
    r'.Whole := by
  cases a with
  | step i =>
    obtain ⟨s', hstep, rfl⟩ := Option.map_eq_some_iff.mp hs
    exact h.step ha.2 hstep
  | run =>
    have hnone : r.outstanding = 0 := by
      by_contra hne
      exact ha.2 hne
    simp only [Retries.step] at hs
    split at hs
    · rename_i thrown hpc
      obtain rfl := Option.some.inj hs
      have hcount := h.counted.resolve_left (by simp [hpc, Pc.Reported])
      exact top_whole (fun _ _ => hcount) (fun _ _ => hnone) fun hne => absurd rfl hne
    · cases hs

/-- When nothing but `RewindableException`s is thrown while some are outstanding, the strategy is
always told how many there were since the start of the batch last moved, and an
`EventuallyGiveUpBatchRewindStrategy` gives up after as many rewinds as it is to. -/
theorem countsRetries_of_rewindsOnly {sequence : Int} {inputs : List RetryInput}
    (h : ∀ x ∈ transitions (Retries.step (rewindable batchLimitOffset)) (.initial sequence) inputs,
      RewindsOnly x) :
    (∀ x ∈ transitions (Retries.step (rewindable batchLimitOffset)) (.initial sequence) inputs,
      CountsRetries x) ∧
      ∀ maxAttempts,
        (∀ x ∈ transitions (Retries.step (rewindable batchLimitOffset)) (.initial sequence) inputs,
          AnsweredBy maxAttempts x) →
        ∀ x ∈ transitions (Retries.step (rewindable batchLimitOffset)) (.initial sequence) inputs,
          GivesUpAfter maxAttempts x := by
  have hwhole := transitions_invariant Retries.Whole RewindsOnly
    (fun _ _ _ h hs hx => h.retryStep hs hx) (Retries.whole_initial sequence) h
  suffices hcounts : ∀ x ∈ transitions (Retries.step (rewindable batchLimitOffset))
      (.initial sequence) inputs, NoneCarriedOver x by
    have hcounts := counts_iff_noneCarriedOver.mpr hcounts
    exact ⟨hcounts, fun _ => givesUpAfter_of_counts hcounts⟩
  intro x hx answer hact
  have hpre := (hwhole x hx).1
  have hs := (mem_transitions hx).2
  rw [hact] at hs
  obtain ⟨s', hstep, -⟩ := Option.map_eq_some_iff.mp hs
  obtain ⟨-, -, start, hpc⟩ := call_eq_handleRewindException (call_handleRewindException hstep)
  have hcount := hpre.counted.resolve_left (by simp [hpc, Pc.Reported])
  exact ⟨hcount, hcount ▸ (h x hx).1⟩

end Disruptor.BatchEventProcessor
