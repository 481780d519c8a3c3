import Disruptor.Core.Run
import Disruptor.EventProcessor.Progress

/-!
# Handlers with a sequence callback

`BatchEventProcessorBuilder::build` hands a handler the `sequence_` of its processor. A handler may
move it to an event of the batch that it is in, so that what waits for the processor need not wait
for the end of the batch. `EarlyReleaseHandler` of the examples does so after every 21 events.
-/

namespace Disruptor.BatchEventProcessor

open Disruptor.Core

/-- A handler that is given the sequence of its processor: what `onEvent(event, sequence,
endOfBatch)` does to its fields, and whether it sets the sequence to that of the event. -/
structure ReportingHandler (σ : Type) where
  onEvent : σ → Bool → σ × Bool

/-- `EarlyReleaseHandler`, with its `batchRemaining_`. -/
def EarlyReleaseHandler : ReportingHandler Int where
  onEvent batchRemaining endOfBatch :=
    let logicalChunkOfWorkComplete := decide (batchRemaining - 1 = -1)
    (if logicalChunkOfWorkComplete || endOfBatch then 20 else batchRemaining - 1,
      logicalChunkOfWorkComplete)

/-- A processor with such a handler, and the calls that it has made, the latest first. -/
structure Reporting (σ : Type) where
  processor : State
  handler : σ
  calls : List Call := []

variable {σ : Type}

/-- What the handler has done to `sequence_` and to its own fields when it returns from `onEvent`
for the event `nextSequence`. -/
def Reporting.handled (h : ReportingHandler σ) (s : Reporting σ) : Input → State × σ
  | .onEvent none =>
    match s.processor.pc with
    | .onEvent _ endOfBatch =>
      let r := h.onEvent s.handler (decide (s.processor.nextSequence = endOfBatch))
      (if r.2 then { s.processor with sequence := s.processor.nextSequence } else s.processor, r.1)
    | _ => (s.processor, s.handler)
  | _ => (s.processor, s.handler)

/-- One step of `processEvents`. -/
def Reporting.step (p : BatchEventProcessor) (h : ReportingHandler σ) (s : Reporting σ)
    (i : Input) : Option (Reporting σ) :=
  (p.step (s.handled h i).1 i).map fun processor =>
    { processor := processor
      handler := (s.handled h i).2
      calls := (call s.processor i).toList ++ s.calls }

/-! ### What is released was dealt with -/

/-- What `processEvents` knows at each of its places. -/
def ReleasedAt (Allowed : Int → Prop) (calls : List Call) (s : State) : Pc → Prop
  | .onBatchStart start endOfBatch _ =>
    start = s.nextSequence ∧ s.nextSequence ≤ endOfBatch ∧ Allowed endOfBatch
  | .onEvent _ endOfBatch => s.nextSequence ≤ endOfBatch ∧ Allowed endOfBatch
  | .endOfBatch endOfBatch => s.nextSequence = endOfBatch + 1 ∧ Allowed endOfBatch
  | .attemptRewind _ => False
  | .handleEventException => Allowed s.nextSequence
  | .failed => Allowed s.nextSequence ∧ DealtWith calls s.nextSequence
  | _ => True

/-- `sequence_` has moved from `s0` to what was allowed, over sequences that were dealt with, but
maybe to the middle of a batch. -/
structure Released (s0 : Int) (Allowed : Int → Prop) (calls : List Call) (s : State) : Prop
    extends Passed s0 Allowed calls s where
  atPc : ReleasedAt Allowed calls s s.pc

variable {p : BatchEventProcessor} {s0 : Int} {Allowed : Int → Prop} {calls calls' : List Call}
  {s s' : State} {i : Input}

lemma released_enter (s0 : Int) : Released s0 Allowed calls (enter s0) :=
  ⟨(progress_enter s0).toPassed, trivial⟩

lemma Passed.released_catchException (h : Passed s0 Allowed calls s)
    (ha : Allowed s.nextSequence) (e : Exception) :
    Released s0 Allowed calls (s.catchException e) := by
  cases e with
  | TimeoutException | AlertException | other =>
    exact ⟨⟨h.start_le, h.sequence_lt, h.allowed, h.dealt⟩, trivial⟩
  | RewindableException | exception =>
    exact ⟨⟨h.start_le, h.sequence_lt, h.allowed, h.dealt⟩, ha⟩

/-- Without a rewind every exception is one of the outer `catch` clauses. -/
lemma Passed.released_throwException (h : Passed s0 Allowed calls s)
    (hp : p.rewindHandler = .NoRewindHandler) (ha : Allowed s.nextSequence) (start : Int)
    (e : Exception) : Released s0 Allowed calls (s.throwException p start e) := by
  cases e with
  | RewindableException =>
    simp only [State.throwException, State.catchRewindable, hp]
    exact h.released_catchException ha _
  | TimeoutException => exact h.released_catchException ha .TimeoutException
  | AlertException => exact h.released_catchException ha .AlertException
  | exception => exact h.released_catchException ha .exception
  | other => exact h.released_catchException ha .other

lemma Passed.released_nextEvent (h : Passed s0 Allowed calls s) {start endOfBatch : Int}
    (hend : s.nextSequence ≤ endOfBatch + 1) (ha : Allowed endOfBatch) :
    Released s0 Allowed calls (s.nextEvent start endOfBatch) := by
  unfold State.nextEvent
  split_ifs with hmore
  · exact ⟨⟨h.start_le, h.sequence_lt, h.allowed, h.dealt⟩, hmore, ha⟩
  · have hover : s.nextSequence = endOfBatch + 1 := by omega
    exact ⟨⟨h.start_le, h.sequence_lt, h.allowed, h.dealt⟩, hover, ha⟩

/-- `waitFor` has answered with what is allowed. -/
lemma Released.available (h : Released s0 Allowed calls s)
    (hdown : ∀ a a', Allowed a → a' ≤ a → Allowed a') {availableSequence : Int}
    (ha : s.nextSequence ≤ availableSequence → Allowed availableSequence) :
    Released s0 Allowed calls (s.available p availableSequence) := by
  have hoffset := p.batchLimitOffset_nonneg
  unfold State.available
  dsimp only
  split_ifs with hless hmore
  · exact h
  · have hend := hdown _ _ (ha (by omega)) (min_le_right (s.nextSequence + p.batchLimitOffset) _)
    exact ⟨⟨h.start_le, h.sequence_lt, h.allowed, h.dealt⟩, rfl, hmore, hend⟩
  · exact absurd (le_min (by omega) (by omega)) hmore

/-- `onEvent` has returned, and may have set `sequence_` to its event. -/
lemma Released.onEvent_returned (h : Released s0 Allowed calls s)
    (hdown : ∀ a a', Allowed a → a' ≤ a → Allowed a') {start endOfBatch : Int}
    (hpc : s.pc = .onEvent start endOfBatch) {q : Int}
    (hq : q = s.sequence ∨ q = s.nextSequence) :
    Released s0 Allowed ((call s (.onEvent none)).toList ++ calls)
      ({ s with sequence := q, event := some s.nextSequence, nextSequence := s.nextSequence + 1
        }.nextEvent start endOfBatch) := by
  have hat := h.atPc
  have hlt := h.sequence_lt
  rw [hpc] at hat
  obtain ⟨hend, ha⟩ := hat
  refine Passed.released_nextEvent (h.toPassed.onEvent hpc ?_ ?_ ?_) ?_ ha
  · rcases hq with rfl | rfl
    · exact le_rfl
    · exact hlt.le
  · rcases hq with rfl | rfl
    · exact hlt.le
    · exact le_rfl
  · rcases hq with rfl | rfl
    · exact h.allowed
    · exact Or.inr (hdown _ _ ha hend)
  · simp only
    omega

/-- The steps that are not the return of a call of `onEvent`. -/
lemma Released.otherStep (h : Released s0 Allowed calls s)
    (hp : p.rewindHandler = .NoRewindHandler) (hdown : ∀ a a', Allowed a → a' ≤ a → Allowed a')
    (hi : i.Granted Allowed s) (hne : i ≠ .onEvent none) (hs : p.step s i = some s') :
    Released s0 Allowed ((call s i).toList ++ calls) s' := by
  have hmono : ∀ {s' : State}, Released s0 Allowed calls s' →
      Released s0 Allowed ((call s i).toList ++ calls) s' := by
    intro s' h'
    have hsub : ∀ c ∈ calls, c ∈ (call s i).toList ++ calls :=
      fun c hc => List.mem_append_right _ hc
    refine ⟨h'.toPassed.mono (fun _ => id) hsub, ?_⟩
    have hat := h'.atPc
    revert hat
    cases s'.pc with
    | failed => exact fun hat => ⟨hat.1, hat.2.mono hsub⟩
    | _ => exact id
  have hat := h.atPc
  cases step_iff.mp hs with
  | available hpc => exact hmono (h.available hdown hi)
  | waitForThrows hpc =>
    rcases hi with rfl | rfl <;>
      exact hmono ⟨⟨h.start_le, h.sequence_lt, h.allowed, h.dealt⟩, trivial⟩
  | onBatchStart hpc =>
    rw [hpc] at hat
    obtain ⟨rfl, hend, ha⟩ := hat
    exact hmono (h.toPassed.released_nextEvent (by omega) ha)
  | onBatchStartThrows hpc =>
    rw [hpc] at hat
    obtain ⟨rfl, hend, ha⟩ := hat
    exact hmono (h.toPassed.released_throwException hp (hdown _ _ ha hend) _ _)
  | onEvent hpc => exact absurd rfl hne
  | onEventThrows hpc =>
    rw [hpc] at hat
    have hpassed : Passed s0 Allowed calls { s with event := some s.nextSequence } :=
      ⟨h.start_le, h.sequence_lt, h.allowed, h.dealt⟩
    exact hmono (hpassed.released_throwException hp (hdown _ _ hat.2 hat.1) _ _)
  | endOfBatch hpc =>
    rw [hpc] at hat
    exact hmono ⟨h.toPassed.endOfBatch hat.1 hat.2, trivial⟩
  | rewinds hpc | rethrows hpc | strategyThrows hpc =>
    rw [hpc] at hat
    exact hat.elim
  | onTimeout hpc | onTimeoutThrows hpc | onTimeoutEscapes hpc | timeoutHandled hpc =>
    exact hmono ⟨⟨h.start_le, h.sequence_lt, h.allowed, h.dealt⟩, trivial⟩
  | handled hpc =>
    rw [hpc] at hat
    have hpassed := h.toPassed.handled hpc
    exact ⟨(hpassed _).1, hat, (hpassed _).2⟩
  | checkRunning hpc =>
    refine hmono ⟨⟨h.start_le, h.sequence_lt, h.allowed, h.dealt⟩, ?_⟩
    show ReleasedAt Allowed calls _ (if s.running ≠ .RUNNING then .exited false else .waitFor)
    split_ifs <;> trivial
  | skip hpc =>
    rw [hpc] at hat
    exact hmono ⟨h.toPassed.skip hat.1 hat.2, trivial⟩
  | halt =>
    refine hmono ⟨⟨h.start_le, h.sequence_lt, h.allowed, h.dealt⟩, ?_⟩
    show ReleasedAt Allowed calls s.halt s.pc
    revert hat
    cases s.pc <;> exact id

/-! ### The handlers -/

namespace Reporting

variable {h : ReportingHandler σ} {r r' : Reporting σ}

lemma handled_of_ne (hi : i ≠ .onEvent none) : r.handled h i = (r.processor, r.handler) := by
  unfold handled
  split
  · exact absurd rfl hi
  · rfl

lemma handled_pc (h : ReportingHandler σ) (r : Reporting σ) (i : Input) :
    (r.handled h i).1.pc = r.processor.pc := by
  unfold handled
  split
  · split
    · dsimp only
      split_ifs <;> rfl
    · rfl
  · rfl

/-- The return of a call of `onEvent`, or another step. -/
lemma step_cases (hs : r.step p h i = some r') :
    (∃ start endOfBatch, i = .onEvent none ∧ r.processor.pc = .onEvent start endOfBatch ∧
      ∃ q, r'.processor = { r.processor with
          sequence := q
          event := some r.processor.nextSequence
          nextSequence := r.processor.nextSequence + 1 }.nextEvent start endOfBatch ∧
        r'.calls = (call r.processor i).toList ++ r.calls ∧
        ∃ reports, h.onEvent r.handler (decide (r.processor.nextSequence = endOfBatch)) =
            (r'.handler, reports) ∧
          q = if reports then r.processor.nextSequence else r.processor.sequence) ∨
    i ≠ .onEvent none ∧ p.step r.processor i = some r'.processor ∧ r'.handler = r.handler ∧
      r'.calls = (call r.processor i).toList ++ r.calls := by
  simp only [step, Option.map_eq_some_iff] at hs
  obtain ⟨s', hstep, rfl⟩ := hs
  by_cases hi : i = .onEvent none
  · subst hi
    cases step_iff.mp hstep with
    | @onEvent start endOfBatch hpc =>
      rw [handled_pc] at hpc
      rcases hreports : h.onEvent r.handler (decide (r.processor.nextSequence = endOfBatch))
        with ⟨handler, reports⟩
      refine Or.inl ⟨start, endOfBatch, rfl, hpc,
        if reports then r.processor.nextSequence else r.processor.sequence, ?_, rfl, reports, ?_,
        rfl⟩
      · cases reports <;> simp [handled, hpc, hreports]
      · simp [handled, hpc, hreports]
  · rw [handled_of_ne hi] at hstep ⊢
    exact Or.inr ⟨hi, hstep, rfl, rfl⟩

/-- Every step keeps what is released behind what was dealt with, and moves `sequence_` forward or
not at all. -/
theorem released_step (hr : Released s0 Allowed r.calls r.processor)
    (hp : p.rewindHandler = .NoRewindHandler) (hdown : ∀ a a', Allowed a → a' ≤ a → Allowed a')
    (hi : i.Granted Allowed r.processor) (hs : r.step p h i = some r') :
    Released s0 Allowed r'.calls r'.processor ∧
      r.processor.sequence ≤ r'.processor.sequence := by
  have hlt := hr.sequence_lt
  rcases step_cases hs with ⟨start, endOfBatch, rfl, hpc, q, hprocessor, hcalls, reports, -, hq⟩ |
    ⟨hne, hstep, -, hcalls⟩
  · have hcases : q = r.processor.sequence ∨ q = r.processor.nextSequence := by
      cases reports
      · exact Or.inl hq
      · exact Or.inr hq
    rw [hcalls, hprocessor]
    refine ⟨hr.onEvent_returned hdown hpc hcases, ?_⟩
    rw [State.nextEvent_sequence]
    show r.processor.sequence ≤ q
    omega
  · rw [hcalls]
    constructor
    · exact hr.otherStep hp hdown hi hne hstep
    · have hat := hr.atPc
      rcases step_sequence hstep with heq | ⟨endOfBatch, -, hpc, heq⟩ | ⟨-, -, heq⟩
      · exact heq.ge
      · rw [hpc] at hat
        have hnext := hat.1
        omega
      · omega

end Reporting

/-! ### `EarlyReleaseHandler` -/

/-- How many events are dealt with beyond `sequence_`. -/
def State.lag (s : State) : Int := s.nextSequence - 1 - s.sequence

/-- Between two events the lag stays as it is, or `sequence_` catches up. -/
lemma step_lag (hr : Released s0 Allowed calls s) (hne : i ≠ .onEvent none)
    (hs : p.step s i = some s') :
    s'.lag = 0 ∨ s'.lag = s.lag ∧ ∀ endOfBatch, s.pc = .endOfBatch endOfBatch → s'.pc = s.pc := by
  have hat := hr.atPc
  unfold State.lag
  cases step_iff.mp hs with
  | onEvent hpc => exact absurd rfl hne
  | endOfBatch hpc =>
    rw [hpc] at hat
    have hnext := hat.1
    simp only
    omega
  | rewinds hpc | rethrows hpc | strategyThrows hpc =>
    rw [hpc] at hat
    exact hat.elim
  | skip hpc => simp
  | halt => simp [State.halt]
  | _ hpc => simp [hpc]

/-- What `batchRemaining_` counts. -/
structure Lag (r : Reporting Int) : Prop where
  remaining_nonneg : 0 ≤ r.handler
  remaining_le : r.handler ≤ 20
  lag_le : r.processor.lag ≤ 20
  counts : (∀ endOfBatch, r.processor.pc ≠ .endOfBatch endOfBatch) →
    r.processor.lag + r.handler ≤ 20

variable {r r' : Reporting Int}

/-- The handler reports every 21st event since the last report or end of a batch. -/
lemma earlyReleaseHandler_onEvent {batchRemaining remaining : Int} {endOfBatch reports : Bool}
    (h : EarlyReleaseHandler.onEvent batchRemaining endOfBatch = (remaining, reports)) :
    (batchRemaining = 0 ∧ reports = true ∧ remaining = 20) ∨
      (batchRemaining ≠ 0 ∧ reports = false ∧
        (endOfBatch = true ∧ remaining = 20 ∨
          endOfBatch = false ∧ remaining = batchRemaining - 1)) := by
  obtain ⟨rfl, rfl⟩ := Prod.mk.inj h
  by_cases hzero : batchRemaining = 0
  · subst hzero
    simp
  · have hnot : batchRemaining - 1 ≠ -1 := by omega
    cases endOfBatch <;> simp [hnot, hzero]

lemma Lag.step (h : Lag r) (hr : Released s0 Allowed r.calls r.processor)
    (hs : r.step p EarlyReleaseHandler i = some r') : Lag r' := by
  obtain ⟨hnonneg, hle, hlag, hcounts⟩ := h
  rcases Reporting.step_cases hs with
    ⟨start, endOfBatch, rfl, hpc, q, hprocessor, -, reports, hreports, hq⟩ |
    ⟨hne, hstep, hhandler, -⟩
  · have hat := hr.atPc
    rw [hpc] at hat
    have hend := hat.1
    have hsum := hcounts (by simp [hpc])
    have hlag' : r'.processor.lag = r.processor.nextSequence - q := by
      simp [State.lag, hprocessor]
    unfold State.lag at hlag hsum
    rcases earlyReleaseHandler_onEvent hreports with ⟨-, rfl, hremaining⟩ |
      ⟨hnot, rfl, ⟨hlast, hremaining⟩ | ⟨-, hremaining⟩⟩
    · -- the chunk is complete
      have hq' : q = r.processor.nextSequence := hq
      exact ⟨by omega, by omega, by omega, fun _ => by omega⟩
    · -- the batch ends, and `sequence_` is set next
      have hq' : q = r.processor.sequence := hq
      refine ⟨by omega, by omega, by omega, ?_⟩
      intro hnotEnd
      refine absurd ?_ (hnotEnd endOfBatch)
      have hover : ¬ r.processor.nextSequence + 1 ≤ endOfBatch := by
        have heq := of_decide_eq_true hlast
        omega
      rw [hprocessor]
      simp [State.nextEvent, hover]
    · have hq' : q = r.processor.sequence := hq
      exact ⟨by omega, by omega, by omega, fun _ => by omega⟩
  · rcases step_lag hr hne hstep with hzero | ⟨hsame, hkept⟩
    · rw [← hhandler] at hnonneg hle
      exact ⟨hnonneg, hle, by omega, fun _ => by omega⟩
    · rw [← hhandler] at hnonneg hle hcounts
      refine ⟨hnonneg, hle, by omega, ?_⟩
      intro hnot
      rw [hsame]
      refine hcounts ?_
      intro endOfBatch hpc
      exact hnot endOfBatch ((hkept endOfBatch hpc).trans hpc)

/-- A processor with an `EarlyReleaseHandler` enters `processEvents`. A new handler has 20 in
`batchRemaining_`; a run before may have left it less. -/
def EarlyReleaseHandler.enter (s0 batchRemaining : Int) : Reporting Int :=
  { processor := BatchEventProcessor.enter s0, handler := batchRemaining }

/-- In every run of `processEvents` with an `EarlyReleaseHandler`, over all answers of the barrier,
exceptions, batches of any length and alerts: `sequence_` only moves forward, it has passed only
events that were dealt with, and it is never more than 20 behind the event before `nextSequence`.
(When the exception handler has just returned, the event `nextSequence` has been dealt with too, and
is the 21st.) -/
theorem earlyRelease_bounded (p : BatchEventProcessor) (hp : p.rewindHandler = .NoRewindHandler)
    (s0 batchRemaining : Int) (hnonneg : 0 ≤ batchRemaining) (hle : batchRemaining ≤ 20)
    (inputs : List Input)
    (hbarrier : ∀ e, .waitFor (.error e) ∈ inputs → e = .TimeoutException ∨ e = .AlertException) :
    ∀ x ∈ transitions (Reporting.step p EarlyReleaseHandler)
        (EarlyReleaseHandler.enter s0 batchRemaining) inputs,
      x.pre.processor.sequence ≤ x.post.processor.sequence ∧
      (∀ t, s0 < t → t ≤ x.post.processor.sequence → DealtWith x.post.calls t) ∧
      x.post.processor.nextSequence - 1 - x.post.processor.sequence ≤ 20 := by
  have hdown : ∀ a a' : Int, True → a' ≤ a → True := fun _ _ _ _ => trivial
  have hgranted : ∀ x ∈ transitions (Reporting.step p EarlyReleaseHandler)
      (EarlyReleaseHandler.enter s0 batchRemaining) inputs,
      ∀ s : State, Input.Granted (fun _ => True) s x.act := by
    intro x hx s
    have hmem := (mem_transitions hx).1
    revert hmem
    cases x.act with
    | waitFor answer =>
      cases answer with
      | ok a => exact fun _ _ => trivial
      | error e => exact hbarrier e
    | _ => exact fun _ => trivial
  have hinv := transitions_invariant
    (fun r : Reporting Int => Released s0 (fun _ => True) r.calls r.processor ∧ Lag r)
    (fun x => ∀ s : State, Input.Granted (fun _ => True) s x.act)
    (fun _ _ _ h hs hi => ⟨(Reporting.released_step h.1 hp hdown (hi _) hs).1, h.2.step h.1 hs⟩)
    (s := EarlyReleaseHandler.enter s0 batchRemaining)
    ⟨released_enter s0, hnonneg, hle,
      by simp [EarlyReleaseHandler.enter, State.lag, BatchEventProcessor.enter],
      fun _ => by simpa [EarlyReleaseHandler.enter, State.lag, BatchEventProcessor.enter]⟩ hgranted
  intro x hx
  obtain ⟨⟨hpre, -⟩, hpost, hlag⟩ := hinv x hx
  refine ⟨(Reporting.released_step hpre hp hdown (hgranted x hx _) (mem_transitions hx).2).2, ?_,
    hlag.lag_le⟩
  intro t ht ht'
  have hlt := hpost.sequence_lt
  exact hpost.dealt t ht (by omega)

/-- A batch of 40 events, of which 34 are handled. -/
def longBatch : List Input :=
  .waitFor (.ok 39) :: .onBatchStart none :: List.replicate 34 (.onEvent none)

/-- The 12 events left of a chunk are released with the one after them, and 21 more with the last of
these, before the batch ends. -/
theorem earlyRelease_bounded_longBatch :
    ∃ x ∈ transitions (Reporting.step ⟨99, .NoRewindHandler, by decide⟩ EarlyReleaseHandler)
        (EarlyReleaseHandler.enter (-1) 12) longBatch,
      x.post.processor.pc = .onEvent 0 39 ∧ x.post.processor.sequence = 33 ∧
      ∀ t, -1 < t → t ≤ 33 → DealtWith x.post.calls t := by
  have hruns : ∃ x ∈ transitions (Reporting.step ⟨99, .NoRewindHandler, by decide⟩
      EarlyReleaseHandler) (EarlyReleaseHandler.enter (-1) 12) longBatch,
      x.post.processor.pc = .onEvent 0 39 ∧ x.post.processor.sequence = 33 := by
    decide +kernel
  obtain ⟨x, hx, hpc, hsequence⟩ := hruns
  obtain ⟨-, hdealt, -⟩ := earlyRelease_bounded ⟨99, .NoRewindHandler, by decide⟩ rfl (-1) 12
    (by decide) (by decide) longBatch (by simp [longBatch]) x hx
  rw [hsequence] at hdealt
  exact ⟨x, hx, hpc, hsequence, hdealt⟩

end Disruptor.BatchEventProcessor
