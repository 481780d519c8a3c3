import Disruptor.Core.Run
import Disruptor.EventProcessor.Progress

/-!
# To which event an exception is attributed

An exception of `onEvent` finds `event` and `nextSequence` at the event that it belongs to. One of
`onBatchStart` comes before an event of the batch was fetched: `event` is that of an earlier
sequence, or null, and the event that is skipped need not have been handed to `onEvent`.
-/

namespace Disruptor.BatchEventProcessor

open Disruptor.Core

/-- `onBatchStart` or `onEvent`. -/
def Call.isOfHandler : Call → Bool
  | .onBatchStart _ _ | .onEvent _ _ _ _ => true
  | _ => false

/-- The call hands an event to `onEvent`. -/
def Call.handed : Call → Option Int
  | .onEvent sequence _ _ _ => some sequence
  | _ => none

/-- The latest call of `onBatchStart` or `onEvent`. -/
def latestOfHandler (calls : List Call) : Option Call := calls.find? Call.isOfHandler

/-- The sequence of the event that was handed to `onEvent` last. -/
def lastHanded (calls : List Call) : Option Int := calls.findSome? Call.handed

/-- The event was handed to `onEvent`. -/
def Handed (calls : List Call) (sequence : Int) : Prop :=
  ∃ c ∈ calls, c.handed = some sequence

/-- The exception that is being handled was thrown by `onBatchStart`. -/
def OfBatchStart (calls : List Call) : Prop :=
  ∃ batchSize queueDepth, latestOfHandler calls = some (.onBatchStart batchSize queueDepth)

/-- The exception that is being handled was thrown by `onEvent` for the sequence. -/
def OfEvent (sequence : Int) (calls : List Call) : Prop :=
  ∃ endOfBatch start e,
    latestOfHandler calls = some (.onEvent sequence endOfBatch start (some e))

/-- `waitFor` of a barrier throws nothing but timeouts and alerts. -/
def Input.ofBarrier : Input → Bool
  | .waitFor (.error e) => decide (e = .TimeoutException ∨ e = .AlertException)
  | _ => true

/-- A step of a processor with a barrier. -/
def Run.barrierStep (p : BatchEventProcessor) (r : Run) (i : Input) : Option Run :=
  if i.ofBarrier then r.step p i else none

/-- An exception is on its way to the rewind strategy or to the exception handler, or has been
reported. -/
def Pc.Raised : Pc → Prop
  | .attemptRewind _ | .handleEventException | .failed => True
  | _ => False

/-- What is known of the calls and of `event` in a run that began behind `s0`. -/
structure Run.Tracked (s0 : Int) (r : Run) : Prop where
  progress : Progress s0 (fun _ => True) r.calls r.state
  event : r.state.event = lastHanded r.calls
  handed : ∀ t, s0 < t → t < r.state.nextSequence → Handed r.calls t
  raised : r.state.pc.Raised → OfBatchStart r.calls ∨ OfEvent r.state.nextSequence r.calls

variable {p : BatchEventProcessor} {s0 : Int} {calls : List Call} {s s' : State} {r r' : Run}
  {i : Input} {c : Call} {α : Type}

/-! ### The calls -/

lemma Handed.cons {t : Int} (h : Handed calls t) : Handed (c :: calls) t := by
  obtain ⟨d, hd, hhanded⟩ := h
  exact ⟨d, List.mem_cons_of_mem _ hd, hhanded⟩

lemma lastHanded_cons_of_none (h : c.handed = none) :
    lastHanded (c :: calls) = lastHanded calls := by
  simp [lastHanded, h]

@[simp] lemma lastHanded_onEvent (sequence : Int) (endOfBatch : Bool) (start : Int)
    (thrown : Option Exception) :
    lastHanded (.onEvent sequence endOfBatch start thrown :: calls) = some sequence := rfl

lemma latestOfHandler_cons_of_false (h : c.isOfHandler = false) :
    latestOfHandler (c :: calls) = latestOfHandler calls := by
  simp [latestOfHandler, h]

/-- The latest call tells which event was handed over last. -/
lemma OfEvent.lastHanded {sequence : Int} (h : OfEvent sequence calls) :
    lastHanded calls = some sequence ∧ Handed calls sequence := by
  obtain ⟨endOfBatch, start, e, hlatest⟩ := h
  have hmem := List.mem_of_find?_eq_some hlatest
  refine ⟨?_, _, hmem, rfl⟩
  induction calls with
  | nil => cases hmem
  | cons c rest ih =>
    cases hc : c.isOfHandler with
    | true =>
      rw [latestOfHandler, List.find?_cons_of_pos hc] at hlatest
      obtain rfl := Option.some.inj hlatest
      rfl
    | false =>
      rw [latestOfHandler_cons_of_false hc] at hlatest
      have hnone : c.handed = none := by
        cases c <;> first | rfl | cases hc
      rw [lastHanded_cons_of_none hnone]
      exact ih hlatest (List.mem_of_find?_eq_some hlatest)

/-! ### What a step leaves alone -/

lemma State.nextEvent_not_raised (s : State) (start endOfBatch : Int) :
    ¬ (s.nextEvent start endOfBatch).pc.Raised := by
  unfold State.nextEvent
  split_ifs <;> exact id

lemma State.available_not_raised (p : BatchEventProcessor) (hpc : s.pc = .waitFor)
    (availableSequence : Int) : ¬ (s.available p availableSequence).pc.Raised := by
  unfold State.available
  dsimp only
  split_ifs
  · rw [hpc]
    exact id
  · exact id
  · exact State.nextEvent_not_raised _ _ _

/-- Only `onEvent` is handed an event. -/
lemma handed_of_call (hne : ∀ thrown, i ≠ .onEvent thrown) :
    ∀ c, call s i = some c → c.handed = none := by
  intro c hc
  unfold call at hc
  split at hc
  · split at hc <;> cases hc
    rfl
  · exact absurd rfl (hne _)
  · split at hc <;> cases hc
    rfl
  · split at hc <;> cases hc
    rfl
  · split at hc <;> cases hc <;> rfl
  · cases hc

/-- A step that hands no event over, and does not move `nextSequence` up. -/
lemma Run.Tracked.of_same (h : r.Tracked s0) (made : Option Call)
    (hprogress : Progress s0 (fun _ => True) (made.toList ++ r.calls) s')
    (hmade : ∀ c, made = some c → c.handed = none) (hevent : s'.event = r.state.event)
    (hnext : s'.nextSequence ≤ r.state.nextSequence)
    (hraised : s'.pc.Raised → OfBatchStart (made.toList ++ r.calls) ∨
      OfEvent s'.nextSequence (made.toList ++ r.calls)) :
    Run.Tracked s0 ⟨s', made.toList ++ r.calls⟩ := by
  refine ⟨hprogress, ?_, ?_, hraised⟩
  · rw [hevent, h.event]
    cases made with
    | none => rfl
    | some c => exact (lastHanded_cons_of_none (hmade c rfl)).symm
  · intro t ht ht'
    have hhanded := h.handed t ht (lt_of_lt_of_le ht' hnext)
    cases made with
    | none => exact hhanded
    | some c => exact hhanded.cons

/-- The latest call of the handler stays the same, and so does what it has thrown for. -/
lemma raised_cons_of_false {sequence : Int} (hc : c.isOfHandler = false)
    (h : OfBatchStart calls ∨ OfEvent sequence calls) :
    OfBatchStart (c :: calls) ∨ OfEvent sequence (c :: calls) := by
  unfold OfBatchStart OfEvent
  rwa [latestOfHandler_cons_of_false hc]

/-! ### Steps -/

/-- `onEvent` has returned. -/
lemma Run.Tracked.onEvent (h : r.Tracked s0) {start endOfBatch : Int}
    (hpc : r.state.pc = .onEvent start endOfBatch)
    (hprogress : Progress s0 (fun _ => True) ((call r.state (.onEvent none)).toList ++ r.calls) s')
    (hs' : s' = { r.state with
      event := some r.state.nextSequence
      nextSequence := r.state.nextSequence + 1 }.nextEvent start endOfBatch) :
    Run.Tracked s0 ⟨s', (call r.state (.onEvent none)).toList ++ r.calls⟩ := by
  subst hs'
  refine ⟨hprogress, ?_, ?_, ?_⟩
  · simp [call, hpc]
  · intro t ht ht'
    simp only [State.nextEvent_nextSequence] at ht'
    by_cases hold : t < r.state.nextSequence
    · simpa [call, hpc] using (h.handed t ht hold).cons
    · obtain rfl : t = r.state.nextSequence := by omega
      refine ⟨.onEvent r.state.nextSequence (decide (r.state.nextSequence = endOfBatch)) start
        none, ?_, rfl⟩
      simp [call, hpc]
  · intro hraised
    exact absurd hraised (State.nextEvent_not_raised _ _ _)

/-- It has thrown. -/
lemma Run.Tracked.onEventThrows (h : r.Tracked s0) {start endOfBatch : Int}
    (hpc : r.state.pc = .onEvent start endOfBatch) {e : Exception}
    (hprogress : Progress s0 (fun _ => True)
      ((call r.state (.onEvent (some e))).toList ++ r.calls) s')
    (hs' : s' = { r.state with event := some r.state.nextSequence }.throwException p start e) :
    Run.Tracked s0 ⟨s', (call r.state (.onEvent (some e))).toList ++ r.calls⟩ := by
  subst hs'
  refine ⟨hprogress, ?_, ?_, ?_⟩
  · simp [call, hpc]
  · intro t ht ht'
    simp only [State.throwException_nextSequence] at ht'
    simpa [call, hpc] using (h.handed t ht ht').cons
  · intro _
    refine Or.inr ?_
    simp [call, hpc, OfEvent, latestOfHandler, Call.isOfHandler]

/-- The event is skipped; it has to have been handed over. -/
lemma Run.Tracked.skip (h : r.Tracked s0) (hhanded : Handed r.calls r.state.nextSequence)
    (hprogress : Progress s0 (fun _ => True) r.calls s')
    (hs' : s' = { r.state with
      sequence := r.state.nextSequence
      nextSequence := r.state.nextSequence + 1
      pc := .waitFor }) : Run.Tracked s0 ⟨s', r.calls⟩ := by
  subst hs'
  refine ⟨hprogress, h.event, ?_, ?_⟩
  · intro t ht ht'
    by_cases heq : t = r.state.nextSequence
    · exact heq ▸ hhanded
    · simp only at ht'
      exact h.handed t ht (by omega)
  · rintro ⟨⟩

/-- Every step keeps track, if no event is skipped that was not handed over. -/
lemma Run.Tracked.step (h : r.Tracked s0) (hs : r.barrierStep p i = some r')
    (hskip : i = .skip → Handed r.calls r.state.nextSequence) : r'.Tracked s0 := by
  unfold Run.barrierStep at hs
  split_ifs at hs with hbarrier
  obtain ⟨s', hstep, rfl⟩ := Option.map_eq_some_iff.mp hs
  have hgranted : i.Granted (fun _ => True) r.state := by
    match i with
    | .waitFor (.ok a) => exact fun _ => trivial
    | .waitFor (.error e) => simpa [Input.ofBarrier, Input.Granted] using hbarrier
    | .onBatchStart _ | .onEvent _ | .endOfBatch | .handleRewindException _ | .onTimeout _
    | .handleEventException _ | .checkRunning | .skip | .halt => trivial
  have hprogress := h.progress.step (fun _ _ _ _ => trivial) hgranted hstep
  have hraised := h.raised
  cases step_iff.mp hstep with
  | available hpc =>
    refine h.of_same none hprogress (by simp) (by simp) (by simp) fun hraised => ?_
    exact absurd hraised (State.available_not_raised p hpc _)
  | waitForThrows hpc =>
    rcases hgranted with rfl | rfl <;>
      exact h.of_same none hprogress (by simp) rfl le_rfl (by rintro ⟨⟩)
  | onBatchStart hpc =>
    refine h.of_same _ hprogress (handed_of_call (by simp)) (by simp) (by simp) fun hraised => ?_
    exact absurd hraised (State.nextEvent_not_raised _ _ _)
  | onBatchStartThrows hpc =>
    refine h.of_same _ hprogress (handed_of_call (by simp)) (by simp) (by simp)
      fun _ => Or.inl ?_
    simp [call, hpc, OfBatchStart, latestOfHandler, Call.isOfHandler]
  | onEvent hpc => exact h.onEvent hpc hprogress rfl
  | onEventThrows hpc => exact h.onEventThrows hpc hprogress rfl
  | rewinds hpc =>
    have hat := h.progress.atPc
    rw [hpc] at hat
    exact h.of_same _ hprogress (handed_of_call (by simp)) rfl hat.2.1 (by rintro ⟨⟩)
  | rethrows hpc | handled hpc =>
    rw [hpc] at hraised
    refine h.of_same _ hprogress (handed_of_call (by simp)) rfl le_rfl fun _ => ?_
    simpa [call, hpc] using raised_cons_of_false rfl (hraised trivial)
  | strategyThrows hpc =>
    rw [hpc] at hraised
    refine h.of_same _ hprogress (handed_of_call (by simp)) (by simp) (by simp) fun _ => ?_
    simpa [call, hpc] using raised_cons_of_false rfl (hraised trivial)
  | endOfBatch hpc | onTimeout hpc | onTimeoutThrows hpc | onTimeoutEscapes hpc
  | timeoutHandled hpc =>
    exact h.of_same _ hprogress (handed_of_call (by simp)) rfl le_rfl (by rintro ⟨⟩)
  | checkRunning hpc =>
    refine h.of_same none hprogress (by simp) rfl le_rfl ?_
    dsimp only
    split_ifs <;> rintro ⟨⟩
  | skip hpc => exact h.skip (hskip rfl) hprogress rfl
  | halt => exact h.of_same none hprogress (by simp) rfl le_rfl hraised

/-! ### Attribution -/

/-- The exception handler is given the event at the sequence that it is given, where the events are
what `get` of the data provider returns; and no event is passed that was not handed to
`onEvent`. -/
structure Attributed (get : Int → α) (s0 : Int) (x : Transition Run Input) : Prop where
  reported : ∀ returns, x.act = .handleEventException returns →
    x.pre.state.pc = .handleEventException →
      x.pre.state.event.map get = some (get x.pre.state.nextSequence)
  handed : ∀ t, s0 < t → t ≤ x.post.state.sequence → Handed x.pre.calls t

/-- Where an exception of `onBatchStart` is handled, the event that was handed to `onEvent` last is
the one at `nextSequence`, and that sequence has been handed over before it is skipped. -/
structure HandedBefore (get : Int → α) (x : Transition Run Input) : Prop where
  reported : ∀ returns, x.act = .handleEventException returns →
    x.pre.state.pc = .handleEventException → OfBatchStart x.pre.calls →
      (lastHanded x.pre.calls).map get = some (get x.pre.state.nextSequence)
  skipped : x.act = .skip → OfBatchStart x.pre.calls →
    Handed x.pre.calls x.pre.state.nextSequence

lemma tracked_enter (s0 : Int) : Run.Tracked s0 ⟨enter s0, []⟩ := by
  refine ⟨progress_enter s0, rfl, ?_, ?_⟩
  · intro t ht ht'
    simp only [enter] at ht'
    omega
  · rintro ⟨⟩

/-- An event that is skipped has been handed over. -/
lemma Run.Tracked.handed_of_skip (h : r.Tracked s0) (hs : r.barrierStep p .skip = some r')
    (hbefore : OfBatchStart r.calls → Handed r.calls r.state.nextSequence) :
    Handed r.calls r.state.nextSequence := by
  obtain ⟨s', hstep, -⟩ := Option.map_eq_some_iff.mp hs
  have hraised := h.raised
  cases step_iff.mp hstep with
  | skip hpc =>
    rw [hpc] at hraised
    rcases hraised trivial with hbatch | hevent
    · exact hbefore hbatch
    · exact hevent.lastHanded.2

lemma Run.Tracked.attributed {get : Int → α} (h : r.Tracked s0)
    (hs : r.barrierStep p i = some r') (hbefore : HandedBefore get ⟨r, i, r'⟩) :
    Attributed get s0 ⟨r, i, r'⟩ := by
  constructor
  · rintro returns rfl hpc
    simp only at hpc ⊢
    rw [h.event]
    have hraised := h.raised
    rw [hpc] at hraised
    rcases hraised trivial with hbatch | hevent
    · exact hbefore.reported returns rfl hpc hbatch
    · rw [hevent.lastHanded.1]
      rfl
  · intro t ht hle
    have hlt := h.progress.sequence_lt
    have hat := h.progress.atPc
    have hskipped : i = .skip → Handed r.calls r.state.nextSequence := by
      rintro rfl
      exact h.handed_of_skip hs (hbefore.skipped rfl)
    unfold Run.barrierStep at hs
    split_ifs at hs
    obtain ⟨s', hstep, rfl⟩ := Option.map_eq_some_iff.mp hs
    simp only at hle
    rcases step_sequence hstep with heq | ⟨endOfBatch, -, hpc, heq⟩ | ⟨hskip, -, heq⟩
    · exact h.handed t ht (by omega)
    · rw [hpc] at hat
      have hend := hat.1
      exact h.handed t ht (by omega)
    · by_cases hlast : t = r.state.nextSequence
      · exact hlast ▸ hskipped hskip
      · exact h.handed t ht (by omega)

/-- Every exception is reported with the event that it belongs to, and no event is passed unseen,
just when each exception of `onBatchStart` that is handled finds its event handed over before, and
as the last one. -/
theorem attributed_iff {get : Int → α} {inputs : List Input} :
    (∀ x ∈ transitions (Run.barrierStep p) ⟨enter s0, []⟩ inputs, Attributed get s0 x) ↔
      ∀ x ∈ transitions (Run.barrierStep p) ⟨enter s0, []⟩ inputs, HandedBefore get x := by
  apply transitions_forall_iff (Run.Tracked s0)
  · intro r i r' h hs hbefore
    refine ⟨h.step hs ?_, h.attributed hs hbefore⟩
    rintro rfl
    exact h.handed_of_skip hs (hbefore.skipped rfl)
  · intro r i r' h hs hattributed
    constructor
    · rintro returns rfl hpc -
      rw [← h.event]
      exact hattributed.reported returns rfl hpc
    · rintro rfl -
      have hstart := h.progress.start_le
      have hlt := h.progress.sequence_lt
      refine hattributed.handed _ (by simp only; omega) ?_
      obtain ⟨s', hstep, rfl⟩ := Option.map_eq_some_iff.mp hs
      cases step_iff.mp hstep with
      | skip hpc => exact le_rfl
  · exact tracked_enter s0

/-- `onBatchStart` throws before the first event: the exception handler is given a null pointer, and
`sequence_` passes an event that `onEvent` has never seen. -/
theorem firstBatchStart_unseen :
    ∃ r, run (Run.barrierStep ⟨0, .NoRewindHandler, by decide⟩) ⟨enter (-1), []⟩
        [.waitFor (.ok 0), .onBatchStart (some .exception), .handleEventException true,
          .skip] = some r ∧
      r.calls = [.handleEventException 0 none, .onBatchStart 1 1] ∧ r.state.sequence = 0 :=
  ⟨_, rfl, rfl, rfl⟩

end Disruptor.BatchEventProcessor
