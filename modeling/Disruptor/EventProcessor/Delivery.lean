import Disruptor.Core.Run
import Disruptor.EventProcessor.BatchEventProcessor
import Mathlib.Data.List.Chain

/-!
# Which sequences a `BatchEventProcessor` delivers

The calls of `onEvent` in one run of `processEvents`, each with its start of batch and with what
became of it, are its deliveries. They are in order without a gap, and `sequence_` stays at or
below the sequences that are dealt with.
-/

namespace Disruptor.BatchEventProcessor

open Disruptor.Core

/-- What became of a delivery. -/
inductive Outcome where
  | returned
  | threw (e : Exception)
  /-- It threw, and the strategy said `REWIND`. -/
  | rewound
  /-- It threw, and the exception handler was called with its sequence. -/
  | reported
  deriving DecidableEq

/-- A call of `onEvent`. -/
structure Delivery where
  sequence : Int
  startOfBatchSequence : Int
  outcome : Outcome

/-- The deliveries of a history, the latest first, after one more call. -/
def note : List Delivery → Call → List Delivery
  | ds, .onEvent sequence _ start thrown =>
    ⟨sequence, start, thrown.elim .returned .threw⟩ :: ds
  | ⟨s, start, .threw _⟩ :: ds, .handleRewindException _ (.ok .REWIND) =>
    ⟨s, start, .rewound⟩ :: ds
  | ⟨s, start, .threw e⟩ :: ds, .handleEventException sequence _ =>
    ⟨s, start, if sequence = s then .reported else .threw e⟩ :: ds
  | ds, _ => ds

/-- The deliveries of a history, the latest first. -/
def deliveries (calls : List Call) : List Delivery :=
  calls.foldr (fun c ds => note ds c) []

/-- The call returned, or was reported. -/
def Delivery.Completed (d : Delivery) : Prop :=
  d.outcome = .returned ∨ d.outcome = .reported

/-- The call was cut short by a rewind or by a `TimeoutException` or `AlertException`. -/
def Delivery.Repeated (d : Delivery) : Prop :=
  d.outcome = .rewound ∨ d.outcome = .threw .TimeoutException ∨
    d.outcome = .threw .AlertException

/-- The delivery of `sequence` in the batch from `start` may come right after `d`. -/
def Follows (d : Delivery) (sequence start : Int) : Prop :=
  match d.outcome with
  | .returned =>
    sequence = d.sequence + 1 ∧ (start = d.startOfBatchSequence ∨ start = sequence)
  | .reported => sequence = d.sequence + 1 ∧ start = sequence
  | .rewound => sequence = d.startOfBatchSequence ∧ start = sequence
  | .threw e =>
    (e = .TimeoutException ∨ e = .AlertException) ∧ sequence = d.sequence ∧ start = sequence

/-- The delivery of `sequence` in the batch from `start` may be the next one. -/
def Due (s0 : Int) (ds : List Delivery) (sequence start : Int) : Prop :=
  match ds with
  | [] => sequence = s0 + 1
  | d :: _ => Follows d sequence start

/-- Each delivery was due when it was made. -/
def InOrder (s0 : Int) : List Delivery → Prop
  | [] => True
  | d :: ds => Due s0 ds d.sequence d.startOfBatchSequence ∧ InOrder s0 ds

/-- Every sequence after `s0` up to `hi` was delivered, and the call returned or was reported. -/
def CompletedUpTo (s0 : Int) (ds : List Delivery) (hi : Int) : Prop :=
  ∀ s, s0 < s → s ≤ hi → ∃ d ∈ ds, d.sequence = s ∧ d.Completed

variable {p : BatchEventProcessor} {s0 : Int} {ds : List Delivery} {d : Delivery}

lemma CompletedUpTo.mono {hi hi' : Int} (h : CompletedUpTo s0 ds hi) (hle : hi' ≤ hi) :
    CompletedUpTo s0 ds hi' :=
  fun s hs hs' => h s hs (by omega)

lemma CompletedUpTo.cons {hi : Int} (h : CompletedUpTo s0 ds hi) (d : Delivery) :
    CompletedUpTo s0 (d :: ds) hi := by
  intro s hs hs'
  obtain ⟨e, he, hes⟩ := h s hs hs'
  exact ⟨e, List.mem_cons_of_mem _ he, hes⟩

/-- One more delivery completes one more sequence. -/
lemma CompletedUpTo.complete {hi : Int} (h : CompletedUpTo s0 ds hi) (hd : d.sequence = hi + 1)
    (hc : d.Completed) : CompletedUpTo s0 (d :: ds) (hi + 1) := by
  intro s hs hs'
  by_cases hle : s ≤ hi
  · exact h.cons d s hs hle
  · exact ⟨d, List.mem_cons_self, by omega, hc⟩

/-- A delivery that threw completes nothing, so its outcome may still change. -/
lemma CompletedUpTo.resolve {hi s start : Int} {e : Exception} {o : Outcome}
    (h : CompletedUpTo s0 (⟨s, start, .threw e⟩ :: ds) hi) :
    CompletedUpTo s0 (⟨s, start, o⟩ :: ds) hi := by
  intro t ht ht'
  obtain ⟨d, hd, hdt, hc⟩ := h t ht ht'
  rcases List.mem_cons.mp hd with rfl | hd
  · rcases hc with hc | hc <;> cases hc
  · exact ⟨d, List.mem_cons_of_mem _ hd, hdt, hc⟩

/-! ### The invariant of the loop -/

/-- What `processEvents` knows at each of its places about the deliveries so far. -/
def At (s0 : Int) (ds : List Delivery) (s : State) : Pc → Prop
  | .waitFor | .onTimeout | .alerted => Due s0 ds s.nextSequence s.nextSequence
  | .onTimeoutFailed availableSequence =>
    availableSequence < s.nextSequence ∧ Due s0 ds s.nextSequence s.nextSequence
  | .onBatchStart start endOfBatch _ =>
    start = s.nextSequence ∧ s.nextSequence ≤ endOfBatch ∧ Due s0 ds s.nextSequence s.nextSequence
  | .onEvent start endOfBatch =>
    s.sequence < start ∧ start ≤ s.nextSequence ∧ s.nextSequence ≤ endOfBatch ∧
      Due s0 ds s.nextSequence start
  | .endOfBatch endOfBatch =>
    s.nextSequence = endOfBatch + 1 ∧ s.sequence < endOfBatch ∧
      Due s0 ds s.nextSequence s.nextSequence
  | .attemptRewind start =>
    s.sequence < start ∧ start ≤ s.nextSequence ∧
      ∃ e, ds.head? = some ⟨s.nextSequence, start, .threw e⟩
  | .handleEventException => ∃ start e, ds.head? = some ⟨s.nextSequence, start, .threw e⟩
  | .failed => ∃ start, ds.head? = some ⟨s.nextSequence, start, .reported⟩
  | .exited _ => True

/-- The invariant of the loop of `processEvents`. -/
structure LoopInvariant (s0 : Int) (ds : List Delivery) (s : State) : Prop where
  inOrder : InOrder s0 ds
  sequence_lt : s.sequence < s.nextSequence
  completed : CompletedUpTo s0 ds (s.nextSequence - 1)
  atPc : At s0 ds s s.pc

/-- The calls end as promised: the barrier and the handler throw nothing but what the loop
provides for, `onBatchStart` returns, and so does the rewind strategy. -/
def Input.Expected : Input → Prop
  | .waitFor (.error e) => e = .TimeoutException ∨ e = .AlertException
  | .onBatchStart thrown => thrown = none
  | .onEvent thrown => thrown ≠ some .other
  | .handleRewindException (.error _) => False
  | _ => True

lemma loopInvariant_enter (s0 : Int) : LoopInvariant s0 [] (enter s0) where
  inOrder := trivial
  sequence_lt := by simp [enter]
  completed := by
    intro s hs hs'
    simp only [enter] at hs'
    omega
  atPc := rfl

variable {s s' : State}

/-- The inner loop goes on, or ends with every sequence of the batch delivered. -/
lemma LoopInvariant.nextEvent {start endOfBatch : Int} (hin : InOrder s0 ds)
    (hcompleted : CompletedUpTo s0 ds (s.nextSequence - 1)) (hstart : s.sequence < start)
    (hle : start ≤ s.nextSequence) (hend : s.nextSequence ≤ endOfBatch + 1)
    (hlast : s.nextSequence = endOfBatch + 1 → s.sequence < endOfBatch)
    (hdue : Due s0 ds s.nextSequence start)
    (hdue' : Due s0 ds s.nextSequence s.nextSequence) :
    LoopInvariant s0 ds (s.nextEvent start endOfBatch) := by
  have hlt : s.sequence < s.nextSequence := by omega
  unfold State.nextEvent
  split_ifs with hmore
  · exact ⟨hin, hlt, hcompleted, hstart, hle, hmore, hdue⟩
  · have hover : s.nextSequence = endOfBatch + 1 := by omega
    exact ⟨hin, hlt, hcompleted, hover, hlast hover, hdue'⟩

/-- A handler that throws leaves its delivery open, except for the exceptions that make the
loop start again at the same sequence. -/
lemma LoopInvariant.catchException {start : Int} {e e' : Exception}
    (hin : InOrder s0 (⟨s.nextSequence, start, .threw e⟩ :: ds))
    (hcompleted : CompletedUpTo s0 (⟨s.nextSequence, start, .threw e⟩ :: ds) (s.nextSequence - 1))
    (hlt : s.sequence < s.nextSequence)
    (he : e' = .TimeoutException ∨ e' = .AlertException → e = e') :
    LoopInvariant s0 (⟨s.nextSequence, start, .threw e⟩ :: ds) (s.catchException e') := by
  cases e' with
  | TimeoutException => exact ⟨hin, hlt, hcompleted, ⟨Or.inl (he (Or.inl rfl)), rfl, rfl⟩⟩
  | AlertException => exact ⟨hin, hlt, hcompleted, ⟨Or.inr (he (Or.inr rfl)), rfl, rfl⟩⟩
  | RewindableException | exception => exact ⟨hin, hlt, hcompleted, start, e, rfl⟩
  | other => exact ⟨hin, hlt, hcompleted, trivial⟩

lemma LoopInvariant.throwException {start : Int} {e : Exception}
    (hin : InOrder s0 (⟨s.nextSequence, start, .threw e⟩ :: ds))
    (hcompleted : CompletedUpTo s0 (⟨s.nextSequence, start, .threw e⟩ :: ds) (s.nextSequence - 1))
    (hlt : s.sequence < start) (hle : start ≤ s.nextSequence) :
    LoopInvariant s0 (⟨s.nextSequence, start, .threw e⟩ :: ds) (s.throwException p start e) := by
  have hlt' : s.sequence < s.nextSequence := by omega
  cases e with
  | RewindableException =>
    simp only [State.throwException, State.catchRewindable]
    split
    · exact ⟨hin, hlt', hcompleted, hlt, hle, _, rfl⟩
    · exact LoopInvariant.catchException hin hcompleted hlt' (by simp)
  | TimeoutException | AlertException | exception | other =>
    exact LoopInvariant.catchException hin hcompleted hlt' fun _ => rfl

/-- The deliveries after a step. -/
def noteStep (ds : List Delivery) (s : State) (i : Input) : List Delivery :=
  (call s i).elim ds (note ds)

lemma noteStep_onBatchStart (ds : List Delivery) (s : State) (thrown : Option Exception) :
    noteStep ds s (.onBatchStart thrown) = ds := by
  have hnote : ∀ batchSize queueDepth, note ds (.onBatchStart batchSize queueDepth) = ds := by
    intro batchSize queueDepth
    rcases ds with - | ⟨⟨_, _, o⟩, ds⟩
    · rfl
    · cases o <;> rfl
  unfold noteStep call
  cases s.pc <;> simp [hnote]

lemma noteStep_onTimeout (ds : List Delivery) (s : State) (thrown : Option Exception) :
    noteStep ds s (.onTimeout thrown) = ds := by
  have hnote : ∀ sequence, note ds (.onTimeout sequence) = ds := by
    intro sequence
    rcases ds with - | ⟨⟨_, _, o⟩, ds⟩
    · rfl
    · cases o <;> rfl
  unfold noteStep call
  cases s.pc <;> simp [hnote]

/-- `waitFor` has returned. -/
lemma LoopInvariant.available (h : LoopInvariant s0 ds s) (hpc : s.pc = .waitFor)
    (availableSequence : Int) : LoopInvariant s0 ds (s.available p availableSequence) := by
  obtain ⟨hin, hlt, hcompleted, hat⟩ := h
  have hoffset := p.batchLimitOffset_nonneg
  rw [hpc] at hat
  unfold State.available
  dsimp only
  split_ifs with hbelow hnonempty
  · exact ⟨hin, hlt, hcompleted, by rw [hpc]; exact hat⟩
  · exact ⟨hin, hlt, hcompleted, rfl, hnonempty, hat⟩
  · omega

/-- `onEvent` has returned. -/
lemma LoopInvariant.onEvent {start endOfBatch : Int} (h : LoopInvariant s0 ds s)
    (hpc : s.pc = .onEvent start endOfBatch) :
    LoopInvariant s0 (noteStep ds s (.onEvent none))
      ({ s with event := some s.nextSequence, nextSequence := s.nextSequence + 1 }.nextEvent
        start endOfBatch) := by
  obtain ⟨hin, hlt, hcompleted, hat⟩ := h
  rw [hpc] at hat
  obtain ⟨hstart, hle, hend, hdue⟩ := hat
  simp only [noteStep, call, hpc, Option.elim_some, note, Option.elim_none]
  refine LoopInvariant.nextEvent ⟨hdue, hin⟩ ?_ hstart ?_ ?_ ?_ ?_ ?_
  · have := hcompleted.complete (d := ⟨s.nextSequence, start, .returned⟩) (by simp)
      (Or.inl rfl)
    simpa using this
  · simp only; omega
  · simp only; omega
  · simp only; omega
  · exact ⟨rfl, Or.inl rfl⟩
  · exact ⟨rfl, Or.inr rfl⟩

lemma LoopInvariant.onEventThrows {start endOfBatch : Int} (h : LoopInvariant s0 ds s)
    (hpc : s.pc = .onEvent start endOfBatch) (e : Exception) :
    LoopInvariant s0 (noteStep ds s (.onEvent (some e)))
      ({ s with event := some s.nextSequence }.throwException p start e) := by
  obtain ⟨hin, hlt, hcompleted, hat⟩ := h
  rw [hpc] at hat
  obtain ⟨hstart, hle, hend, hdue⟩ := hat
  simp only [noteStep, call, hpc, Option.elim_some, note]
  exact LoopInvariant.throwException (s := { s with event := some s.nextSequence })
    ⟨hdue, hin⟩ (hcompleted.cons _) hstart hle

/-- The open delivery is to be repeated, with its batch. -/
lemma LoopInvariant.rewinds {start : Int} (h : LoopInvariant s0 ds s)
    (hpc : s.pc = .attemptRewind start) :
    LoopInvariant s0 (noteStep ds s (.handleRewindException (.ok .REWIND)))
      { s with nextSequence := start, pc := .waitFor } := by
  obtain ⟨hin, hlt, hcompleted, hat⟩ := h
  rw [hpc] at hat
  obtain ⟨hstart, hle, e, hhead⟩ := hat
  obtain ⟨ds, rfl⟩ := List.head?_eq_some_iff.mp hhead
  simp only [noteStep, call, hpc, Option.elim_some, note]
  exact ⟨⟨hin.1, hin.2⟩, hstart, hcompleted.resolve.mono (Int.sub_le_sub_right hle 1), rfl, rfl⟩

/-- It stays open for the exception handler. -/
lemma LoopInvariant.rethrows {start : Int} (h : LoopInvariant s0 ds s)
    (hpc : s.pc = .attemptRewind start) :
    LoopInvariant s0 (noteStep ds s (.handleRewindException (.ok .THROW)))
      { s with retriesAttempted := 0, pc := .handleEventException } := by
  obtain ⟨hin, hlt, hcompleted, hat⟩ := h
  rw [hpc] at hat
  obtain ⟨hstart, hle, e, hhead⟩ := hat
  obtain ⟨ds, rfl⟩ := List.head?_eq_some_iff.mp hhead
  simp only [noteStep, call, hpc, Option.elim_some, note]
  exact ⟨hin, hlt, hcompleted, start, e, rfl⟩

/-- A report of a sequence other than the one delivered last changes no outcome. -/
lemma note_handleEventException_of_due {sequence next start : Int} {event : Option Int}
    (hdue : Due s0 ds next start) (hlt : sequence < next) :
    note ds (.handleEventException sequence event) = ds := by
  match ds, hdue with
  | [], _ => rfl
  | ⟨s, start, .threw e⟩ :: ds, hdue =>
    obtain ⟨-, hs, -⟩ := hdue
    have hne : sequence ≠ s := by simp only at hs; omega
    simp only [note, if_neg hne]
  | ⟨s, start, .returned⟩ :: ds, _ => rfl
  | ⟨s, start, .rewound⟩ :: ds, _ => rfl
  | ⟨s, start, .reported⟩ :: ds, _ => rfl

/-- The open delivery has been reported. -/
lemma LoopInvariant.handled (h : LoopInvariant s0 ds s) (hpc : s.pc = .handleEventException)
    (returns : Bool) :
    LoopInvariant s0 (noteStep ds s (.handleEventException returns))
      { s with running := if returns then s.running else .HALTED, pc := .failed } := by
  obtain ⟨hin, hlt, hcompleted, hat⟩ := h
  rw [hpc] at hat
  obtain ⟨start, e, hhead⟩ := hat
  obtain ⟨ds, rfl⟩ := List.head?_eq_some_iff.mp hhead
  simp only [noteStep, call, hpc, Option.elim_some, note, if_true]
  exact ⟨⟨hin.1, hin.2⟩, hlt, hcompleted.resolve, start, rfl⟩

/-- The exception of `onTimeout` has been reported. -/
lemma LoopInvariant.timeoutHandled {available : Int} (h : LoopInvariant s0 ds s)
    (hpc : s.pc = .onTimeoutFailed available) (returns : Bool) :
    LoopInvariant s0 (noteStep ds s (.handleEventException returns))
      { s with running := if returns then s.running else .HALTED, pc := .waitFor } := by
  obtain ⟨hin, hlt, hcompleted, hat⟩ := h
  rw [hpc] at hat
  obtain ⟨hbelow, hdue⟩ := hat
  simp only [noteStep, call, hpc, Option.elim_some, note_handleEventException_of_due hdue hbelow]
  exact ⟨hin, hlt, hcompleted, hdue⟩

/-- The reported sequence is passed. -/
lemma LoopInvariant.skip (h : LoopInvariant s0 ds s) (hpc : s.pc = .failed) :
    LoopInvariant s0 ds { s with
      sequence := s.nextSequence, nextSequence := s.nextSequence + 1, pc := .waitFor } := by
  obtain ⟨hin, hlt, hcompleted, hat⟩ := h
  rw [hpc] at hat
  obtain ⟨start, hhead⟩ := hat
  obtain ⟨ds, rfl⟩ := List.head?_eq_some_iff.mp hhead
  refine ⟨hin, by simp, ?_, rfl, rfl⟩
  intro t ht ht'
  simp only [add_sub_cancel_right] at ht'
  by_cases hle : t ≤ s.nextSequence - 1
  · exact hcompleted t ht hle
  · exact ⟨_, List.mem_cons_self, by simp only; omega, Or.inr rfl⟩

/-- Another thread's `halt()` does not show here. -/
lemma LoopInvariant.running (h : LoopInvariant s0 ds s) (r : Running) :
    LoopInvariant s0 ds { s with running := r } := by
  obtain ⟨hin, hlt, hcompleted, hat⟩ := h
  refine ⟨hin, hlt, hcompleted, ?_⟩
  show At s0 ds { s with running := r } s.pc
  revert hat
  cases s.pc <;> exact id

/-- Every step of `processEvents` keeps its invariant. -/
theorem LoopInvariant.step {i : Input} (h : LoopInvariant s0 ds s) (hi : i.Expected)
    (hs : p.step s i = some s') : LoopInvariant s0 (noteStep ds s i) s' := by
  obtain ⟨hin, hlt, hcompleted, hat⟩ := id h
  cases step_iff.mp hs with
  | available hpc => exact h.available hpc _
  | waitForThrows hpc =>
    rw [hpc] at hat
    rcases hi with rfl | rfl <;> exact ⟨hin, hlt, hcompleted, hat⟩
  | onBatchStart hpc =>
    rw [hpc] at hat
    obtain ⟨rfl, hend, hdue⟩ := hat
    rw [noteStep_onBatchStart]
    exact LoopInvariant.nextEvent hin hcompleted hlt le_rfl (by omega) (by omega) hdue hdue
  | onBatchStartThrows hpc => cases hi
  | onEvent hpc => exact h.onEvent hpc
  | onEventThrows hpc => exact h.onEventThrows hpc _
  | endOfBatch hpc =>
    rw [hpc] at hat
    obtain ⟨hnext, hend, hdue⟩ := hat
    exact ⟨hin, by simp only; omega, hcompleted, hdue⟩
  | rewinds hpc => exact h.rewinds hpc
  | rethrows hpc => exact h.rethrows hpc
  | strategyThrows hpc => exact hi.elim
  | onTimeout hpc =>
    rw [hpc] at hat
    rw [noteStep_onTimeout]
    exact ⟨hin, hlt, hcompleted, hat⟩
  | onTimeoutThrows hpc =>
    rw [hpc] at hat
    rw [noteStep_onTimeout]
    exact ⟨hin, hlt, hcompleted, hlt, hat⟩
  | onTimeoutEscapes hpc =>
    rw [noteStep_onTimeout]
    exact ⟨hin, hlt, hcompleted, trivial⟩
  | timeoutHandled hpc => exact h.timeoutHandled hpc _
  | handled hpc => exact h.handled hpc _
  | checkRunning hpc =>
    rw [hpc] at hat
    refine ⟨hin, hlt, hcompleted, ?_⟩
    show At s0 ds _ (if s.running ≠ .RUNNING then .exited false else .waitFor)
    split_ifs
    · trivial
    · exact hat
  | skip hpc => exact h.skip hpc
  | halt => exact h.running _

/-- `sequence_` never decreases. -/
lemma LoopInvariant.sequence_le {i : Input} (h : LoopInvariant s0 ds s)
    (hs : p.step s i = some s') : s.sequence ≤ s'.sequence := by
  have hlt := h.sequence_lt
  have hat := h.atPc
  rcases step_sequence hs with heq | ⟨endOfBatch, -, hpc, heq⟩ | ⟨-, -, heq⟩
  · exact heq.ge
  · rw [hpc] at hat
    exact heq ▸ hat.2.1.le
  · omega

/-! ### Runs -/

lemma deliveries_step (calls : List Call) (s : State) (i : Input) :
    deliveries ((call s i).toList ++ calls) = noteStep (deliveries calls) s i := by
  unfold noteStep
  cases call s i <;> rfl

/-- The invariant of the loop, for a processor with its history. -/
lemma loopInvariant_transitions {inputs : List Input} (h : ∀ i ∈ inputs, i.Expected) :
    ∀ x ∈ transitions (Run.step p) ⟨enter s0, []⟩ inputs,
      LoopInvariant s0 (deliveries x.pre.calls) x.pre.state ∧
        LoopInvariant s0 (deliveries x.post.calls) x.post.state := by
  refine transitions_invariant (fun r : Run => LoopInvariant s0 (deliveries r.calls) r.state)
    (fun x => x.act.Expected) ?_ (loopInvariant_enter s0) ?_
  · intro r i r' hinv hs hi
    simp only [Run.step, Option.map_eq_some_iff] at hs
    obtain ⟨s', hs, rfl⟩ := hs
    rw [deliveries_step]
    exact hinv.step hi hs
  · intro x hx
    exact h x.act (mem_transitions hx).1

/-- Without repetitions the deliveries are `s0 + 1, s0 + 2, …`, each once. -/
lemma InOrder.sequences_eq (h : InOrder s0 ds) (hds : ∀ d ∈ ds, ¬ d.Repeated) :
    ds.reverse.map (·.sequence) = (List.range ds.length).map fun k : Nat => s0 + 1 + k := by
  induction ds with
  | nil => rfl
  | cons d ds ih =>
    obtain ⟨hdue, hrest⟩ := h
    have hprev := ih hrest fun e he => hds e (List.mem_cons_of_mem _ he)
    have hd : d.sequence = s0 + 1 + ds.length := by
      rcases ds with - | ⟨e, ds⟩
      · simpa [Due] using hdue
      · have he := hds e (by simp)
        have hlast := congrArg List.getLast? hprev
        simp only [List.reverse_cons, List.map_append, List.map_cons, List.map_nil,
          List.getLast?_concat, List.length_cons, List.range_succ, Option.some.injEq] at hlast
        have hnext : d.sequence = e.sequence + 1 := by
          unfold Delivery.Repeated at he
          simp only [Due, Follows] at hdue
          revert hdue he
          cases e.outcome <;> simp <;> tauto
        simp only [List.length_cons, hnext, hlast]
        push_cast
        omega
    rw [List.reverse_cons, List.map_append, hprev, List.length_cons, List.range_succ,
      List.map_append]
    simp [hd]

/-- In every run of `processEvents` from `s0`, with any barrier answers, exceptions, rewinds and
exception handlers: `sequence_` never decreases, every sequence up to it was delivered and the
call returned or was reported, the deliveries are in order, and without repetitions each is made
once. (`nextSequence + batchLimitOffset_` is taken to stay within the `int64_t` that the source has
for it.) -/
theorem processEvents_delivers (p : BatchEventProcessor) (s0 : Int) (inputs : List Input)
    (h : ∀ i ∈ inputs, i.Expected) :
    ∀ x ∈ transitions (Run.step p) ⟨enter s0, []⟩ inputs,
      let ds := deliveries x.post.calls
      x.pre.state.sequence ≤ x.post.state.sequence ∧
        CompletedUpTo s0 ds x.post.state.sequence ∧
        InOrder s0 ds ∧
        ((∀ d ∈ ds, ¬ d.Repeated) →
          ds.reverse.map (·.sequence) = (List.range ds.length).map fun k : Nat => s0 + 1 + k) := by
  intro x hx ds
  obtain ⟨hpre, hpost⟩ := loopInvariant_transitions h x hx
  obtain ⟨-, hs⟩ := mem_transitions hx
  simp only [Run.step, Option.map_eq_some_iff] at hs
  obtain ⟨s', hs, hx'⟩ := hs
  refine ⟨?_, ?_, hpost.inOrder, hpost.inOrder.sequences_eq⟩
  · rw [← hx']
    exact hpre.sequence_le hs
  · exact hpost.completed.mono (by have := hpost.sequence_lt; omega)

/-- A batch of two that is rewound at its first event and fails at its second. -/
def rewindThenFail : List Input :=
  [.waitFor (.ok 1), .onBatchStart none, .onEvent (some .RewindableException),
    .handleRewindException (.ok .REWIND), .waitFor (.ok 1), .onBatchStart none, .onEvent none,
    .onEvent (some .exception), .handleEventException true, .skip, .waitFor (.ok 0)]

theorem processEvents_delivers_rewindThenFail :
    let ts := transitions (Run.step ⟨9, .TryRewindHandler false, by decide⟩) ⟨enter (-1), []⟩
      rewindThenFail
    ts.length = 11 ∧ ∀ x ∈ ts,
      CompletedUpTo (-1) (deliveries x.post.calls) x.post.state.sequence := by
  refine ⟨rfl, ?_⟩
  intro x hx
  refine (processEvents_delivers ⟨9, .TryRewindHandler false, by decide⟩ (-1) rewindThenFail ?_
    x hx).2.1
  simp [rewindThenFail, Input.Expected]

end Disruptor.BatchEventProcessor
