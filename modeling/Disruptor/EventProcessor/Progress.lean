import Disruptor.EventProcessor.BatchEventProcessor

/-!
# How far a `BatchEventProcessor` has got

Whatever the handler, the rewind strategy and the exception handler do: `sequence_` only moves up
to what the barrier has allowed, and every sequence that it has passed was dealt with: its
`onEvent` returned, or it was reported to the exception handler.
-/

namespace Disruptor.BatchEventProcessor

/-- The call deals with the sequence. -/
def Call.DealsWith (sequence : Int) : Call → Prop
  | .onEvent s _ _ none => s = sequence
  | .handleEventException s _ => s = sequence
  | _ => False

/-- One of the calls deals with the sequence. -/
def DealtWith (calls : List Call) (sequence : Int) : Prop :=
  ∃ c ∈ calls, c.DealsWith sequence

/-- What `processEvents` knows at each of its places, where `Allowed` is what the barrier has
answered. -/
def AtPc (Allowed : Int → Prop) (calls : List Call) (s : State) : Pc → Prop
  | .onBatchStart start endOfBatch _ =>
    start = s.nextSequence ∧ s.nextSequence ≤ endOfBatch ∧ Allowed endOfBatch
  | .onEvent start endOfBatch =>
    s.sequence < start ∧ start ≤ s.nextSequence ∧ s.nextSequence ≤ endOfBatch ∧ Allowed endOfBatch
  | .endOfBatch endOfBatch =>
    s.nextSequence = endOfBatch + 1 ∧ s.sequence < endOfBatch ∧ Allowed endOfBatch
  | .attemptRewind start =>
    s.sequence < start ∧ start ≤ s.nextSequence ∧ Allowed s.nextSequence
  | .handleEventException => Allowed s.nextSequence
  | .failed => Allowed s.nextSequence ∧ DealtWith calls s.nextSequence
  | _ => True

/-- `sequence_` has moved from `s0` to what was allowed, over sequences that were dealt with. -/
structure Passed (s0 : Int) (Allowed : Int → Prop) (calls : List Call) (s : State) : Prop where
  start_le : s0 ≤ s.sequence
  sequence_lt : s.sequence < s.nextSequence
  allowed : s.sequence = s0 ∨ Allowed s.sequence
  dealt : ∀ t, s0 < t → t < s.nextSequence → DealtWith calls t

/-- The progress of `processEvents` since `sequence_` was `s0`. -/
structure Progress (s0 : Int) (Allowed : Int → Prop) (calls : List Call) (s : State) : Prop
    extends Passed s0 Allowed calls s where
  atPc : AtPc Allowed calls s s.pc

/-- What the barrier answers. -/
def Input.Granted (Allowed : Int → Prop) (s : State) : Input → Prop
  | .waitFor (.ok a) => s.nextSequence ≤ a → Allowed a
  | .waitFor (.error e) => e = .TimeoutException ∨ e = .AlertException
  | _ => True

variable {p : BatchEventProcessor} {s0 : Int} {Allowed Allowed' : Int → Prop}
  {calls calls' : List Call} {s s' : State}

lemma DealtWith.mono {t : Int} (h : DealtWith calls t) (hsub : ∀ c ∈ calls, c ∈ calls') :
    DealtWith calls' t := by
  obtain ⟨c, hc, hd⟩ := h
  exact ⟨c, hsub c hc, hd⟩

lemma Passed.mono (h : Passed s0 Allowed calls s) (ha : ∀ a, Allowed a → Allowed' a)
    (hsub : ∀ c ∈ calls, c ∈ calls') : Passed s0 Allowed' calls' s :=
  ⟨h.start_le, h.sequence_lt, h.allowed.imp_right (ha _),
    fun t ht ht' => (h.dealt t ht ht').mono hsub⟩

/-- What is known stays known when more is allowed, and more calls do not undo what was dealt
with. -/
lemma Progress.mono (h : Progress s0 Allowed calls s) (ha : ∀ a, Allowed a → Allowed' a)
    (hsub : ∀ c ∈ calls, c ∈ calls') : Progress s0 Allowed' calls' s := by
  refine ⟨h.toPassed.mono ha hsub, ?_⟩
  have hat := h.atPc
  revert hat
  cases s.pc with
  | onBatchStart start endOfBatch available => exact fun hat => ⟨hat.1, hat.2.1, ha _ hat.2.2⟩
  | onEvent start endOfBatch => exact fun hat => ⟨hat.1, hat.2.1, hat.2.2.1, ha _ hat.2.2.2⟩
  | endOfBatch endOfBatch => exact fun hat => ⟨hat.1, hat.2.1, ha _ hat.2.2⟩
  | attemptRewind start => exact fun hat => ⟨hat.1, hat.2.1, ha _ hat.2.2⟩
  | handleEventException => exact fun hat => ha _ hat
  | failed => exact fun hat => ⟨ha _ hat.1, hat.2.mono hsub⟩
  | _ => exact fun _ => trivial

lemma progress_enter (s0 : Int) : Progress s0 Allowed calls (enter s0) where
  start_le := le_rfl
  sequence_lt := by simp [enter]
  allowed := Or.inl rfl
  dealt := by
    intro t ht ht'
    simp only [enter] at ht'
    omega
  atPc := trivial

/-! ### What is passed -/

/-- `onEvent` has returned; `q` is what `sequence_` is then. -/
lemma Passed.onEvent (h : Passed s0 Allowed calls s) {start endOfBatch q : Int}
    (hpc : s.pc = .onEvent start endOfBatch) (hle : s.sequence ≤ q) (hlt : q ≤ s.nextSequence)
    (ha : q = s0 ∨ Allowed q) :
    Passed s0 Allowed ((call s (.onEvent none)).toList ++ calls) { s with
      sequence := q, event := some s.nextSequence, nextSequence := s.nextSequence + 1 } := by
  refine ⟨h.start_le.trans hle, Int.lt_add_one_iff.mpr hlt, ha, ?_⟩
  intro t ht ht'
  by_cases hold : t < s.nextSequence
  · exact (h.dealt t ht hold).mono fun c hc => List.mem_append_right _ hc
  · simp only at ht'
    refine ⟨.onEvent s.nextSequence (decide (s.nextSequence = endOfBatch)) start none, ?_, ?_⟩
    · simp [call, hpc]
    · simp only [Call.DealsWith]
      omega

/-- The end of a batch is stored in `sequence_`. -/
lemma Passed.endOfBatch (h : Passed s0 Allowed calls s) {endOfBatch : Int}
    (hnext : s.nextSequence = endOfBatch + 1) (ha : Allowed endOfBatch) : Passed s0 Allowed calls
      { s with retriesAttempted := 0, sequence := endOfBatch, pc := .waitFor } := by
  have hstart := h.start_le
  have hlt := h.sequence_lt
  refine ⟨?_, ?_, Or.inr ha, h.dealt⟩
  · simp only
    omega
  · simp only
    omega

/-- An event was reported to the exception handler. -/
lemma Passed.handled (h : Passed s0 Allowed calls s) (hpc : s.pc = .handleEventException)
    (returns : Bool) :
    Passed s0 Allowed ((call s (.handleEventException returns)).toList ++ calls)
        { s with running := if returns then s.running else .HALTED, pc := .failed } ∧
      DealtWith ((call s (.handleEventException returns)).toList ++ calls) s.nextSequence := by
  refine ⟨⟨h.start_le, h.sequence_lt, h.allowed, ?_⟩, ?_⟩
  · exact fun t ht ht' => (h.dealt t ht ht').mono fun c hc => List.mem_append_right _ hc
  · exact ⟨.handleEventException s.nextSequence s.event, by simp [call, hpc], rfl⟩

/-- It is skipped. -/
lemma Passed.skip (h : Passed s0 Allowed calls s) (ha : Allowed s.nextSequence)
    (hdealt : DealtWith calls s.nextSequence) : Passed s0 Allowed calls { s with
      sequence := s.nextSequence, nextSequence := s.nextSequence + 1, pc := .waitFor } := by
  refine ⟨h.start_le.trans h.sequence_lt.le, Int.lt_add_one_iff.mpr le_rfl, Or.inr ha, ?_⟩
  intro t ht ht'
  simp only at ht'
  by_cases heq : t = s.nextSequence
  · exact heq ▸ hdealt
  · exact h.dealt t ht (by omega)

/-! ### The steps -/

/-- Another thread's `halt()` does not show here. -/
lemma Progress.running (h : Progress s0 Allowed calls s) (r : Running) :
    Progress s0 Allowed calls { s with running := r } := by
  refine ⟨⟨h.start_le, h.sequence_lt, h.allowed, h.dealt⟩, ?_⟩
  have hat := h.atPc
  show AtPc Allowed calls { s with running := r } s.pc
  revert hat
  cases s.pc <;> exact id

lemma Passed.catchException (h : Passed s0 Allowed calls s) (ha : Allowed s.nextSequence)
    (e : Exception) : Progress s0 Allowed calls (s.catchException e) := by
  cases e with
  | TimeoutException | AlertException | other =>
    exact ⟨⟨h.start_le, h.sequence_lt, h.allowed, h.dealt⟩, trivial⟩
  | RewindableException | exception =>
    exact ⟨⟨h.start_le, h.sequence_lt, h.allowed, h.dealt⟩, ha⟩

lemma Passed.throwException (h : Passed s0 Allowed calls s) {start : Int}
    (hstart : s.sequence < start) (hle : start ≤ s.nextSequence) (ha : Allowed s.nextSequence)
    (e : Exception) : Progress s0 Allowed calls (s.throwException p start e) := by
  cases e with
  | RewindableException =>
    simp only [State.throwException, State.catchRewindable]
    split
    · exact ⟨⟨h.start_le, h.sequence_lt, h.allowed, h.dealt⟩, hstart, hle, ha⟩
    · exact h.catchException ha _
  | TimeoutException => exact h.catchException ha .TimeoutException
  | AlertException => exact h.catchException ha .AlertException
  | exception => exact h.catchException ha .exception
  | other => exact h.catchException ha .other

/-- The inner loop goes on or ends. -/
lemma Passed.nextEvent (h : Passed s0 Allowed calls s) {start endOfBatch : Int}
    (hstart : s.sequence < start) (hle : start ≤ s.nextSequence)
    (hend : s.nextSequence ≤ endOfBatch + 1) (hlast : s.sequence < endOfBatch)
    (ha : Allowed endOfBatch) :
    Progress s0 Allowed calls (s.nextEvent start endOfBatch) := by
  unfold State.nextEvent
  split_ifs with hmore
  · exact ⟨⟨h.start_le, h.sequence_lt, h.allowed, h.dealt⟩, hstart, hle, hmore, ha⟩
  · have hover : s.nextSequence = endOfBatch + 1 := by omega
    exact ⟨⟨h.start_le, h.sequence_lt, h.allowed, h.dealt⟩, hover, hlast, ha⟩

/-- `waitFor` has answered with what is allowed. -/
lemma Passed.available (h : Passed s0 Allowed calls s)
    (hdown : ∀ a a', Allowed a → a' ≤ a → Allowed a') (hpc : s.pc = .waitFor)
    {availableSequence : Int}
    (ha : s.nextSequence ≤ availableSequence → Allowed availableSequence) :
    Progress s0 Allowed calls (s.available p availableSequence) := by
  have hoffset := p.batchLimitOffset_nonneg
  unfold State.available
  dsimp only
  split_ifs with hbelow hnonempty
  · refine ⟨h, ?_⟩
    rw [hpc]
    trivial
  · refine ⟨⟨h.start_le, h.sequence_lt, h.allowed, h.dealt⟩, rfl, hnonempty, ?_⟩
    exact hdown _ _ (ha (by omega)) (min_le_right _ _)
  · omega

/-- `onEvent` has returned. -/
lemma Progress.onEvent (h : Progress s0 Allowed calls s) {start endOfBatch : Int}
    (hpc : s.pc = .onEvent start endOfBatch) :
    Progress s0 Allowed ((call s (.onEvent none)).toList ++ calls)
      ({ s with event := some s.nextSequence, nextSequence := s.nextSequence + 1 }.nextEvent
        start endOfBatch) := by
  have hat := h.atPc
  have hlt := h.sequence_lt
  rw [hpc] at hat
  obtain ⟨hstart, hle, hend, ha⟩ := hat
  have hpassed := h.toPassed.onEvent hpc le_rfl hlt.le h.allowed
  refine hpassed.nextEvent hstart ?_ ?_ ?_ ha
  · simp only
    omega
  · simp only
    omega
  · simp only
    omega

/-- The batch is to be handled again from its start. -/
lemma Progress.rewinds (h : Progress s0 Allowed calls s) {start : Int}
    (hpc : s.pc = .attemptRewind start) :
    Progress s0 Allowed calls { s with nextSequence := start, pc := .waitFor } := by
  have hat := h.atPc
  rw [hpc] at hat
  obtain ⟨hstart, hle, ha⟩ := hat
  refine ⟨⟨h.start_le, hstart, h.allowed, ?_⟩, trivial⟩
  intro t ht ht'
  simp only at ht'
  exact h.dealt t ht (by omega)

/-- Every step of `processEvents` keeps its progress. -/
theorem Progress.step {i : Input} (h : Progress s0 Allowed calls s)
    (hdown : ∀ a a', Allowed a → a' ≤ a → Allowed a') (hi : i.Granted Allowed s)
    (hs : p.step s i = some s') :
    Progress s0 Allowed ((call s i).toList ++ calls) s' := by
  have hmono : ∀ {s' : State}, Progress s0 Allowed calls s' →
      Progress s0 Allowed ((call s i).toList ++ calls) s' :=
    fun h' => h'.mono (fun _ => id) fun c hc => List.mem_append_right _ hc
  have hat := h.atPc
  have hlt := h.sequence_lt
  cases step_iff.mp hs with
  | available hpc => exact hmono (h.toPassed.available hdown hpc hi)
  | waitForThrows hpc =>
    rcases hi with rfl | rfl <;>
      exact hmono ⟨⟨h.start_le, h.sequence_lt, h.allowed, h.dealt⟩, trivial⟩
  | onBatchStart hpc =>
    rw [hpc] at hat
    obtain ⟨rfl, hend, ha⟩ := hat
    exact hmono (h.toPassed.nextEvent hlt le_rfl (by omega) (by omega) ha)
  | onBatchStartThrows hpc =>
    rw [hpc] at hat
    obtain ⟨rfl, hend, ha⟩ := hat
    exact hmono (h.toPassed.throwException hlt le_rfl (hdown _ _ ha hend) _)
  | onEvent hpc => exact h.onEvent hpc
  | onEventThrows hpc =>
    rw [hpc] at hat
    obtain ⟨hbatch, hle, hend, ha⟩ := hat
    have hpassed : Passed s0 Allowed calls { s with event := some s.nextSequence } :=
      ⟨h.start_le, h.sequence_lt, h.allowed, h.dealt⟩
    exact hmono (hpassed.throwException hbatch hle (hdown _ _ ha hend) _)
  | endOfBatch hpc =>
    rw [hpc] at hat
    exact hmono ⟨h.toPassed.endOfBatch hat.1 hat.2.2, trivial⟩
  | rewinds hpc => exact hmono (h.rewinds hpc)
  | rethrows hpc =>
    rw [hpc] at hat
    exact hmono ⟨⟨h.start_le, h.sequence_lt, h.allowed, h.dealt⟩, hat.2.2⟩
  | strategyThrows hpc =>
    rw [hpc] at hat
    exact hmono (h.toPassed.catchException hat.2.2 _)
  | onTimeout hpc | onTimeoutThrows hpc | onTimeoutEscapes hpc | timeoutHandled hpc =>
    exact hmono ⟨⟨h.start_le, h.sequence_lt, h.allowed, h.dealt⟩, trivial⟩
  | handled hpc =>
    rw [hpc] at hat
    have hpassed := h.toPassed.handled hpc
    exact ⟨(hpassed _).1, hat, (hpassed _).2⟩
  | checkRunning hpc =>
    refine hmono ⟨⟨h.start_le, h.sequence_lt, h.allowed, h.dealt⟩, ?_⟩
    show AtPc Allowed calls _ (if s.running ≠ .RUNNING then .exited false else .waitFor)
    split_ifs <;> trivial
  | skip hpc =>
    rw [hpc] at hat
    exact hmono ⟨h.toPassed.skip hat.1 hat.2, trivial⟩
  | halt => exact hmono (h.running _)

/-- `sequence_` never decreases. -/
lemma Progress.sequence_le {i : Input} (h : Progress s0 Allowed calls s)
    (hs : p.step s i = some s') : s.sequence ≤ s'.sequence := by
  have hlt := h.sequence_lt
  have hat := h.atPc
  rcases step_sequence hs with heq | ⟨endOfBatch, -, hpc, heq⟩ | ⟨-, -, heq⟩
  · exact heq.ge
  · rw [hpc] at hat
    exact heq ▸ hat.2.1.le
  · omega

end Disruptor.BatchEventProcessor
