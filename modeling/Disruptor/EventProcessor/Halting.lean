import Disruptor.Barrier.Alert
import Disruptor.Core.Progress
import Disruptor.EventProcessor.Notifications
import Disruptor.EventProcessor.Quiet

/-!
# No `halt()` is lost

`run()` announces `RUNNING`, clears the alert and then reads `running_` again; `halt()` stores
`HALTED` before it alerts. So an alert that is cleared belongs to a `halt()` whose `HALTED` is still
to be read.
-/

namespace Disruptor.BatchEventProcessor.Lifecycle

open Disruptor.Core

variable {T ι : Type*}

/-- At most one thread is in `processEvents()`. -/
def Exclusive (c : Config T ι) : Prop :=
  ∀ t u n m, (c.threads t).pc.inside = some n → (c.threads u).pc.inside = some m → t = u

/-- The call of `waitFor` has checked the alert for the first time. -/
def HasBegun : WaitCall ι → Prop
  | .checkAlert => False
  | _ => True

/-- The run `n` is in a call of `waitFor` that it has begun. -/
def MidWait (n : Nat) (c : Config T ι) : Prop :=
  ∃ t state call, (c.threads t).pc = .processEvents n state call ∧ HasBegun call

/-- The run that begins a call of `waitFor` with the step. -/
def waitBegins (x : Transition (Config T ι) (Action T ι)) : Option Nat :=
  match (x.pre.threads x.act.1).pc, x.act.2 with
  | .processEvents n _ .checkAlert, .wait _ _ => some n
  | _, _ => none

/-- The run whose call of `waitFor` ends with the step, and how it ends. -/
def waitEnds (b : Barrier ι) (x : Transition (Config T ι) (Action T ι)) :
    Option (Nat × Except Exception Int) :=
  match (x.pre.threads x.act.1).pc, x.act.2 with
  | .processEvents n state call, .wait view choice =>
    match call.step b { view with alerted := x.pre.shared.alerted } state.nextSequence choice with
    | some (.inr answer) => some (n, answer)
    | _ => none
  | _, _ => none

/-- A call of `waitFor` that the run `n` has made returns normally. -/
def returnsNormally (b : Barrier ι) (n : Nat) (x : Transition (Config T ι) (Action T ι)) : Bool :=
  match waitEnds b x with
  | some (m, .ok _) => m = n
  | _ => false

/-- The step is one of the thread `t` in `processEvents()` of the run `n`. -/
def stepsInside [DecidableEq T] (t : T) (n : Nat) (x : Transition (Config T ι) (Action T ι)) :
    Bool :=
  x.act.1 = t ∧ (x.pre.threads t).pc.inside = some n

/-- How many steps it takes at most to leave `processEvents()` when `running_` is `HALTED` and the
barrier alerted. -/
def stepsLeft (state : State) : Nat :=
  match state.pc with
  | .exited _ => 0
  | .alerted => 1
  | .waitFor => 2
  | .endOfBatch _ | .failed => 3
  | .onTimeoutFailed _ => 4
  | .onTimeout | .handleEventException => 5
  | .attemptRewind _ => 6
  | .onEvent _ endOfBatch => 7 + (endOfBatch + 1 - state.nextSequence).toNat
  | .onBatchStart _ endOfBatch _ => 8 + (endOfBatch + 1 - state.nextSequence).toNat

/-- The same of a thread. -/
def CallPc.stepsLeft : CallPc ι → Nat
  | .processEvents _ state _ => Lifecycle.stepsLeft state
  | .handlerAlert _ state => Lifecycle.stepsLeft state + 1
  | _ => 0

/-- Whether there are flags to read is as the call of `waitFor` has found it. -/
def CallPc.Suits (view : WaitView ι) : CallPc ι → Prop
  | .processEvents _ _ call => call.Suits view
  | _ => True

/-- The step is one of the thread `t`, to which the cursor, the dependent sequences and the flags
show as in `view`, and the exception handler does not throw in it. -/
def Alone (t : T) (view : WaitView ι) (x : Transition (Config T ι) (Action T ι)) : Prop :=
  x.act.1 = t ∧
    match x.act.2 with
    | .wait view' _ => view' = view
    | .input i => i.alerts = false
    | _ => True

/-- The run `n` from a state on in which a `halt()` that has stored `HALTED` during it has
completed. -/
structure HaltObserved [DecidableEq T] (p : BatchEventProcessor) (b : Barrier ι) (n : Nat)
    (c : Config T ι) : Prop where
  /-- No call of `waitFor` that it begins returns normally. -/
  throws : ∀ as, ∀ x ∈ transitions (pool T p b).next c as, waitBegins x = some n →
    waitEnds b x = some (n, .error .AlertException)
  /-- At most the call that it is in returns, so that at most one more batch is handled. -/
  atMostOne : ∀ as, (transitions (pool T p b).next c as).countP (returnsNormally b n) ≤ 1
  none_of_not_midWait : ¬ MidWait n c →
    ∀ as, (transitions (pool T p b).next c as).countP (returnsNormally b n) = 0
  /-- Out of `waitFor` it leaves `processEvents()` within a bounded number of its steps. -/
  leaves : ¬ MidWait n c → ∀ as t,
    (transitions (pool T p b).next c as).countP (stepsInside t n) ≤ (c.threads t).pc.stepsLeft
  /-- From wherever it is, in `waitFor` too, it can leave it by steps of its thread alone, whatever
  the sequences show all the while: its wait strategy comes to find the alert. -/
  leavesAlone : ∀ t view, (c.threads t).pc.inside = some n → (c.threads t).pc.Suits view →
    ∃ c', ReachesBy (pool T p b).next (Alone t view) c c' ∧
      (c'.threads t).pc = .onShutdown (some n) false
  /-- Until it has left there is a step to take. -/
  enabled : ∀ t, (c.threads t).pc.inside = some n → ∃ a, ((pool T p b).next c ⟨t, a⟩).isSome = true

variable [DecidableEq T] {p : BatchEventProcessor} {b : Barrier ι} {c c' : Config T ι}
  {as : List (Action T ι)} {act : Action T ι} {t : T} {n : Nat} {sequence : Int}
  {state state' : State} {i : Input} {call : WaitCall ι} {view : WaitView ι} {s s' : Shared T}
  {l l' : Caller ι} {a : CallAction ι}

omit [DecidableEq T] in
lemma exclusive_of_holds (h : (outline T p b).Holds c) : Exclusive c := by
  intro t u n m ht hu
  have hct : c.shared.current = some (t, n) := (h.threads t).owned n (CallPc.owned_of_inside ht)
  have hcu : c.shared.current = some (u, m) := (h.threads u).owned m (CallPc.owned_of_inside hu)
  rw [hct] at hcu
  exact (Prod.mk.inj (Option.some.inj hcu)).1

/-! ### After a completed `halt()` -/

/-- A `halt()` during the run `n` has completed. -/
structure Halted (p : BatchEventProcessor) (b : Barrier ι) (n : Nat) (c : Config T ι) : Prop where
  holds : (outline T p b).Holds c
  halted : n ∈ c.shared.halted

lemma Halted.next (h : Halted p b n c) (hs : (pool T p b).next c act = some c') :
    Halted p b n c' := by
  obtain ⟨t, a⟩ := act
  refine ⟨h.holds.next hs, ?_⟩
  obtain ⟨s', l', hm, rfl⟩ := move_of_next hs
  exact hm.halted_mono h.halted

omit [DecidableEq T] in
/-- A call of `waitFor` finds the alert at its start. -/
lemma Halted.alerted (h : Halted p b n c) (hpc : (c.threads t).pc.inside = some n) :
    c.shared.alerted = true :=
  (h.holds.threads t).alerted n hpc h.halted

omit [DecidableEq T] in
lemma Halted.running (h : Halted p b n c) (hpc : (c.threads t).pc.owned = some n) :
    c.shared.running = .HALTED :=
  h.holds.shared.halted_running t n ((h.holds.threads t).owned n hpc) h.halted

omit [DecidableEq T] in
lemma not_hasBegun (h : ¬ MidWait n c) (hpc : (c.threads t).pc = .processEvents n state call) :
    call = .checkAlert := by
  cases call with
  | checkAlert => rfl
  | _ => exact absurd ⟨t, state, _, hpc, trivial⟩ h

/-- A call of `waitFor` that begins after the `halt()` has completed throws. -/
lemma Halted.throws (h : Halted p b n c) (hs : (pool T p b).next c act = some c')
    (hbegins : waitBegins ⟨c, act, c'⟩ = some n) :
    waitEnds b ⟨c, act, c'⟩ = some (n, .error .AlertException) := by
  obtain ⟨t, a⟩ := act
  simp only [waitBegins] at hbegins
  split at hbegins
  · rename_i m state view choice hpc
    obtain rfl := Option.some.inj hbegins
    have halerted := h.alerted (t := t) (by rw [hpc]; rfl)
    obtain ⟨s', l', hm, rfl⟩ := move_of_next hs
    have hstep : ∃ r, WaitCall.checkAlert.step b { view with alerted := c.shared.alerted }
        state.nextSequence choice = some r := by
      cases hm with
      | around haround =>
        rw [hpc] at haround
        cases haround
      | wait hpc' _ hs =>
        obtain ⟨rfl, rfl, rfl⟩ := CallPc.processEvents.inj (hpc.symm.trans hpc')
        exact ⟨_, hs⟩
      | answer hpc' _ hs =>
        obtain ⟨rfl, rfl, rfl⟩ := CallPc.processEvents.inj (hpc.symm.trans hpc')
        exact ⟨_, hs⟩
    obtain ⟨r, hr⟩ := hstep
    have heq := WaitCall.checkAlert_step halerted hr
    simp only [waitEnds, hpc, hr, heq]
  · cases hbegins

omit [DecidableEq T] in
/-- A call of `waitFor` that has begun was there before the step, which did not end it. -/
lemma Move.wait_of_hasBegun (hm : Move p b t s l a s' l')
    (hpc : l'.pc = .processEvents n state call) (hbegun : HasBegun call) :
    ∃ view choice call₀, a = .wait view choice ∧ l.pc = .processEvents n state call₀ ∧
      call₀.step b { view with alerted := s.alerted } state.nextSequence choice =
        some (.inl call) := by
  have hloop : ∀ {m i s' state'} {l' : Caller ι}, i ≠ .halt →
      s.processEvents p m l state' i = some (s', l') → l'.pc ≠ .processEvents n state call := by
    intro m i s' state' l' hi hs heq
    obtain ⟨state₁, pc', -, -, -, rfl, hpc'⟩ := processEvents_cases hi hs
    obtain rfl : pc' = .processEvents n state call := heq
    rcases hpc' with ⟨thrown, -, ⟨⟩⟩ | ⟨-, hpc'⟩
    split_ifs at hpc'
    obtain ⟨rfl, rfl, rfl⟩ := CallPc.processEvents.inj hpc'
    exact hbegun
  cases hm with
  | around haround hinside' =>
    rw [hpc] at hinside'
    cases hinside'
  | wait hpc' hat hs =>
    obtain ⟨rfl, rfl, rfl⟩ := CallPc.processEvents.inj hpc
    exact ⟨_, _, _, rfl, hpc', hs⟩
  | enter hpc' | handlerAlert hpc' =>
    obtain ⟨rfl, rfl, rfl⟩ := CallPc.processEvents.inj hpc
    exact absurd hbegun id
  | answer hpc' hat hs hs' => exact absurd hpc (hloop (by rintro ⟨⟩) hs')
  | input hpc' hown hs => exact absurd hpc (hloop (by rintro rfl; cases hown) hs)
  | _ => cases hpc

/-- No call of `waitFor` gets beyond its first alert check any more. -/
lemma Halted.not_midWait_next (h : Halted p b n c) (hmid : ¬ MidWait n c)
    (hs : (pool T p b).next c act = some c') : ¬ MidWait n c' := by
  obtain ⟨u, a⟩ := act
  obtain ⟨s', l', hm, rfl⟩ := move_of_next hs
  rintro ⟨t, state, call, hpc, hbegun⟩
  by_cases ht : t = u
  · subst ht
    simp only [Function.update_self] at hpc
    obtain ⟨view, choice, call₀, -, hpc₀, hstep⟩ := hm.wait_of_hasBegun hpc hbegun
    obtain rfl := not_hasBegun hmid hpc₀
    have halerted := h.alerted (t := t) (by rw [hpc₀]; rfl)
    cases WaitCall.checkAlert_step halerted hstep
  · simp only [Function.update_of_ne ht] at hpc
    exact hmid ⟨t, state, call, hpc, hbegun⟩

/-- A call that returns normally had begun before, and there is no other one. -/
lemma Halted.midWait_of_returns (h : Halted p b n c) (hs : (pool T p b).next c act = some c')
    (hreturns : returnsNormally b n ⟨c, act, c'⟩ = true) : MidWait n c ∧ ¬ MidWait n c' := by
  obtain ⟨u, a⟩ := act
  obtain ⟨s', l', hm, rfl⟩ := move_of_next hs
  simp only [returnsNormally, waitEnds] at hreturns
  split at hreturns
  · rename_i m v hends
    obtain rfl : m = n := by simpa using hreturns
    split at hends
    · rename_i k state call view choice hpc
      split at hends
      · rename_i answer hstep
        obtain ⟨rfl, rfl⟩ := Prod.mk.inj (Option.some.inj hends)
        have hbegun : HasBegun call := by
          cases call with
          | checkAlert =>
            have halerted := h.alerted (t := u) (by rw [hpc]; rfl)
            cases WaitCall.checkAlert_step halerted hstep
          | _ => trivial
        refine ⟨⟨u, state, call, hpc, hbegun⟩, ?_⟩
        rintro ⟨t, state', call', hpc', hbegun'⟩
        by_cases ht : t = u
        · subst ht
          simp only [Function.update_self] at hpc'
          obtain ⟨view', choice', call₀, hact, hpc₀, hstep₀⟩ := hm.wait_of_hasBegun hpc' hbegun'
          obtain ⟨rfl, rfl⟩ := CallAction.wait.inj hact
          obtain ⟨-, rfl, rfl⟩ := CallPc.processEvents.inj (hpc.symm.trans hpc₀)
          rw [hstep] at hstep₀
          cases hstep₀
        · simp only [Function.update_of_ne ht] at hpc'
          exact ht (exclusive_of_holds h.holds t u _ _ (by rw [hpc']; rfl) (by rw [hpc]; rfl))
      · cases hends
    · cases hends
  · cases hreturns

lemma Halted.none_of_not_midWait (h : Halted p b n c) (hmid : ¬ MidWait n c)
    (as : List (Action T ι)) :
    (transitions (pool T p b).next c as).countP (returnsNormally b n) = 0 := by
  induction as generalizing c with
  | nil => rfl
  | cons act as ih =>
    cases hs : (pool T p b).next c act with
    | none => simp [transitions_cons_of_none hs]
    | some c' =>
      rw [transitions_cons_of_some hs, List.countP_cons_of_neg]
      · exact ih (h.next hs) (h.not_midWait_next hmid hs)
      · exact fun hreturns => hmid (h.midWait_of_returns hs hreturns).1

lemma Halted.atMostOne (h : Halted p b n c) (as : List (Action T ι)) :
    (transitions (pool T p b).next c as).countP (returnsNormally b n) ≤ 1 := by
  induction as generalizing c with
  | nil => exact Nat.zero_le _
  | cons act as ih =>
    cases hs : (pool T p b).next c act with
    | none => simp [transitions_cons_of_none hs]
    | some c' =>
      rw [transitions_cons_of_some hs]
      by_cases hreturns : returnsNormally b n ⟨c, act, c'⟩ = true
      · have hrest := (h.next hs).none_of_not_midWait (h.midWait_of_returns hs hreturns).2 as
        rw [List.countP_cons_of_pos hreturns, hrest]
      · rw [List.countP_cons_of_neg hreturns]
        exact ih (h.next hs)

/-! ### Leaving `processEvents()` -/

lemma stepsLeft_catchException (state : State) (e : Exception) :
    stepsLeft (state.catchException e) ≤ 5 := by
  cases e <;> simp [State.catchException, stepsLeft]

lemma stepsLeft_throwException (state : State) (start : Int) (e : Exception) :
    stepsLeft (state.throwException p start e) ≤ 6 := by
  cases e with
  | RewindableException =>
    simp only [State.throwException, State.catchRewindable]
    split
    · simp [stepsLeft]
    · exact (stepsLeft_catchException state _).trans (Nat.le_succ 5)
  | TimeoutException | AlertException | exception | other =>
    simp only [State.throwException]
    exact (stepsLeft_catchException state _).trans (Nat.le_succ 5)

lemma stepsLeft_nextEvent (state : State) (start endOfBatch : Int) :
    stepsLeft (state.nextEvent start endOfBatch) =
      if state.nextSequence ≤ endOfBatch then 7 + (endOfBatch + 1 - state.nextSequence).toNat
      else 3 := by
  unfold State.nextEvent
  split_ifs <;> simp [stepsLeft]

/-- A step of `processEvents` comes closer to its end. -/
lemma stepsLeft_lt (hrunning : state.running = .HALTED) (hown : i.isOwn = true)
    (hs : p.step state i = some state') :
    stepsLeft state' + (if i.alerts then 1 else 0) < stepsLeft state := by
  cases step_iff.mp hs with
  | available | waitForThrows | halt => cases hown
  | onBatchStart hpc =>
    rw [stepsLeft_nextEvent]
    simp only [stepsLeft, hpc, Input.alerts, Bool.false_eq_true, if_false]
    split_ifs <;> omega
  | @onBatchStartThrows start _ _ e hpc =>
    have hle := stepsLeft_throwException (p := p) state start e
    simp only [stepsLeft, hpc, Input.alerts, Bool.false_eq_true, if_false] at hle ⊢
    omega
  | onEvent hpc =>
    rw [stepsLeft_nextEvent]
    simp only [stepsLeft, hpc, Input.alerts, Bool.false_eq_true, if_false]
    split_ifs <;> omega
  | @onEventThrows start _ e hpc =>
    have hle := stepsLeft_throwException (p := p)
      { state with event := some state.nextSequence } start e
    simp only [stepsLeft, hpc, Input.alerts, Bool.false_eq_true, if_false] at hle ⊢
    omega
  | @strategyThrows start e hpc =>
    have hle := stepsLeft_catchException state e
    simp only [stepsLeft, hpc, Input.alerts, Bool.false_eq_true, if_false] at hle ⊢
    omega
  | @timeoutHandled returns _ hpc | @handled returns hpc =>
    cases returns <;> simp [stepsLeft, hpc, Input.alerts]
  | checkRunning hpc => simp [stepsLeft, hpc, hrunning, Input.alerts]
  | endOfBatch hpc | rewinds hpc | rethrows hpc | onTimeout hpc | onTimeoutThrows hpc
  | onTimeoutEscapes hpc | skip hpc => simp [stepsLeft, hpc, Input.alerts]

/-- The steps that the thread has left in `processEvents()` of the run `n`. -/
def CallPc.stepsLeftIn (n : Nat) (pc : CallPc ι) : Nat :=
  if pc.inside = some n then pc.stepsLeft else 0

omit [DecidableEq T] in
/-- A step of `processEvents` comes closer to its end, or ends it. -/
lemma stepsLeftIn_processEvents (hrunning : s.running = .HALTED) (hown : i.isOwn = true)
    (hs : s.processEvents p n l state i = some (s', l')) :
    l'.pc.stepsLeftIn n < stepsLeft state := by
  obtain ⟨state', pc', hstep, -, -, rfl, hpc'⟩ := processEvents_cases (by rintro rfl; cases hown) hs
  have hlt : stepsLeft state' + (if i.alerts then 1 else 0) <
      stepsLeft { state with running := s.running } := stepsLeft_lt hrunning hown hstep
  have hsame : stepsLeft { state with running := s.running } = stepsLeft state := rfl
  rw [hsame] at hlt
  rcases hpc' with ⟨thrown, -, rfl⟩ | ⟨-, rfl⟩
  · have hout : (CallPc.onShutdown (some n) thrown : CallPc ι).stepsLeftIn n = 0 := rfl
    simp only [hout]
    omega
  · split_ifs at hlt ⊢
    · simpa [CallPc.stepsLeftIn, CallPc.inside, CallPc.stepsLeft] using hlt
    · simpa [CallPc.stepsLeftIn, CallPc.inside, CallPc.stepsLeft] using hlt

omit [DecidableEq T] in
/-- `processEvents()` is entered in one place. -/
lemma Move.inside (hm : Move p b t s l a s' l') (hpc : l'.pc.inside = some n) :
    l.pc.inside = some n ∨ l.pc = .checkRunning n ∧ s.running = .RUNNING := by
  have hloop : ∀ {m i s' state} {l' : Caller ι}, i ≠ .halt →
      s.processEvents p m l state i = some (s', l') → l'.pc.inside = some n → m = n := by
    intro m i s' state l' hi hs hin
    obtain ⟨state', pc', -, -, -, rfl, hpc'⟩ := processEvents_cases hi hs
    rcases hpc' with ⟨thrown, -, rfl⟩ | ⟨-, rfl⟩
    · cases hin
    · split_ifs at hin <;> exact Option.some.inj hin
  cases hm with
  | around haround hinside' =>
    rw [hinside'] at hpc
    cases hpc
  | enter hpc' hrunning =>
    obtain rfl := Option.some.inj hpc
    exact Or.inr ⟨hpc', hrunning⟩
  | wait hpc' | handlerAlert hpc' =>
    rw [hpc']
    exact Or.inl hpc
  | answer hpc' hat hs hs' =>
    obtain rfl := hloop (by rintro ⟨⟩) hs' hpc
    exact Or.inl (by rw [hpc']; rfl)
  | input hpc' hown hs =>
    obtain rfl := hloop (by rintro rfl; cases hown) hs hpc
    exact Or.inl (by rw [hpc']; rfl)
  | _ => cases hpc

omit [DecidableEq T] in
/-- After a completed `halt()` no step enters `processEvents()`, -/
lemma Halted.stepsLeftIn_of_outside (h : Halted p b n c)
    (hm : Move p b t c.shared (c.threads t) a s' l') (hout : (c.threads t).pc.inside ≠ some n) :
    l'.pc.stepsLeftIn n = 0 := by
  rw [CallPc.stepsLeftIn, if_neg]
  intro hin
  rcases hm.inside hin with hbefore | ⟨hpc, hrunning⟩
  · exact hout hbefore
  · rw [h.running (t := t) (by rw [hpc]; rfl)] at hrunning
    cases hrunning

omit [DecidableEq T] in
/-- and a step inside comes closer to its end. -/
lemma Halted.stepsLeftIn_of_inside (h : Halted p b n c) (hmid : ¬ MidWait n c)
    (hm : Move p b t c.shared (c.threads t) a s' l') (hin : (c.threads t).pc.inside = some n) :
    l'.pc.stepsLeftIn n < (c.threads t).pc.stepsLeftIn n := by
  have halerted := h.alerted hin
  have hrunning := h.running (CallPc.owned_of_inside hin)
  rw [CallPc.stepsLeftIn.eq_def n (c.threads t).pc, if_pos hin]
  cases hm with
  | announce hpc | storeHalted hpc | alertBarrier hpc | alert hpc | clearAlert hpc | enter hpc
  | storeIdle hpc =>
    rw [hpc] at hin
    cases hin
  | around haround =>
    rw [CallPc.inside_of_around haround] at hin
    cases hin
  | wait hpc hat hs =>
    rw [hpc] at hin
    obtain rfl := Option.some.inj hin
    obtain rfl := not_hasBegun hmid hpc
    cases WaitCall.checkAlert_step halerted hs
  | answer hpc hat hs hs' =>
    rw [hpc] at hin ⊢
    obtain rfl := Option.some.inj hin
    obtain rfl := not_hasBegun hmid hpc
    obtain rfl := Sum.inr.inj
      (WaitCall.checkAlert_step halerted hs)
    rw [processEvents_alert hat] at hs'
    obtain ⟨rfl, rfl⟩ := Prod.mk.inj (Option.some.inj hs')
    simp [CallPc.stepsLeftIn, CallPc.inside, CallPc.stepsLeft, stepsLeft, hat]
  | input hpc hown hs =>
    rw [hpc] at hin ⊢
    obtain rfl := Option.some.inj hin
    exact stepsLeftIn_processEvents hrunning hown hs
  | handlerAlert hpc =>
    rw [hpc] at hin ⊢
    obtain rfl := Option.some.inj hin
    simp [CallPc.stepsLeftIn, CallPc.inside, CallPc.stepsLeft]

lemma Halted.countP_stepsInside (h : Halted p b n c) (hmid : ¬ MidWait n c)
    (as : List (Action T ι)) (t : T) :
    (transitions (pool T p b).next c as).countP (stepsInside t n) ≤
      (c.threads t).pc.stepsLeftIn n := by
  induction as generalizing c with
  | nil => exact Nat.zero_le _
  | cons act as ih =>
    cases hs : (pool T p b).next c act with
    | none => simp [transitions_cons_of_none hs]
    | some c' =>
      have hrest := ih (h.next hs) (h.not_midWait_next hmid hs)
      rw [transitions_cons_of_some hs]
      obtain ⟨u, a⟩ := act
      obtain ⟨s', l', hm, rfl⟩ := move_of_next hs
      by_cases ht : t = u
      · subst ht
        simp only [Function.update_self] at hrest
        by_cases hin : (c.threads t).pc.inside = some n
        · rw [List.countP_cons_of_pos (by simp [stepsInside, hin])]
          exact hrest.trans_lt (h.stepsLeftIn_of_inside hmid hm hin)
        · rw [List.countP_cons_of_neg (by simp [stepsInside, hin])]
          rw [h.stepsLeftIn_of_outside hm hin] at hrest
          exact hrest.trans (Nat.zero_le _)
      · rw [List.countP_cons_of_neg (by simp [stepsInside, Ne.symm ht])]
        simpa only [Function.update_of_ne ht] using hrest

/-- Out of `waitFor` there is a step to take in which nothing throws, and one that comes closer to
the top of the loop, or to the end of a processor that is halted. -/
lemma exists_step (state : State) (hat : state.pc ≠ .waitFor)
    (hgoesOn : ∀ thrown, state.pc ≠ .exited thrown) :
    ∃ i state', i.isOwn = true ∧ ¬ i.Throws ∧ i.alerts = false ∧ p.step state i = some state' ∧
      (state'.pc = .waitFor ∨ stepsLeft state' < stepsLeft state) ∧
      ∀ thrown, state'.pc = .exited thrown → thrown = false ∧ state.running ≠ .RUNNING := by
  have hnext : ∀ (s : State) start endOfBatch thrown,
      (s.nextEvent start endOfBatch).pc ≠ .exited thrown := by
    intro s start endOfBatch thrown
    unfold State.nextEvent
    split_ifs <;> simp
  cases hpc : state.pc with
  | waitFor => exact absurd hpc hat
  | exited thrown => exact absurd hpc (hgoesOn thrown)
  | onBatchStart start endOfBatch available =>
    refine ⟨.onBatchStart none, _, rfl, by simp [Input.Throws], rfl,
      step_iff.mpr (.onBatchStart hpc), Or.inr ?_, fun _ heq => absurd heq (hnext _ _ _ _)⟩
    rw [stepsLeft_nextEvent]
    simp only [stepsLeft, hpc]
    split_ifs <;> omega
  | onEvent start endOfBatch =>
    refine ⟨.onEvent none, _, rfl, by simp [Input.Throws], rfl, step_iff.mpr (.onEvent hpc),
      Or.inr ?_, fun _ heq => absurd heq (hnext _ _ _ _)⟩
    rw [stepsLeft_nextEvent]
    simp only [stepsLeft, hpc]
    split_ifs <;> omega
  | endOfBatch endOfBatch =>
    exact ⟨.endOfBatch, _, rfl, id, rfl, step_iff.mpr (.endOfBatch hpc), Or.inl rfl,
      by rintro thrown ⟨⟩⟩
  | attemptRewind start =>
    exact ⟨.handleRewindException (.ok .REWIND), _, rfl, id, rfl, step_iff.mpr (.rewinds hpc),
      Or.inl rfl, by rintro thrown ⟨⟩⟩
  | onTimeout =>
    exact ⟨.onTimeout none, _, rfl, by simp [Input.Throws], rfl, step_iff.mpr (.onTimeout hpc),
      Or.inl rfl, by rintro thrown ⟨⟩⟩
  | onTimeoutFailed available =>
    exact ⟨.handleEventException true, _, rfl, id, rfl, step_iff.mpr (.timeoutHandled hpc),
      Or.inl rfl, by rintro thrown ⟨⟩⟩
  | handleEventException =>
    refine ⟨.handleEventException true, _, rfl, id, rfl, step_iff.mpr (.handled hpc), Or.inr ?_,
      by rintro thrown ⟨⟩⟩
    simp [stepsLeft, hpc]
  | failed =>
    exact ⟨.skip, _, rfl, id, rfl, step_iff.mpr (.skip hpc), Or.inl rfl, by rintro thrown ⟨⟩⟩
  | alerted =>
    refine ⟨.checkRunning, _, rfl, id, rfl, step_iff.mpr (.checkRunning hpc), ?_, ?_⟩
    · by_cases hrunning : state.running = .RUNNING
      · exact Or.inl (by simp [hrunning])
      · exact Or.inr (by simp [stepsLeft, hpc, hrunning])
    · intro thrown heq
      by_cases hrunning : state.running = .RUNNING
      · simp [hrunning] at heq
      · exact ⟨by simpa [hrunning] using heq.symm, hrunning⟩

/-- The thread in `processEvents()` always has a step to take. -/
lemma enabled_of_inside (h : (outline T p b).Holds c) (hin : (c.threads t).pc.inside = some n) :
    ∃ a, ((pool T p b).next c ⟨t, a⟩).isSome = true := by
  have hgoesOn := (h.threads t).goesOn
  suffices hstep : ∃ a, (step p b t c.shared (c.threads t) a).isSome = true by
    obtain ⟨a, ha⟩ := hstep
    exact ⟨a, by simpa [ThreadPool.next, pool] using ha⟩
  cases hpc : (c.threads t).pc with
  | handlerAlert m state => exact ⟨.proceed, by simp [step, hpc]⟩
  | processEvents m state call =>
    rw [hpc] at hgoesOn
    by_cases hat : state.pc = .waitFor
    · have hsuits : call.Suits ⟨0, fun _ => 0, c.shared.alerted, some fun _ => false⟩ := by
        cases call <;> trivial
      obtain ⟨r, hr⟩ := WaitCall.proceeds (b := b) hsuits state.nextSequence
      refine ⟨.wait ⟨0, fun _ => 0, false, some fun _ => false⟩ .proceed, ?_⟩
      cases r with
      | inl call' => simp [step, hpc, hat, hr]
      | inr answer =>
        cases answer <;>
          simp [step, hpc, hat, hr, Shared.processEvents, BatchEventProcessor.step]
    · obtain ⟨i, state', hown, -, -, hs, -⟩ :=
        exists_step (p := p) { state with running := c.shared.running } hat hgoesOn
      exact ⟨.input i, by simp [step, hpc, hown, Shared.processEvents, hs]⟩
  | _ =>
    rw [hpc] at hin
    cases hin

/-- A step of `processEvents` in which the exception handler does not throw. -/
lemma next_processEvents (hi : i ≠ .halt) (halerts : i.alerts = false)
    (hs : p.step { state with running := c.shared.running } i = some state')
    (hstep : step p b t c.shared (c.threads t) a =
      c.shared.processEvents p n (c.threads t) state i) :
    ∃ c', (pool T p b).next c ⟨t, a⟩ = some c' ∧ c'.shared.running = c.shared.running ∧
      c'.shared.alerted = c.shared.alerted ∧
      ((∃ thrown, state'.pc = .exited thrown ∧ (c'.threads t).pc = .onShutdown (some n) thrown) ∨
        (∀ thrown, state'.pc ≠ .exited thrown) ∧
          (c'.threads t).pc = .processEvents n state' .checkAlert) := by
  obtain ⟨s', l', hloop⟩ : ∃ s' l', c.shared.processEvents p n (c.threads t) state i =
      some (s', l') := by
    simp only [Shared.processEvents, hs, Option.map_some]
    exact ⟨_, _, rfl⟩
  obtain ⟨state₁, pc', hs₁, hrunning, rfl, rfl, hpc'⟩ := processEvents_cases hi hloop
  obtain rfl := Option.some.inj (hs₁.symm.trans hs)
  refine ⟨_, (pool T p b).next_eq_some.mpr ⟨_, _, hstep.trans hloop, rfl⟩, ?_, rfl, ?_⟩
  · simpa [halerts] using hrunning
  · simpa [halerts] using hpc'

/-- A call of `waitFor` goes on. -/
lemma next_wait {call' : WaitCall ι} {choice : WaitChoice}
    (hpc : (c.threads t).pc = .processEvents n state call) (hat : state.pc = .waitFor)
    (hs : call.step b { view with alerted := c.shared.alerted } state.nextSequence choice =
      some (.inl call')) :
    ∃ c', (pool T p b).next c ⟨t, .wait view choice⟩ = some c' ∧ c'.shared = c.shared ∧
      (c'.threads t).pc = .processEvents n state call' := by
  refine ⟨_, (pool T p b).next_eq_some.mpr ⟨c.shared,
    { c.threads t with pc := .processEvents n state call' }, ?_, rfl⟩, rfl, by simp⟩
  show step p b t c.shared (c.threads t) (.wait view choice) = _
  simp only [step, hpc, hat, if_true, hs]

/-- It ends, and `processEvents()` goes on. -/
lemma next_answer {choice : WaitChoice} {answer : Except Exception Int}
    (hpc : (c.threads t).pc = .processEvents n state call) (hat : state.pc = .waitFor)
    (hs : call.step b { view with alerted := c.shared.alerted } state.nextSequence choice =
      some (.inr answer)) :
    ∃ c' state', (pool T p b).next c ⟨t, .wait view choice⟩ = some c' ∧
      p.step { state with running := c.shared.running } (.waitFor answer) = some state' ∧
      c'.shared.running = c.shared.running ∧ c'.shared.alerted = c.shared.alerted ∧
      (∀ thrown, state'.pc ≠ .exited thrown) ∧
      (c'.threads t).pc = .processEvents n state' .checkAlert := by
  obtain ⟨state', hs', hgoesOn⟩ : ∃ state',
      p.step { state with running := c.shared.running } (.waitFor answer) = some state' ∧
        ∀ thrown, state'.pc ≠ .exited thrown := by
    cases answer with
    | ok availableSequence =>
      refine ⟨_, step_iff.mpr (.available hat), ?_⟩
      intro thrown
      simp only [State.available, State.nextEvent]
      split_ifs <;> simp [hat]
    | error e =>
      refine ⟨_, step_iff.mpr (.waitForThrows hat), ?_⟩
      rcases waitCall_error hs with rfl | rfl
      · rintro thrown ⟨⟩
      · rintro thrown ⟨⟩
  have hstep : step p b t c.shared (c.threads t) (.wait view choice) =
      c.shared.processEvents p n (c.threads t) state (.waitFor answer) := by
    simp only [step, hpc, hat, if_true, hs]
  obtain ⟨c', hnext, hrunning, halerted, hpc'⟩ :=
    next_processEvents (by rintro ⟨⟩) rfl hs' hstep
  rcases hpc' with ⟨thrown, hexited, -⟩ | ⟨-, hpc'⟩
  · exact absurd hexited (hgoesOn thrown)
  · exact ⟨c', state', hnext, hs', hrunning, halerted, hgoesOn, hpc'⟩

/-- Out of `waitFor`, or before a call of it, the thread can go on to leave: the call throws. -/
lemma Halted.leavesAlone_of_checkAlert (h : Halted p b n c) (view : WaitView ι)
    (hpc : (c.threads t).pc = .processEvents n state call)
    (hcall : state.pc = .waitFor → call = .checkAlert) :
    ∃ c', ReachesBy (pool T p b).next (Alone t view) c c' ∧
      (c'.threads t).pc = .onShutdown (some n) false := by
  induction hk : stepsLeft state using Nat.strong_induction_on generalizing state call c with
  | _ k ih =>
    have hin : (c.threads t).pc.inside = some n := by rw [hpc]; rfl
    have hrunning := h.running (CallPc.owned_of_inside hin)
    by_cases hat : state.pc = .waitFor
    · obtain rfl := hcall hat
      have hthrow : WaitCall.checkAlert.step b { view with alerted := c.shared.alerted }
          state.nextSequence .proceed = some (.inr (.error .AlertException)) := by
        simp only [WaitCall.step, h.alerted hin, if_true]
      obtain ⟨c₁, state₁, hnext, hs₁, -, -, -, hpc₁⟩ := next_answer (p := p) hpc hat hthrow
      obtain rfl : { state with running := c.shared.running, pc := .alerted } = state₁ := by
        simpa [BatchEventProcessor.step, hat, State.throwException, State.catchException] using hs₁
      have hlt : stepsLeft { state with running := c.shared.running, pc := .alerted } < k := by
        rw [← hk]
        simp [stepsLeft, hat]
      obtain ⟨c', hreach, hpc'⟩ := ih _ hlt (h.next hnext) hpc₁ (fun _ => rfl) rfl
      exact ⟨c', .head ⟨_, hnext, rfl, rfl⟩ hreach, hpc'⟩
    · have hgoesOn := (h.holds.threads t).goesOn
      rw [hpc] at hgoesOn
      obtain ⟨i, state₁, hown, -, halerts, hs, -, hexits⟩ :=
        exists_step (p := p) { state with running := c.shared.running } hat hgoesOn
      have hstep : step p b t c.shared (c.threads t) (.input i) =
          c.shared.processEvents p n (c.threads t) state i := by
        simp only [step, hpc, hown, if_true]
      obtain ⟨c₁, hnext, -, -, hpc₁⟩ :=
        next_processEvents (by rintro rfl; cases hown) halerts hs hstep
      rcases hpc₁ with ⟨thrown, hexited, hpc₁⟩ | ⟨-, hpc₁⟩
      · obtain ⟨rfl, -⟩ := hexits thrown hexited
        exact ⟨c₁, .single ⟨_, hnext, rfl, halerts⟩, hpc₁⟩
      · have hlt := stepsLeft_lt hrunning hown hs
        have hsame : stepsLeft { state with running := c.shared.running } = stepsLeft state := rfl
        obtain ⟨c', hreach, hpc'⟩ := ih _ (by omega) (h.next hnext) hpc₁ (fun _ => rfl) rfl
        exact ⟨c', .head ⟨_, hnext, rfl, halerts⟩ hreach, hpc'⟩

/-- In a call of `waitFor` it can go on to its end, which is an answer or the alert. -/
lemma Halted.leavesAlone_of_ends (h : Halted p b n c)
    (hpc : (c.threads t).pc = .processEvents n state call) (hat : state.pc = .waitFor)
    (hends : call.Ends b { view with alerted := true } state.nextSequence) :
    ∃ c', ReachesBy (pool T p b).next (Alone t view) c c' ∧
      (c'.threads t).pc = .onShutdown (some n) false := by
  induction hends generalizing c with
  | done choice hs =>
    have hin : (c.threads t).pc.inside = some n := by rw [hpc]; rfl
    rw [← h.alerted hin] at hs
    obtain ⟨c₁, state₁, hnext, -, -, -, -, hpc₁⟩ := next_answer (p := p) hpc hat hs
    obtain ⟨c', hreach, hpc'⟩ := 
      (h.next hnext).leavesAlone_of_checkAlert view hpc₁ (fun _ => rfl)
    exact ⟨c', .head ⟨_, hnext, rfl, rfl⟩ hreach, hpc'⟩
  | go choice hs _ ih =>
    have hin : (c.threads t).pc.inside = some n := by rw [hpc]; rfl
    rw [← h.alerted hin] at hs
    obtain ⟨c₁, hnext, -, hpc₁⟩ := next_wait (p := p) hpc hat hs
    obtain ⟨c', hreach, hpc'⟩ := ih (h.next hnext) hpc₁
    exact ⟨c', .head ⟨_, hnext, rfl, rfl⟩ hreach, hpc'⟩

lemma Halted.leavesAlone (h : Halted p b n c) (hin : (c.threads t).pc.inside = some n)
    (hsuits : (c.threads t).pc.Suits view) :
    ∃ c', ReachesBy (pool T p b).next (Alone t view) c c' ∧
      (c'.threads t).pc = .onShutdown (some n) false := by
  cases hpc : (c.threads t).pc with
  | processEvents m state call =>
    rw [hpc] at hin hsuits
    obtain rfl := Option.some.inj hin
    by_cases hat : state.pc = .waitFor
    · have hends : call.Ends b { view with alerted := true } state.nextSequence :=
        WaitCall.ends_of_alerted rfl (by cases call <;> exact hsuits)
      exact h.leavesAlone_of_ends hpc hat hends
    · exact h.leavesAlone_of_checkAlert view hpc (fun hpc' => absurd hpc' hat)
  | handlerAlert m state =>
    rw [hpc] at hin
    obtain rfl := Option.some.inj hin
    obtain ⟨c₁, hnext, hpc₁⟩ : ∃ c₁, (pool T p b).next c ⟨t, .proceed⟩ = some c₁ ∧
        (c₁.threads t).pc = .processEvents m state .checkAlert :=
      ⟨_, (pool T p b).next_eq_some.mpr
        ⟨c.shared.alert (some m), { c.threads t with pc := .processEvents m state .checkAlert },
          by simp only [pool, step, hpc], rfl⟩, by simp⟩
    obtain ⟨c', hreach, hpc'⟩ :=
      (h.next hnext).leavesAlone_of_checkAlert view hpc₁ (fun _ => rfl)
    exact ⟨c', .head ⟨_, hnext, rfl, trivial⟩ hreach, hpc'⟩
  | _ =>
    rw [hpc] at hin
    cases hin

lemma Halted.observed (h : Halted p b n c) : HaltObserved p b n c := by
  constructor
  · intro as x hx
    have hsteps := transitions_invariant_of_step (Halted p b n)
      (fun _ _ _ hinv hs => hinv.next hs) h x hx
    exact hsteps.1.throws (mem_transitions hx).2
  · exact h.atMostOne
  · exact h.none_of_not_midWait
  · intro hmid as t
    refine (h.countP_stepsInside hmid as t).trans ?_
    unfold CallPc.stepsLeftIn
    split_ifs
    · exact le_rfl
    · exact Nat.zero_le _
  · exact fun t view hin hsuits => h.leavesAlone hin hsuits
  · exact fun t hin => enabled_of_inside h.holds hin

/-! ### Every run -/

/-- However many threads call `run()` and `halt()`, and however their steps interleave: at most one
thread is in `processEvents()`; no run overlooks a `halt()` that has completed; and while the
callbacks let no exception out, each call of `run()` makes both of them once. -/
theorem halt_isObserved (h : run (pool T p b).next (initial sequence) as = some c) :
    Exclusive c ∧ (∀ n ∈ c.shared.halted, HaltObserved p b n c) ∧
      ((∀ act ∈ as, act.2.letsOut = false) → Notified c) := by
  have hholds := holds_of_run h
  refine ⟨exclusive_of_holds hholds, ?_, ?_⟩
  · intro n hn
    exact Halted.observed ⟨hholds, hn⟩
  · intro hkept
    exact (notifies_of_run h hkept).notified

/-- A thread halts a processor that another thread runs, which leaves `processEvents()`. -/
def runAndHalt : List (Action Bool Empty) :=
  [⟨true, .run⟩, ⟨true, .proceed⟩, ⟨true, .notify none⟩, ⟨true, .proceed⟩, ⟨false, .halt⟩,
    ⟨false, .proceed⟩, ⟨true, .wait ⟨-1, fun _ => 0, false, none⟩ .proceed⟩,
    ⟨true, .input .checkRunning⟩, ⟨true, .notify none⟩, ⟨true, .proceed⟩]

theorem halt_isObserved_runAndHalt :
    ∃ c : Config Bool Empty,
      run (pool Bool ⟨9, .NoRewindHandler, by decide⟩ ⟨.BusySpin, []⟩).next (initial (-1))
        runAndHalt = some c ∧
      c.shared.halted = [0] ∧ c.shared.ended = [⟨.returned, [.onStart, .onShutdown]⟩] ∧
      Exclusive c ∧ HaltObserved ⟨9, .NoRewindHandler, by decide⟩ ⟨.BusySpin, []⟩ 0 c ∧
      Notified c := by
  obtain ⟨c, hrun, hhalted, hended⟩ : ∃ c : Config Bool Empty,
      run (pool Bool ⟨9, .NoRewindHandler, by decide⟩ ⟨.BusySpin, []⟩).next (initial (-1))
        runAndHalt = some c ∧
      c.shared.halted = [0] ∧ c.shared.ended = [⟨.returned, [.onStart, .onShutdown]⟩] :=
    ⟨_, rfl, rfl, rfl⟩
  obtain ⟨hexclusive, hobserved, hnotified⟩ := halt_isObserved hrun
  refine ⟨c, hrun, hhalted, hended, hexclusive, hobserved 0 (by simp [hhalted]), hnotified ?_⟩
  simp [runAndHalt, CallAction.letsOut]

end Disruptor.BatchEventProcessor.Lifecycle
