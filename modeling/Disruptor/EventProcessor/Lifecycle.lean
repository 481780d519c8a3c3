import Disruptor.Core.ThreadPool
import Disruptor.EventProcessor.RunCall

/-!
# `run()` and `halt()` among threads

Any number of threads call `run()` and `halt()` of one processor, and alert its barrier. `run()`
announces `RUNNING` before it clears the alert, and `halt()` stores `HALTED` before it alerts.

The calls of `run()` that have announced `RUNNING` are numbered. The one with the number `n` lasts
until it stores `IDLE`; when a callback throws it never does, and then it lasts for ever.
-/

namespace Disruptor.BatchEventProcessor.Lifecycle

open Disruptor.Core

variable {T ι : Type*}

/-! ### The callers -/

/-- The callbacks around `processEvents()`. -/
inductive Notification where
  | onStart
  | onShutdown
  deriving DecidableEq, Repr

/-- How a call of `run()` ends. -/
inductive Outcome where
  | returned
  | runtime_error (what : String)
  /-- An exception of a callback, or one that has left `processEvents()`. -/
  | thrown
  deriving DecidableEq, Repr

/-- A call of `run()` that has ended. -/
structure EndedRun where
  outcome : Outcome
  notifications : List Notification
  deriving DecidableEq, Repr

/-- The fields that the callers share, with the history of the calls. -/
structure Shared (T : Type*) where
  running : Running := .IDLE
  alerted : Bool := false
  sequence : Int
  retriesAttempted : Int := 0
  /-- How many calls of `run()` have announced `RUNNING`. -/
  started : Nat := 0
  /-- The thread and the number of the one that has not stored `IDLE` yet. -/
  current : Option (T × Nat) := none
  /-- The runs during which a `halt()` has stored `HALTED` that has completed. -/
  halted : List Nat := []
  ended : List EndedRun := []

/-- Where a thread is, with the number of its run; an early exit has none. -/
inductive CallPc (ι : Type*) where
  | idle
  /-- In `halt()`, before `alert()`, with the run during which `HALTED` was stored. -/
  | alert (during : Option Nat)
  | clearAlert (n : Nat)
  /-- In `notifyStart()`, before `onStart()`. -/
  | onStart (n : Option Nat)
  | handleOnStartException (n : Option Nat)
  /-- Before `running_` is compared with `RUNNING`. -/
  | checkRunning (n : Nat)
  | processEvents (n : Nat) (s : State) (call : WaitCall ι)
  /-- In the `halt()` of `handleEventException`, before `alert()`. -/
  | handlerAlert (n : Nat) (s : State)
  /-- In `notifyShutdown()`, before `onShutdown()`. -/
  | onShutdown (n : Option Nat) (thrown : Bool)
  | handleOnShutdownException (n : Option Nat) (thrown : Bool)
  | storeIdle (n : Nat) (thrown : Bool)

/-- A thread, with the callbacks that its call of `run()` has made. -/
structure Caller (ι : Type*) where
  pc : CallPc ι := .idle
  notifications : List Notification := []

inductive CallAction (ι : Type*) where
  /-- `run()` is called: `running_.compare_exchange_strong(IDLE, RUNNING)`. -/
  | run
  /-- `halt()` is called: `running_.store(HALTED)`. -/
  | halt
  /-- `handleExceptionsFor(h).with(e)` alerts the barrier. -/
  | alert
  | proceed
  /-- `onStart()` or `onShutdown()` ends. -/
  | notify (thrown : Option Exception)
  /-- The exception handler returns from such an exception, or throws. -/
  | handle (returns : Bool)
  /-- A step of `waitFor`, which finds the sequences as in `view`. -/
  | wait (view : WaitView ι) (choice : WaitChoice)
  /-- A call of user code, or another step of `processEvents`. -/
  | input (i : Input)

namespace Shared

/-- `running_.compare_exchange_strong(IDLE, RUNNING)`, and where `run()` goes on. -/
def compareExchange (t : T) (s : Shared T) : Shared T × Caller ι :=
  match s.running with
  | .IDLE =>
    ({ s with running := .RUNNING, started := s.started + 1, current := some (t, s.started) },
      { pc := .clearAlert s.started })
  | .HALTED => (s, { pc := .onStart none })
  | .RUNNING =>
    ({ s with ended := ⟨.runtime_error "Thread is already running", []⟩ :: s.ended }, {})

/-- `running_.store(HALTED)`. -/
def storeHalted (s : Shared T) : Shared T := { s with running := .HALTED }

/-- `alert()` at the end of a `halt()`. -/
def alert (during : Option Nat) (s : Shared T) : Shared T :=
  { s with alerted := true, halted := during.toList ++ s.halted }

/-- A call of `run()` ends. -/
def ends (outcome : Outcome) (l : Caller ι) (s : Shared T) : Shared T :=
  { s with ended := ⟨outcome, l.notifications⟩ :: s.ended }

/-- `running_.store(IDLE)`, and the end of `run()`. -/
def storeIdle (thrown : Bool) (l : Caller ι) (s : Shared T) : Shared T :=
  { s.ends (if thrown then .thrown else .returned) l with running := .IDLE, current := none }

/-- `notifyStart()` has returned. -/
def startNotified (l : Caller ι) (s : Shared T) : Option Nat → Shared T × Caller ι
  | some n => (s, { l with pc := .checkRunning n })
  | none => (s, { l with pc := .onShutdown none false })

/-- `notifyShutdown()` has returned. -/
def shutdownNotified (thrown : Bool) (l : Caller ι) (s : Shared T) :
    Option Nat → Shared T × Caller ι
  | some n => (s, { l with pc := .storeIdle n thrown })
  | none => (s.ends .returned l, {})

/-- One step of `processEvents` that is not one of the barrier. -/
def processEvents (p : BatchEventProcessor) (n : Nat) (l : Caller ι) (s : Shared T) (state : State)
    (i : Input) : Option (Shared T × Caller ι) :=
  (p.step { state with running := s.running } i).map fun state' =>
    ({ s with
        running := state'.running
        sequence := state'.sequence
        retriesAttempted := state'.retriesAttempted },
      { l with
        pc :=
          match state'.pc with
          | .exited thrown => .onShutdown (some n) thrown
          | _ => if i.alerts then .handlerAlert n state' else .processEvents n state' .checkAlert })

end Shared

/-- A callback has been called. -/
def Caller.notified (l : Caller ι) (c : Notification) : Caller ι :=
  { l with notifications := l.notifications ++ [c] }

/-- One step of the thread `t`. -/
def step (p : BatchEventProcessor) (b : Barrier ι) (t : T) (s : Shared T) (l : Caller ι)
    (a : CallAction ι) : Option (Shared T × Caller ι) :=
  match l.pc, a with
  | .idle, .run => some (s.compareExchange t)
  | .idle, .halt => some (s.storeHalted, { pc := .alert (s.current.map Prod.snd) })
  | .idle, .alert => some ({ s with alerted := true }, {})
  | .alert during, .proceed => some (s.alert during, {})
  | .clearAlert n, .proceed =>
    some ({ s with alerted := false }, { l with pc := .onStart (some n) })
  | .onStart n, .notify thrown =>
    let l := l.notified .onStart
    match thrown with
    | none => some (s.startNotified l n)
    | some .other => some (s.ends .thrown l, {})
    | some _ => some (s, { l with pc := .handleOnStartException n })
  | .handleOnStartException n, .handle returns =>
    some (if returns then s.startNotified l n else (s.ends .thrown l, {}))
  | .checkRunning n, .proceed =>
    if s.running = .RUNNING then
      let state := { enter s.sequence with retriesAttempted := s.retriesAttempted }
      some (s, { l with pc := .processEvents n state .checkAlert })
    else some (s, { l with pc := .onShutdown (some n) false })
  | .processEvents n state call, .wait view choice =>
    if state.pc = .waitFor then
      match call.step b { view with alerted := s.alerted } state.nextSequence choice with
      | some (.inl call') => some (s, { l with pc := .processEvents n state call' })
      | some (.inr answer) => s.processEvents p n l state (.waitFor answer)
      | none => none
    else none
  | .processEvents n state _, .input i =>
    if i.isOwn then s.processEvents p n l state i else none
  | .handlerAlert n state, .proceed =>
    some (s.alert (some n), { l with pc := .processEvents n state .checkAlert })
  | .onShutdown n thrown, .notify raised =>
    let l := l.notified .onShutdown
    match raised with
    | none => some (s.shutdownNotified thrown l n)
    | some .other => some (s.ends .thrown l, {})
    | some _ => some (s, { l with pc := .handleOnShutdownException n thrown })
  | .handleOnShutdownException n thrown, .handle returns =>
    some (if returns then s.shutdownNotified thrown l n else (s.ends .thrown l, {}))
  | .storeIdle _ thrown, .proceed => some (s.storeIdle thrown l, {})
  | _, _ => none

/-- The callers of one processor. -/
def pool (T : Type*) (p : BatchEventProcessor) (b : Barrier ι) :
    ThreadPool T (Shared T) (fun _ => Caller ι) (fun _ => CallAction ι) where
  step := step p b

abbrev Config (T ι : Type*) := ThreadPool.Config (Shared T) fun _ : T => Caller ι

abbrev Action (T ι : Type*) := Σ _ : T, CallAction ι

/-- Before any call. -/
def initial (sequence : Int) : Config T ι where
  shared := { sequence := sequence }
  threads _ := {}

/-! ### Whose run it is -/

/-- The run that a thread has announced and has not ended. -/
def CallPc.owned : CallPc ι → Option Nat
  | .clearAlert n | .checkRunning n | .processEvents n _ _ | .handlerAlert n _ | .storeIdle n _ =>
    some n
  | .onStart n | .handleOnStartException n | .onShutdown n _ | .handleOnShutdownException n _ => n
  | _ => none

/-- The run in whose `processEvents()` a thread is. -/
def CallPc.inside : CallPc ι → Option Nat
  | .processEvents n _ _ | .handlerAlert n _ => some n
  | _ => none

/-- The run during which a thread has stored `HALTED`, and is about to alert. -/
def CallPc.halting : CallPc ι → Option Nat
  | .alert during => during
  | .handlerAlert n _ => some n
  | _ => none

/-- A thread is in `halt()`. -/
def CallPc.midHalt : CallPc ι → Bool
  | .alert _ | .handlerAlert _ _ => true
  | _ => false

/-- A thread is about to call a callback, to call `run()`, or to read `running_`. -/
def CallPc.around : CallPc ι → Bool
  | .idle | .onStart _ | .handleOnStartException _ | .checkRunning _ | .onShutdown _ _
  | .handleOnShutdownException _ _ => true
  | _ => false

/-- `processEvents()` has not been left. -/
def CallPc.GoesOn : CallPc ι → Prop
  | .processEvents _ state _ | .handlerAlert _ state => ∀ thrown, state.pc ≠ .exited thrown
  | _ => True

structure Inv (s : Shared T) : Prop where
  running_ne : ∀ x, s.current = some x → s.running ≠ .IDLE
  current_lt : ∀ t n, s.current = some (t, n) → n < s.started
  halted_lt : ∀ n ∈ s.halted, n < s.started
  /-- `HALTED` stays until the run ends. -/
  halted_running : ∀ t n, s.current = some (t, n) → n ∈ s.halted → s.running = .HALTED

/-- What is known where a thread is. -/
structure Assertion (t : T) (pc : CallPc ι) (s : Shared T) : Prop where
  owned : ∀ n, pc.owned = some n → s.current = some (t, n)
  halting : ∀ n, pc.halting = some n →
    n < s.started ∧ ∀ u, s.current = some (u, n) → s.running = .HALTED
  /-- The alert of a completed `halt()` is not cleared while the run is in `processEvents()`. -/
  alerted : ∀ n, pc.inside = some n → n ∈ s.halted → s.alerted = true
  goesOn : pc.GoesOn

/-- What the steps of other threads do, as `t` sees it. -/
structure Rely (t : T) (s s' : Shared T) : Prop where
  started_le : s.started ≤ s'.started
  current_eq : ∀ n, s.current = some (t, n) → s'.current = some (t, n)
  alerted : ∀ n, s.current = some (t, n) → s.alerted = true → s'.alerted = true
  halted : ∀ n, s.current = some (t, n) → ∀ m ∈ s'.halted, m ∈ s.halted ∨ s'.alerted = true
  running : ∀ u n, n < s.started → s'.current = some (u, n) →
    s.current = some (u, n) ∧ (s.running = .HALTED → s'.running = .HALTED)

variable {p : BatchEventProcessor} {b : Barrier ι} {t u : T} {s s' : Shared T} {l l' : Caller ι}
  {pc : CallPc ι} {a : CallAction ι} {n : Nat} {state state' : State} {i : Input}

lemma CallPc.owned_of_inside (h : pc.inside = some n) : pc.owned = some n := by
  cases pc with
  | processEvents m state call => exact h
  | handlerAlert m state => exact h
  | _ => cases h

lemma CallPc.inside_of_around (h : pc.around = true) : pc.inside = none := by
  cases pc with
  | processEvents n state call => cases h
  | handlerAlert n state => cases h
  | _ => rfl

lemma CallPc.halting_of_not_midHalt (h : pc.midHalt = false) : pc.halting = none := by
  cases pc with
  | alert during => cases h
  | handlerAlert n state => cases h
  | _ => rfl

/-- Nothing is claimed of a thread without a run. -/
lemma assertion_of_idle (howned : pc.owned = none) (hhalting : pc.halting = none)
    (hinside : pc.inside = none) (hgoesOn : pc.GoesOn) : Assertion t pc s := by
  constructor
  · simp [howned]
  · simp [hhalting]
  · simp [hinside]
  · exact hgoesOn

/-- A thread that is in its run, but not in `processEvents()`. -/
lemma assertion_of_owned (howned : pc.owned = some n) (hcurrent : s.current = some (t, n))
    (hhalting : pc.halting = none) (hinside : pc.inside = none) (hgoesOn : pc.GoesOn) :
    Assertion t pc s := by
  constructor
  · intro m hm
    rw [howned] at hm
    obtain rfl := Option.some.inj hm
    exact hcurrent
  · simp [hhalting]
  · simp [hinside]
  · exact hgoesOn

/-- A thread that is in `processEvents()`. -/
lemma assertion_of_processEvents {call : WaitCall ι} (hcurrent : s.current = some (t, n))
    (halerted : n ∈ s.halted → s.alerted = true) (hgoesOn : ∀ thrown, state.pc ≠ .exited thrown) :
    Assertion t (.processEvents n state call) s := by
  constructor
  · intro m hm
    obtain rfl := Option.some.inj hm
    exact hcurrent
  · rintro m ⟨⟩
  · intro m hm
    obtain rfl := Option.some.inj hm
    exact halerted
  · exact hgoesOn

/-- A step that at most stores `HALTED` or alerts. -/
lemma rely_of_kept (hstarted : s'.started = s.started) (hcurrent : s'.current = s.current)
    (hhalted : s'.halted = s.halted) (halerted : s.alerted = true → s'.alerted = true)
    (hrunning : s.running = .HALTED → s'.running = .HALTED) : Rely t s s' := by
  constructor
  · exact hstarted.ge
  · intro m hm
    rw [hcurrent]
    exact hm
  · exact fun _ _ => halerted
  · intro m _ k hk
    rw [hhalted] at hk
    exact Or.inl hk
  · intro v m _ hv
    rw [hcurrent] at hv
    exact ⟨hv, hrunning⟩

lemma Assertion.stable (h : Assertion t pc s) (hr : Rely t s s') : Assertion t pc s' := by
  constructor
  · intro n hn
    exact hr.current_eq n (h.owned n hn)
  · intro n hn
    obtain ⟨hlt, hrunning⟩ := h.halting n hn
    refine ⟨hlt.trans_le hr.started_le, ?_⟩
    intro u hu
    obtain ⟨hcurrent, hkept⟩ := hr.running u n hlt hu
    exact hkept (hrunning u hcurrent)
  · intro n hn hhalted
    have hcurrent := h.owned n (CallPc.owned_of_inside hn)
    rcases hr.halted n hcurrent n hhalted with hbefore | halerted
    · exact hr.alerted n hcurrent (h.alerted n hn hbefore)
    · exact halerted
  · exact h.goesOn

/-! ### The steps by what they do to the shared fields -/

/-- A step of the thread `t`. -/
inductive Move (p : BatchEventProcessor) (b : Barrier ι) (t : T) (s : Shared T) (l : Caller ι) :
    CallAction ι → Shared T → Caller ι → Prop
  /-- `run()` announces `RUNNING`. -/
  | announce (hpc : l.pc = .idle) (hidle : s.running = .IDLE) :
    Move p b t s l .run
      { s with running := .RUNNING, started := s.started + 1, current := some (t, s.started) }
      { pc := .clearAlert s.started }
  | storeHalted (hpc : l.pc = .idle) :
    Move p b t s l .halt s.storeHalted { pc := .alert (s.current.map Prod.snd) }
  | alertBarrier (hpc : l.pc = .idle) :
    Move p b t s l .alert { s with alerted := true } {}
  | alert {during : Option Nat} (hpc : l.pc = .alert during) :
    Move p b t s l .proceed (s.alert during) {}
  | clearAlert {n : Nat} (hpc : l.pc = .clearAlert n) :
    Move p b t s l .proceed { s with alerted := false } { l with pc := .onStart (some n) }
  /-- A callback, or the end of a call of `run()` that does not store `IDLE`. -/
  | around {a : CallAction ι} {ended : List EndedRun} {l' : Caller ι}
    (haround : l.pc.around = true) (hinside' : l'.pc.inside = none)
    (hmidHalt : l'.pc.midHalt = false) (howned : l'.pc.owned = none ∨ l'.pc.owned = l.pc.owned) :
    Move p b t s l a { s with ended := ended } l'
  | enter {n : Nat} (hpc : l.pc = .checkRunning n) (hrunning : s.running = .RUNNING) :
    Move p b t s l .proceed s
      { l with
        pc := .processEvents n { enter s.sequence with retriesAttempted := s.retriesAttempted }
          .checkAlert }
  /-- `waitFor` goes on. -/
  | wait {n : Nat} {state : State} {call call' : WaitCall ι} {view : WaitView ι}
    {choice : WaitChoice} (hpc : l.pc = .processEvents n state call) (hat : state.pc = .waitFor)
    (hs : call.step b { view with alerted := s.alerted } state.nextSequence choice =
      some (.inl call')) :
    Move p b t s l (.wait view choice) s { l with pc := .processEvents n state call' }
  /-- `waitFor` ends. -/
  | answer {n : Nat} {state : State} {call : WaitCall ι} {view : WaitView ι} {choice : WaitChoice}
    {answer : Except Exception Int} {s' : Shared T} {l' : Caller ι}
    (hpc : l.pc = .processEvents n state call) (hat : state.pc = .waitFor)
    (hs : call.step b { view with alerted := s.alerted } state.nextSequence choice =
      some (.inr answer))
    (hs' : s.processEvents p n l state (.waitFor answer) = some (s', l')) :
    Move p b t s l (.wait view choice) s' l'
  | input {n : Nat} {state : State} {call : WaitCall ι} {i : Input} {s' : Shared T} {l' : Caller ι}
    (hpc : l.pc = .processEvents n state call) (hown : i.isOwn = true)
    (hs : s.processEvents p n l state i = some (s', l')) :
    Move p b t s l (.input i) s' l'
  | handlerAlert {n : Nat} {state : State} (hpc : l.pc = .handlerAlert n state) :
    Move p b t s l .proceed (s.alert (some n)) { l with pc := .processEvents n state .checkAlert }
  | storeIdle {n : Nat} {thrown : Bool} (hpc : l.pc = .storeIdle n thrown) :
    Move p b t s l .proceed (s.storeIdle thrown l) {}

lemma move_startNotified {o : Option Nat} (haround : l.pc.around = true) (howned : l.pc.owned = o)
    {l₁ : Caller ι} (hs : s.startNotified l₁ o = (s', l')) : Move p b t s l a s' l' := by
  cases o with
  | none =>
    obtain ⟨rfl, rfl⟩ := Prod.mk.inj hs
    exact .around haround rfl rfl (Or.inl rfl)
  | some n =>
    obtain ⟨rfl, rfl⟩ := Prod.mk.inj hs
    exact .around haround rfl rfl (Or.inr howned.symm)

lemma move_shutdownNotified {o : Option Nat} {thrown : Bool} (haround : l.pc.around = true)
    (howned : l.pc.owned = o) {l₁ : Caller ι} (hs : s.shutdownNotified thrown l₁ o = (s', l')) :
    Move p b t s l a s' l' := by
  cases o with
  | none =>
    obtain ⟨rfl, rfl⟩ := Prod.mk.inj hs
    exact .around haround rfl rfl (Or.inl rfl)
  | some n =>
    obtain ⟨rfl, rfl⟩ := Prod.mk.inj hs
    exact .around haround rfl rfl (Or.inr howned.symm)

/-- An exception leaves `run()`, and `running_` as it is. -/
lemma move_thrown {l₁ : Caller ι} (haround : l.pc.around = true) :
    Move p b t s l a (s.ends .thrown l₁) {} :=
  .around haround rfl rfl (Or.inl rfl)

/-- There are no other steps. -/
lemma move_of_step (hs : step p b t s l a = some (s', l')) : Move p b t s l a s' l' := by
  unfold step at hs
  split at hs
  · -- `run()` is called
    rename_i hpc
    replace hs := Option.some.inj hs
    simp only [Shared.compareExchange] at hs
    split at hs
    · rename_i hidle
      obtain ⟨rfl, rfl⟩ := Prod.mk.inj hs
      exact .announce hpc hidle
    · obtain ⟨rfl, rfl⟩ := Prod.mk.inj hs
      exact .around (by rw [hpc]; rfl) rfl rfl (Or.inl rfl)
    · obtain ⟨rfl, rfl⟩ := Prod.mk.inj hs
      exact .around (by rw [hpc]; rfl) rfl rfl (Or.inl rfl)
  · rename_i hpc
    obtain ⟨rfl, rfl⟩ := Prod.mk.inj (Option.some.inj hs)
    exact .storeHalted hpc
  · rename_i hpc
    obtain ⟨rfl, rfl⟩ := Prod.mk.inj (Option.some.inj hs)
    exact .alertBarrier hpc
  · rename_i hpc
    obtain ⟨rfl, rfl⟩ := Prod.mk.inj (Option.some.inj hs)
    exact .alert hpc
  · rename_i hpc
    obtain ⟨rfl, rfl⟩ := Prod.mk.inj (Option.some.inj hs)
    exact .clearAlert hpc
  · -- `onStart()`
    rename_i n thrown hpc
    have haround : l.pc.around = true := by rw [hpc]; rfl
    split at hs
    · exact move_startNotified haround (by rw [hpc]; rfl) (Option.some.inj hs)
    · obtain ⟨rfl, rfl⟩ := Prod.mk.inj (Option.some.inj hs)
      exact move_thrown haround
    · obtain ⟨rfl, rfl⟩ := Prod.mk.inj (Option.some.inj hs)
      exact .around haround rfl rfl (Or.inr (by rw [hpc]; rfl))
  · rename_i n returns hpc
    have haround : l.pc.around = true := by rw [hpc]; rfl
    split_ifs at hs
    · exact move_startNotified haround (by rw [hpc]; rfl) (Option.some.inj hs)
    · obtain ⟨rfl, rfl⟩ := Prod.mk.inj (Option.some.inj hs)
      exact move_thrown haround
  · -- `running_` is compared with `RUNNING`
    rename_i n hpc
    split_ifs at hs with hrunning
    · obtain ⟨rfl, rfl⟩ := Prod.mk.inj (Option.some.inj hs)
      exact .enter hpc hrunning
    · obtain ⟨rfl, rfl⟩ := Prod.mk.inj (Option.some.inj hs)
      exact .around (by rw [hpc]; rfl) rfl rfl (Or.inr (by rw [hpc]; rfl))
  · rename_i n state call view choice hpc
    split_ifs at hs with hat
    split at hs
    · rename_i call' hstep
      obtain ⟨rfl, rfl⟩ := Prod.mk.inj (Option.some.inj hs)
      exact .wait hpc hat hstep
    · rename_i answer hstep
      exact .answer hpc hat hstep hs
    · cases hs
  · rename_i n state call i hpc
    split_ifs at hs with hown
    exact .input hpc hown hs
  · rename_i n state hpc
    obtain ⟨rfl, rfl⟩ := Prod.mk.inj (Option.some.inj hs)
    exact .handlerAlert hpc
  · -- `onShutdown()`
    rename_i n thrown raised hpc
    have haround : l.pc.around = true := by rw [hpc]; rfl
    split at hs
    · exact move_shutdownNotified haround (by rw [hpc]; rfl) (Option.some.inj hs)
    · obtain ⟨rfl, rfl⟩ := Prod.mk.inj (Option.some.inj hs)
      exact move_thrown haround
    · obtain ⟨rfl, rfl⟩ := Prod.mk.inj (Option.some.inj hs)
      exact .around haround rfl rfl (Or.inr (by rw [hpc]; rfl))
  · rename_i n thrown returns hpc
    have haround : l.pc.around = true := by rw [hpc]; rfl
    split_ifs at hs
    · exact move_shutdownNotified haround (by rw [hpc]; rfl) (Option.some.inj hs)
    · obtain ⟨rfl, rfl⟩ := Prod.mk.inj (Option.some.inj hs)
      exact move_thrown haround
  · rename_i n thrown hpc
    obtain ⟨rfl, rfl⟩ := Prod.mk.inj (Option.some.inj hs)
    exact .storeIdle hpc
  · cases hs

/-- Of the steps of `processEvents` only a throw of the exception handler changes `running_`. -/
lemma running_of_step (hi : i ≠ .halt) (hs : p.step state i = some state') :
    state'.running = if i.alerts then .HALTED else state.running := by
  cases step_iff.mp hs with
  | halt => exact absurd rfl hi
  | @timeoutHandled returns | @handled returns => cases returns <;> rfl
  | _ => simp [Input.alerts]

/-- Where a step of `processEvents` leads. -/
lemma processEvents_cases (hi : i ≠ .halt)
    (hs : s.processEvents p n l state i = some (s', l')) :
    ∃ state' pc', p.step { state with running := s.running } i = some state' ∧
      state'.running = (if i.alerts then .HALTED else s.running) ∧
      s' = { s with
        running := state'.running
        sequence := state'.sequence
        retriesAttempted := state'.retriesAttempted } ∧ l' = { l with pc := pc' } ∧
      ((∃ thrown, state'.pc = .exited thrown ∧ pc' = .onShutdown (some n) thrown) ∨
        (∀ thrown, state'.pc ≠ .exited thrown) ∧ pc' =
          if i.alerts then .handlerAlert n state' else .processEvents n state' .checkAlert) := by
  simp only [Shared.processEvents, Option.map_eq_some_iff, Prod.mk.injEq] at hs
  obtain ⟨state', hstep, rfl, rfl⟩ := hs
  refine ⟨state', _, hstep, running_of_step hi hstep, rfl, rfl, ?_⟩
  split
  · rename_i thrown hpc
    exact Or.inl ⟨thrown, hpc, rfl⟩
  · rename_i hpc
    exact Or.inr ⟨hpc, rfl⟩

/-- `waitFor` has thrown an `AlertException`. -/
lemma processEvents_alert (hat : state.pc = .waitFor) :
    s.processEvents p n l state (.waitFor (.error .AlertException)) =
      some ({ s with sequence := state.sequence, retriesAttempted := state.retriesAttempted },
        { l with
          pc := .processEvents n { state with running := s.running, pc := .alerted }
            .checkAlert }) := by
  simp [Shared.processEvents, BatchEventProcessor.step, hat, State.throwException,
    State.catchException, Input.alerts]

/-! ### What a step keeps -/

/-- A step of `processEvents`. -/
lemma keeps_processEvents (hinv : Inv s) (hcurrent : s.current = some (t, n))
    (halerted : n ∈ s.halted → s.alerted = true) (hi : i ≠ .halt)
    (hs : s.processEvents p n l state i = some (s', l')) :
    Inv s' ∧ Assertion t l'.pc s' ∧ ∀ u, Rely u s s' := by
  obtain ⟨state', pc', -, hrunning, rfl, rfl, hpc'⟩ := processEvents_cases hi hs
  have hhalted : s.running = .HALTED → state'.running = .HALTED := by
    intro h
    rw [hrunning, h]
    split_ifs <;> rfl
  refine ⟨⟨?_, hinv.current_lt, hinv.halted_lt, ?_⟩, ?_, ?_⟩
  · intro x hx hidle
    have hne := hinv.running_ne x hx
    simp only [hrunning] at hidle
    split_ifs at hidle
    exact hne hidle
  · intro v m hv hm
    exact hhalted (hinv.halted_running v m hv hm)
  · rcases hpc' with ⟨thrown, -, rfl⟩ | ⟨hgoesOn, rfl⟩
    · exact assertion_of_owned rfl hcurrent rfl rfl trivial
    · split_ifs with hthrows
      · -- the exception handler has thrown, and `HALTED` is stored
        rw [if_pos hthrows] at hrunning
        constructor
        · intro m hm
          obtain rfl := Option.some.inj hm
          exact hcurrent
        · intro m hm
          obtain rfl := Option.some.inj hm
          exact ⟨hinv.current_lt t _ hcurrent, fun _ _ => hrunning⟩
        · intro m hm
          obtain rfl := Option.some.inj hm
          exact halerted
        · exact hgoesOn
      · exact assertion_of_processEvents hcurrent halerted hgoesOn
  · exact fun u => rely_of_kept rfl rfl rfl id hhalted

/-- The alert at the end of a `halt()`. -/
lemma keeps_alert (hinv : Inv s) {during : Option Nat}
    (hduring : ∀ m, during = some m →
      m < s.started ∧ ∀ u, s.current = some (u, m) → s.running = .HALTED) :
    Inv (s.alert during) ∧ ∀ u, Rely u s (s.alert during) := by
  have hmem : ∀ m, m ∈ (s.alert during).halted ↔ during = some m ∨ m ∈ s.halted := by
    intro m
    simp [Shared.alert]
  refine ⟨⟨hinv.running_ne, hinv.current_lt, ?_, ?_⟩, ?_⟩
  · intro m hm
    rcases (hmem m).mp hm with h | h
    · exact (hduring m h).1
    · exact hinv.halted_lt m h
  · intro u m hu hm
    rcases (hmem m).mp hm with h | h
    · exact (hduring m h).2 u hu
    · exact hinv.halted_running u m hu h
  · intro u
    exact ⟨le_rfl, fun _ h => h, fun _ _ _ => rfl, fun _ _ _ _ => Or.inr rfl,
      fun _ _ _ h => ⟨h, id⟩⟩

/-- What a step keeps, what is known after it, and what the other threads rely on. -/
theorem Move.keeps (hm : Move p b t s l a s' l') (hinv : Inv s) (hat : Assertion t l.pc s) :
    Inv s' ∧ Assertion t l'.pc s' ∧ ∀ u, u ≠ t → Rely u s s' := by
  have hother : ∀ {n u}, u ≠ t → s.current = some (t, n) → ∀ m, s.current ≠ some (u, m) := by
    intro n u hu hcurrent m hm
    rw [hcurrent] at hm
    exact hu (Prod.mk.inj (Option.some.inj hm)).1.symm
  cases hm with
  | announce hpc hidle =>
    have hnone : ∀ x, s.current ≠ some x := fun x hx => hinv.running_ne x hx hidle
    have hfresh : s.started ∉ s.halted := fun h => lt_irrefl _ (hinv.halted_lt _ h)
    refine ⟨⟨?_, ?_, ?_, ?_⟩, assertion_of_owned rfl rfl rfl rfl trivial, ?_⟩
    · rintro x - ⟨⟩
    · intro v m hv
      obtain ⟨rfl, rfl⟩ := Prod.mk.inj (Option.some.inj hv)
      exact Nat.lt_succ_self _
    · intro m hm
      exact (hinv.halted_lt m hm).trans (Nat.lt_succ_self _)
    · intro v m hv hm
      obtain ⟨rfl, rfl⟩ := Prod.mk.inj (Option.some.inj hv)
      exact absurd hm hfresh
    · intro u hu
      refine ⟨Nat.le_succ _, ?_, ?_, ?_, ?_⟩
      · intro m hm
        exact absurd hm (hnone _)
      · intro m hm
        exact absurd hm (hnone _)
      · intro m hm
        exact absurd hm (hnone _)
      · intro v m hlt hv
        obtain ⟨rfl, rfl⟩ := Prod.mk.inj (Option.some.inj hv)
        exact absurd hlt (lt_irrefl _)
  | storeHalted hpc =>
    refine ⟨⟨?_, hinv.current_lt, hinv.halted_lt, fun _ _ _ _ => rfl⟩, ?_, ?_⟩
    · rintro x - ⟨⟩
    · constructor
      · rintro m ⟨⟩
      · intro m hm
        obtain ⟨⟨v, k⟩, hcurrent, rfl⟩ := Option.map_eq_some_iff.mp hm
        exact ⟨hinv.current_lt v k hcurrent, fun _ _ => rfl⟩
      · rintro m ⟨⟩
      · trivial
    · exact fun u _ => rely_of_kept rfl rfl rfl id fun _ => rfl
  | alertBarrier hpc =>
    refine ⟨⟨hinv.running_ne, hinv.current_lt, hinv.halted_lt, hinv.halted_running⟩,
      assertion_of_idle rfl rfl rfl trivial, ?_⟩
    exact fun u _ => rely_of_kept rfl rfl rfl (fun _ => rfl) id
  | alert hpc =>
    have hduring := hat.halting
    rw [hpc] at hduring
    obtain ⟨hinv', hrely⟩ := keeps_alert hinv hduring
    exact ⟨hinv', assertion_of_idle rfl rfl rfl trivial, fun u _ => hrely u⟩
  | clearAlert hpc =>
    have hcurrent := hat.owned _ (by rw [hpc]; rfl)
    refine ⟨⟨hinv.running_ne, hinv.current_lt, hinv.halted_lt, hinv.halted_running⟩,
      assertion_of_owned rfl hcurrent rfl rfl trivial, ?_⟩
    intro u hu
    refine ⟨le_rfl, fun _ h => h, ?_, ?_, fun _ _ _ h => ⟨h, id⟩⟩
    · intro m hm
      exact absurd hm (hother hu hcurrent m)
    · intro m hm
      exact absurd hm (hother hu hcurrent m)
  | around haround hinside' hmidHalt howned =>
    have hhalting := CallPc.halting_of_not_midHalt hmidHalt
    refine ⟨⟨hinv.running_ne, hinv.current_lt, hinv.halted_lt, hinv.halted_running⟩, ?_, ?_⟩
    · have hgoesOn : l'.pc.GoesOn := by
        revert hinside'
        cases l'.pc with
        | processEvents n state call => rintro ⟨⟩
        | handlerAlert n state => rintro ⟨⟩
        | _ => exact fun _ => trivial
      rcases howned with hnone | hsame
      · exact assertion_of_idle hnone hhalting hinside' hgoesOn
      · constructor
        · intro m hm
          exact hat.owned m (hsame.symm.trans hm)
        · simp [hhalting]
        · simp [hinside']
        · exact hgoesOn
    · exact fun u _ => rely_of_kept rfl rfl rfl id id
  | enter hpc hrunning =>
    have hcurrent := hat.owned _ (by rw [hpc]; rfl)
    refine ⟨hinv, ?_, fun u _ => rely_of_kept rfl rfl rfl id id⟩
    apply assertion_of_processEvents hcurrent
    · -- a completed `halt()` would have left `HALTED`
      intro hhalted
      rw [hinv.halted_running t _ hcurrent hhalted] at hrunning
      cases hrunning
    · rintro thrown ⟨⟩
  | wait hpc hwaits hs =>
    have hcurrent := hat.owned _ (by rw [hpc]; rfl)
    have halerted := hat.alerted _ (by rw [hpc]; rfl)
    have hgoesOn := hat.goesOn
    rw [hpc] at hgoesOn
    exact ⟨hinv, assertion_of_processEvents hcurrent halerted hgoesOn,
      fun u _ => rely_of_kept rfl rfl rfl id id⟩
  | answer hpc hwaits hs hs' =>
    obtain ⟨hinv', hat', hrely⟩ := keeps_processEvents hinv (hat.owned _ (by rw [hpc]; rfl))
      (hat.alerted _ (by rw [hpc]; rfl)) (by rintro ⟨⟩) hs'
    exact ⟨hinv', hat', fun u _ => hrely u⟩
  | input hpc hown hs =>
    obtain ⟨hinv', hat', hrely⟩ := keeps_processEvents hinv (hat.owned _ (by rw [hpc]; rfl))
      (hat.alerted _ (by rw [hpc]; rfl)) (by rintro rfl; cases hown) hs
    exact ⟨hinv', hat', fun u _ => hrely u⟩
  | handlerAlert hpc =>
    have hcurrent := hat.owned _ (by rw [hpc]; rfl)
    have hduring := hat.halting
    have hgoesOn := hat.goesOn
    rw [hpc] at hduring hgoesOn
    obtain ⟨hinv', hrely⟩ := keeps_alert hinv hduring
    exact ⟨hinv', assertion_of_processEvents hcurrent (fun _ => rfl) hgoesOn, fun u _ => hrely u⟩
  | storeIdle hpc =>
    have hcurrent := hat.owned _ (by rw [hpc]; rfl)
    refine ⟨⟨?_, ?_, hinv.halted_lt, ?_⟩, assertion_of_idle rfl rfl rfl trivial, ?_⟩
    · rintro x ⟨⟩
    · rintro v m ⟨⟩
    · rintro v m ⟨⟩
    · intro u hu
      refine ⟨le_rfl, ?_, ?_, ?_, ?_⟩
      · intro m hm
        exact absurd hm (hother hu hcurrent m)
      · intro m hm
        exact absurd hm (hother hu hcurrent m)
      · intro m hm
        exact absurd hm (hother hu hcurrent m)
      · rintro v m - ⟨⟩

/-- What a `halt()` has completed in stays so. -/
lemma Move.halted_mono (hm : Move p b t s l a s' l') (hn : n ∈ s.halted) : n ∈ s'.halted := by
  cases hm with
  | alert hpc | handlerAlert hpc => exact List.mem_append_right _ hn
  | answer hpc hwaits hs hs' =>
    obtain ⟨-, -, -, -, rfl, -⟩ := processEvents_cases (by rintro ⟨⟩) hs'
    exact hn
  | input hpc hown hs =>
    obtain ⟨-, -, -, -, rfl, -⟩ := processEvents_cases (by rintro rfl; cases hown) hs
    exact hn
  | _ => exact hn

section

variable [DecidableEq T] {c c' : Config T ι} {act : Action T ι} {as : List (Action T ι)}
  {sequence : Int}

/-- The proof outline of the callers. -/
def outline (T : Type*) (p : BatchEventProcessor) (b : Barrier ι) : (pool T p b).Outline where
  inv := Inv
  assertion t l := Assertion t l.pc
  rely := Rely
  step_inv hinv hat hs := ((move_of_step hs).keeps hinv hat).1
  step_assertion hinv hat hs := ((move_of_step hs).keeps hinv hat).2.1
  step_rely hinv hat hs := ((move_of_step hs).keeps hinv hat).2.2
  stable _ _ hat hr := hat.stable hr

omit [DecidableEq T] in
lemma initial_holds (sequence : Int) :
    (outline T p b).Holds (initial sequence : Config T ι) := by
  refine ⟨⟨?_, ?_, ?_, ?_⟩, fun t => assertion_of_idle rfl rfl rfl trivial⟩
  · rintro x ⟨⟩
  · rintro t n ⟨⟩
  · rintro n ⟨⟩
  · rintro t n ⟨⟩

lemma holds_of_run (h : run (pool T p b).next (initial sequence) as = some c) :
    (outline T p b).Holds c :=
  (initial_holds sequence).run h

/-- A step of the pool is one of a thread. -/
lemma move_of_next (hs : (pool T p b).next c ⟨t, a⟩ = some c') :
    ∃ s' l', Move p b t c.shared (c.threads t) a s' l' ∧
      c' = ⟨s', Function.update c.threads t l'⟩ := by
  obtain ⟨s', l', hstep, rfl⟩ := (pool T p b).next_eq_some.mp hs
  exact ⟨s', l', move_of_step hstep, rfl⟩

end

end Disruptor.BatchEventProcessor.Lifecycle
