import Disruptor.EventProcessor.Halting

/-!
# Alerts without a `halt()`

An alert is cleared in one place only, at the start of a run. `processEvents()` goes on after an
`AlertException` while `running_` is `RUNNING`, and finds the alert again in its next call of
`waitFor`. Such an alert is one of `handleExceptionsFor(h).with(e)`, or of a `halt()` that has
stored `HALTED` before the run.
-/

namespace Disruptor.BatchEventProcessor.Lifecycle

open Disruptor.Core

variable {T ι : Type*}

/-- The action is a call of `halt()` or of `with(e)`, or the exception handler throws. -/
def CallAction.disturbs : CallAction ι → Bool
  | .halt | .alert => true
  | .input i => i.alerts
  | _ => false

/-- The iteration of the loop ends in an `AlertException` of the barrier. -/
def throwsAlert (b : Barrier ι) (x : Transition (Config T ι) (Action T ι)) : Bool :=
  match waitEnds b x with
  | some (_, .error .AlertException) => true
  | _ => false

/-- No call of `halt()` is in progress. -/
def Calm (c : Config T ι) : Prop := ∀ t, (c.threads t).pc.midHalt = false

/-- While no `halt()` and no `with(e)` is called, at most one iteration of the loop ends in an
`AlertException`. -/
def AtMostOneAlert [DecidableEq T] (p : BatchEventProcessor) (b : Barrier ι) (c : Config T ι) :
    Prop :=
  ∀ as, (∀ act ∈ as, act.2.disturbs = false) →
    (transitions (pool T p b).next c as).countP (throwsAlert b) ≤ 1

variable [DecidableEq T] {p : BatchEventProcessor} {b : Barrier ι} {c c' : Config T ι}
  {as : List (Action T ι)} {act : Action T ι} {t : T} {n : Nat} {sequence : Int}
  {state state' : State} {i : Input} {call call' : WaitCall ι} {view : WaitView ι}
  {choice : WaitChoice} {strategy : WaitStrategy} {s s' : Shared T} {l l' : Caller ι}
  {a : CallAction ι}

/-! ### Without an alert -/

omit [DecidableEq T] in
/-- Only a `halt()` and `with(e)` set the alert. -/
lemma Move.undisturbed (hm : Move p b t s l a s' l') (hquiet : a.disturbs = false)
    (hcalm : l.pc.midHalt = false) (halerted : s.alerted = false) :
    l'.pc.midHalt = false ∧ s'.alerted = false := by
  have hloop : ∀ {n i s' state} {l' : Caller ι}, i ≠ .halt → i.alerts = false →
      s.processEvents p n l state i = some (s', l') →
      l'.pc.midHalt = false ∧ s'.alerted = false := by
    intro n i s' state l' hi halerts hs
    obtain ⟨state', pc', -, -, rfl, rfl, hpc'⟩ := processEvents_cases hi hs
    refine ⟨?_, halerted⟩
    rcases hpc' with ⟨thrown, -, rfl⟩ | ⟨-, rfl⟩
    · rfl
    · simp [halerts, CallPc.midHalt]
  cases hm with
  | storeHalted hpc => cases hquiet
  | alertBarrier hpc => cases hquiet
  | alert hpc | handlerAlert hpc =>
    rw [hpc] at hcalm
    cases hcalm
  | around haround hinside' hmidHalt howned => exact ⟨hmidHalt, halerted⟩
  | clearAlert hpc => exact ⟨rfl, rfl⟩
  | answer hpc hat hs hs' => exact hloop (by rintro ⟨⟩) rfl hs'
  | input hpc hown hs => exact hloop (by rintro rfl; cases hown) hquiet hs
  | announce hpc | enter hpc | wait hpc | storeIdle hpc => exact ⟨rfl, halerted⟩

/-- No `halt()` is in progress, and the alert is not set. -/
structure Undisturbed (c : Config T ι) : Prop where
  calm : Calm c
  alerted : c.shared.alerted = false

lemma Undisturbed.next (h : Undisturbed c) (hquiet : act.2.disturbs = false)
    (hs : (pool T p b).next c act = some c') : Undisturbed c' := by
  obtain ⟨u, a⟩ := act
  obtain ⟨s', l', hm, rfl⟩ := move_of_next hs
  obtain ⟨hcalm, halerted⟩ := hm.undisturbed hquiet (h.calm u) h.alerted
  refine ⟨?_, halerted⟩
  intro t
  by_cases ht : t = u
  · subst ht
    simpa using hcalm
  · simpa only [Function.update_of_ne ht] using h.calm t

omit [DecidableEq T] in
lemma throwsAlert_eq_false (h : c.shared.alerted = false) :
    throwsAlert b ⟨c, act, c'⟩ = false := by
  rw [Bool.eq_false_iff]
  intro hthrows
  simp only [throwsAlert, waitEnds] at hthrows
  split at hthrows
  · rename_i m hends
    split at hends
    · split at hends
      · rename_i answer hstep
        obtain ⟨rfl, rfl⟩ := Prod.mk.inj (Option.some.inj hends)
        rw [WaitCall.alerted_of_throws hstep] at h
        cases h
      · cases hends
    · cases hends
  · cases hthrows

lemma Undisturbed.none_throws (h : Undisturbed c) (hquiet : ∀ act ∈ as, act.2.disturbs = false) :
    (transitions (pool T p b).next c as).countP (throwsAlert b) = 0 := by
  induction as generalizing c with
  | nil => rfl
  | cons act as ih =>
    obtain ⟨hact, has⟩ := List.forall_mem_cons.mp hquiet
    cases hs : (pool T p b).next c act with
    | none => simp [transitions_cons_of_none hs]
    | some c' =>
      rw [transitions_cons_of_some hs, List.countP_cons_of_neg]
      · exact ih (h.next hact hs) has
      · simp [throwsAlert_eq_false h.alerted]

/-! ### Back to the top of the loop -/

/-- The thread is in the loop of a processor that is not halted, and whose barrier is alerted. -/
structure Looping (t : T) (n : Nat) (state : State) (call : WaitCall ι) (c : Config T ι) :
    Prop where
  pc : (c.threads t).pc = .processEvents n state call
  running : c.shared.running = .RUNNING
  alerted : c.shared.alerted = true
  goesOn : ∀ thrown, state.pc ≠ .exited thrown

/-- Actions that lead from a state to another, without a `halt()` or an alert. -/
def Leads (p : BatchEventProcessor) (b : Barrier ι) (c c' : Config T ι) : Prop :=
  ∃ as, (∀ act ∈ as, act.2.disturbs = false) ∧ run (pool T p b).next c as = some c'

lemma Leads.refl (c : Config T ι) : Leads p b c c := ⟨[], by simp, rfl⟩

lemma Leads.head {c₁ : Config T ι} (hs : (pool T p b).next c act = some c₁)
    (hquiet : act.2.disturbs = false) (h : Leads p b c₁ c') : Leads p b c c' := by
  obtain ⟨as, has, hrun⟩ := h
  exact ⟨act :: as, List.forall_mem_cons.mpr ⟨hquiet, has⟩, run_cons_eq_some.mpr ⟨c₁, hs, hrun⟩⟩

lemma Leads.trans {c₁ : Config T ι} (h₁ : Leads p b c c₁) (h : Leads p b c₁ c') :
    Leads p b c c' := by
  obtain ⟨as₁, has₁, hrun₁⟩ := h₁
  obtain ⟨as, has, hrun⟩ := h
  refine ⟨as₁ ++ as, List.forall_mem_append.mpr ⟨has₁, has⟩, ?_⟩
  rw [run_append, hrun₁]
  exact hrun

lemma Looping.input (h : Looping t n state call c) (hown : i.isOwn = true)
    (halerts : i.alerts = false)
    (hs : p.step { state with running := .RUNNING } i = some state')
    (hgoesOn : ∀ thrown, state'.pc ≠ .exited thrown) :
    ∃ c', (pool T p b).next c ⟨t, .input i⟩ = some c' ∧ Looping t n state' .checkAlert c' := by
  have hstep : step p b t c.shared (c.threads t) (.input i) =
      c.shared.processEvents p n (c.threads t) state i := by
    simp only [step, h.pc, hown, if_true]
  rw [← h.running] at hs
  obtain ⟨c', hnext, hrunning, halerted, hpc'⟩ :=
    next_processEvents (by rintro rfl; cases hown) halerts hs hstep
  rcases hpc' with ⟨thrown, hexited, -⟩ | ⟨-, hpc'⟩
  · exact absurd hexited (hgoesOn thrown)
  · exact ⟨c', hnext, hpc', hrunning.trans h.running, halerted.trans h.alerted, hgoesOn⟩

/-- A call of `waitFor` ends. -/
lemma Looping.answer {answer : Except Exception Int} (h : Looping t n state call c)
    (hat : state.pc = .waitFor)
    (hs : call.step b { view with alerted := true } state.nextSequence choice =
      some (.inr answer)) :
    ∃ c' state', (pool T p b).next c ⟨t, .wait view choice⟩ = some c' ∧
      p.step { state with running := .RUNNING } (.waitFor answer) = some state' ∧
      Looping t n state' .checkAlert c' := by
  rw [← h.alerted] at hs
  obtain ⟨c', state', hnext, hs', hrunning, halerted, hgoesOn, hpc'⟩ :=
    next_answer (p := p) h.pc hat hs
  rw [h.running] at hs'
  exact ⟨c', state', hnext, hs', hpc', hrunning.trans h.running, halerted.trans h.alerted, hgoesOn⟩

/-- A call of `waitFor` goes on. -/
lemma Looping.wait (h : Looping t n state call c) (hat : state.pc = .waitFor)
    (hs : call.step b { view with alerted := true } state.nextSequence choice =
      some (.inl call')) :
    ∃ c', (pool T p b).next c ⟨t, .wait view choice⟩ = some c' ∧ Looping t n state call' c' := by
  rw [← h.alerted] at hs
  obtain ⟨c', hnext, hshared, hpc'⟩ := next_wait (p := p) h.pc hat hs
  refine ⟨c', hnext, hpc', ?_, ?_, h.goesOn⟩
  · rw [hshared]
    exact h.running
  · rw [hshared]
    exact h.alerted

lemma Looping.leads_to_top_of_ne (h : Looping t n state call c) (hat : state.pc ≠ .waitFor) :
    ∃ c' state', Leads p b c c' ∧ Looping t n state' .checkAlert c' ∧ state'.pc = .waitFor := by
  induction hk : stepsLeft state using Nat.strong_induction_on generalizing state call c with
  | _ k ih =>
    obtain ⟨i, state₁, hown, -, halerts, hs, hnear, hexits⟩ :=
      exists_step (p := p) { state with running := .RUNNING } hat h.goesOn
    have hgoesOn : ∀ thrown, state₁.pc ≠ .exited thrown :=
      fun thrown hexited => (hexits thrown hexited).2 rfl
    obtain ⟨c₁, hnext, h₁⟩ := h.input (p := p) (b := b) hown halerts hs hgoesOn
    by_cases hat₁ : state₁.pc = .waitFor
    · exact ⟨c₁, state₁, (Leads.refl c₁).head hnext halerts, h₁, hat₁⟩
    · have hlt : stepsLeft state₁ < k := hk ▸ hnear.resolve_left hat₁
      obtain ⟨c', state', hleads, htop⟩ := ih _ hlt h₁ hat₁ rfl
      exact ⟨c', state', hleads.head hnext halerts, htop⟩

lemma Looping.leads_out_of_wait (h : Looping t n state call c) (view : WaitView ι)
    (hat : state.pc = .waitFor)
    (hend : call.Ends b { view with alerted := true } state.nextSequence) :
    ∃ c' state', Leads p b c c' ∧ Looping t n state' .checkAlert c' := by
  induction hend generalizing c with
  | done choice hs =>
    obtain ⟨c', state', hnext, -, h'⟩ := h.answer (p := p) hat hs
    exact ⟨c', state', (Leads.refl c').head hnext rfl, h'⟩
  | go choice hs _ ih =>
    obtain ⟨c₁, hnext, h₁⟩ := h.wait (p := p) hat hs
    obtain ⟨c', state', hleads, h'⟩ := ih h₁
    exact ⟨c', state', hleads.head hnext rfl, h'⟩

/-- From wherever it is, the thread can come to the top of the loop. -/
lemma Looping.leads_to_top (h : Looping t n state call c) :
    ∃ c' state', Leads p b c c' ∧ Looping t n state' .checkAlert c' ∧ state'.pc = .waitFor := by
  by_cases hat : state.pc = .waitFor
  · have hend : call.Ends b ⟨0, fun _ => 0, true, some fun _ => false⟩ state.nextSequence :=
      WaitCall.ends_of_alerted rfl (by cases call <;> trivial)
    obtain ⟨c₁, state₁, hleads₁, h₁⟩ :=
      h.leads_out_of_wait (p := p) ⟨0, fun _ => 0, true, some fun _ => false⟩ hat hend
    by_cases hat₁ : state₁.pc = .waitFor
    · exact ⟨c₁, state₁, hleads₁, h₁, hat₁⟩
    · obtain ⟨c', state', hleads, htop⟩ := h₁.leads_to_top_of_ne (p := p) (b := b) hat₁
      exact ⟨c', state', hleads₁.trans hleads, htop⟩
  · exact h.leads_to_top_of_ne hat

/-! ### Rounds that deliver nothing -/

/-- `waitFor` throws, and `running_` is read. -/
def round (t : T) (view : WaitView ι) : List (Action T ι) :=
  [⟨t, .wait view .proceed⟩, ⟨t, .input .checkRunning⟩]

/-- `k` such iterations. -/
def rounds (t : T) (view : WaitView ι) : Nat → List (Action T ι)
  | 0 => []
  | k + 1 => round t view ++ rounds t view k

/-- From the top of the loop, an iteration ends in an `AlertException` and leads to the top
again, whatever has been published. -/
lemma Looping.round_throws (h : Looping t n state .checkAlert c) (hat : state.pc = .waitFor)
    (view : WaitView ι) :
    ∃ c', run (pool T p b).next c (round t view) = some c' ∧
      Looping t n { state with running := .RUNNING } .checkAlert c' ∧
      (transitions (pool T p b).next c (round t view)).countP (throwsAlert b) = 1 := by
  have hthrow : WaitCall.checkAlert.step b { view with alerted := true } state.nextSequence
      .proceed = some (.inr (.error .AlertException)) := by
    simp only [WaitCall.step, if_true]
  obtain ⟨c₁, state₁, hnext₁, hs₁, h₁⟩ := h.answer (p := p) hat hthrow
  obtain rfl : { state with running := .RUNNING, pc := .alerted } = state₁ := by
    simpa [BatchEventProcessor.step, hat, State.throwException, State.catchException] using hs₁
  have hback : p.step { state with running := .RUNNING, pc := .alerted } .checkRunning =
      some { state with running := .RUNNING } := by
    simp [BatchEventProcessor.step, hat]
  obtain ⟨c₂, hnext₂, h₂⟩ := h₁.input (b := b) rfl rfl hback (by simp [hat])
  refine ⟨c₂, ?_, h₂, ?_⟩
  · exact run_cons_eq_some.mpr ⟨c₁, hnext₁, run_cons_eq_some.mpr ⟨c₂, hnext₂, rfl⟩⟩
  · have hends : throwsAlert b ⟨c, ⟨t, .wait view .proceed⟩, c₁⟩ = true := by
      simp only [throwsAlert, waitEnds, h.pc, h.alerted, hthrow]
    have hnot : throwsAlert b ⟨c₁, ⟨t, .input .checkRunning⟩, c₂⟩ = false := by
      simp only [throwsAlert, waitEnds, h₁.pc]
    simp only [round, transitions_cons_of_some hnext₁, transitions_cons_of_some hnext₂]
    simp [transitions, hends, hnot]

lemma Looping.rounds_throw (h : Looping t n state .checkAlert c) (hat : state.pc = .waitFor)
    (view : WaitView ι) (k : Nat) :
    ∃ c' state', run (pool T p b).next c (rounds t view k) = some c' ∧
      Looping t n state' .checkAlert c' ∧ state'.pc = .waitFor ∧
      (transitions (pool T p b).next c (rounds t view k)).countP (throwsAlert b) = k := by
  induction k generalizing c state with
  | zero => exact ⟨c, state, rfl, h, hat, rfl⟩
  | succ k ih =>
    obtain ⟨c₁, hrun₁, h₁, hcount₁⟩ := h.round_throws (p := p) (b := b) hat view
    obtain ⟨c', state', hrun, h', hat', hcount⟩ := ih h₁ hat
    refine ⟨c', state', ?_, h', hat', ?_⟩
    · rw [rounds, run_append, hrun₁]
      exact hrun
    · rw [rounds, transitions_append hrun₁, List.countP_append, hcount₁, hcount,
        Nat.add_comm]

omit [DecidableEq T] in
lemma rounds_undisturbed (t : T) (view : WaitView ι) (k : Nat) :
    ∀ act ∈ rounds t view k, act.2.disturbs = false := by
  induction k with
  | zero => rintro act ⟨⟩
  | succ k ih =>
    have hround : ∀ act ∈ round t view, act.2.disturbs = false := by
      simp [round, CallAction.disturbs, Input.alerts]
    exact List.forall_mem_append.mpr ⟨hround, ih⟩

/-- An alert that is set stays set, and every iteration finds it. -/
lemma Looping.not_atMostOneAlert (h : Looping t n state call c) : ¬ AtMostOneAlert p b c := by
  obtain ⟨c₁, state₁, ⟨as, has, hrun⟩, h₁, hat₁⟩ := h.leads_to_top (p := p) (b := b)
  obtain ⟨c₂, state₂, -, -, -, hcount⟩ :=
    h₁.rounds_throw (p := p) (b := b) hat₁ ⟨0, fun _ => 0, false, none⟩ 2
  intro hone
  have hle := hone (as ++ rounds t ⟨0, fun _ => 0, false, none⟩ 2)
    (List.forall_mem_append.mpr ⟨has, rounds_undisturbed t _ 2⟩)
  rw [transitions_append hrun, List.countP_append, hcount] at hle
  omega

/-! ### The livelock -/

/-- The thread is at the top of the loop, or about to read `running_` after an `AlertException`;
`next` is the sequence that it waits for. -/
structure Livelocked (t : T) (n : Nat) (next : Int) (c : Config T ι) : Prop where
  loops : ∃ state, Looping t n state .checkAlert c ∧ state.nextSequence = next ∧
    (state.pc = .waitFor ∨ state.pc = .alerted)

omit [DecidableEq T] in
/-- Another thread does not clear the alert, and changes `running_` only by `halt()`. -/
lemma Move.livelocked {u : T} (hm : Move p b u s l a s' l')
    (hat : Assertion u l.pc s) (hcurrent : s.current = some (t, n)) (hu : u ≠ t)
    (hrunning : s.running = .RUNNING) (halerted : s.alerted = true) (hhalt : a ≠ .halt) :
    s'.running = .RUNNING ∧ s'.alerted = true := by
  have hnot : ∀ m, l.pc.owned ≠ some m := by
    intro m hm
    have howned := hat.owned m hm
    rw [hcurrent] at howned
    exact hu (Prod.mk.inj (Option.some.inj howned)).1.symm
  cases hm with
  | announce hpc hidle =>
    rw [hrunning] at hidle
    cases hidle
  | storeHalted hpc => exact absurd rfl hhalt
  | alertBarrier hpc | alert hpc => exact ⟨hrunning, rfl⟩
  | around haround => exact ⟨hrunning, halerted⟩
  | clearAlert hpc | enter hpc | wait hpc | answer hpc | input hpc | handlerAlert hpc
  | storeIdle hpc => exact absurd (by rw [hpc]; rfl) (hnot _)

omit [DecidableEq T] in
/-- Outside `waitFor`, the thread can only read `running_`. -/
lemma own_of_livelocked (hat : state.pc = .waitFor ∨ state.pc = .alerted)
    (hown : i.isOwn = true) {running : Running}
    (hs : p.step { state with running := running } i = some state') :
    state.pc = .alerted ∧ i = .checkRunning := by
  rcases hat with hat | hat
  · cases step_iff.mp hs with
    | available | waitForThrows | halt => cases hown
    | _ hpc => cases hpc.symm.trans hat
  · cases step_iff.mp hs with
    | available | waitForThrows | halt => cases hown
    | checkRunning => exact ⟨hat, rfl⟩
    | _ hpc => cases hpc.symm.trans hat

/-- Without a `halt()`, nothing gets the thread out of the livelock. -/
lemma Livelocked.next {next : Int} (h : Livelocked t n next c) (hholds : (outline T p b).Holds c)
    (hs : (pool T p b).next c act = some c') (hhalt : act.2 ≠ .halt) :
    Livelocked t n next c' := by
  obtain ⟨u, a⟩ := act
  obtain ⟨state, hloop, hnext, hat⟩ := h.loops
  by_cases hu : u = t
  · subst hu
    obtain ⟨s', l', hm, hc'⟩ := move_of_next hs
    have hpc := hloop.pc
    cases hm with
    | announce hpc' | storeHalted hpc' | alertBarrier hpc' | alert hpc' | clearAlert hpc'
    | enter hpc' | handlerAlert hpc' | storeIdle hpc' =>
      rw [hpc] at hpc'
      cases hpc'
    | around haround =>
      rw [hpc] at haround
      cases haround
    | wait hpc' hat' hs' =>
      obtain ⟨rfl, rfl, rfl⟩ := CallPc.processEvents.inj (hpc.symm.trans hpc')
      cases WaitCall.checkAlert_step hloop.alerted hs'
    | answer hpc' hat' hs' hs'' =>
      obtain ⟨rfl, rfl, rfl⟩ := CallPc.processEvents.inj (hpc.symm.trans hpc')
      obtain rfl := Sum.inr.inj (WaitCall.checkAlert_step hloop.alerted hs')
      rw [hloop.alerted] at hs'
      obtain ⟨c₁, state₁, hnext₁, hs₁, h₁⟩ := hloop.answer (p := p) hat' hs'
      obtain rfl : c' = c₁ := Option.some.inj (hs.symm.trans hnext₁)
      simp only [BatchEventProcessor.step, hat'] at hs₁
      obtain rfl := Option.some.inj hs₁
      exact ⟨_, h₁, hnext, Or.inr rfl⟩
    | input hpc' hown hs' =>
      obtain ⟨rfl, rfl, rfl⟩ := CallPc.processEvents.inj (hpc.symm.trans hpc')
      obtain ⟨_, -, hs₁, -⟩ := processEvents_cases (by rintro rfl; cases hown) hs'
      obtain ⟨hat', rfl⟩ := own_of_livelocked hat hown hs₁
      have hback : p.step { state with running := .RUNNING } .checkRunning =
          some { state with running := .RUNNING, pc := .waitFor } := by
        simp [BatchEventProcessor.step, hat']
      obtain ⟨c₁, hnext₁, h₁⟩ := hloop.input (b := b) rfl rfl hback (by rintro thrown ⟨⟩)
      obtain rfl : c' = c₁ := Option.some.inj (hs.symm.trans hnext₁)
      exact ⟨_, h₁, hnext, Or.inl rfl⟩
  · obtain ⟨s', l', hm, rfl⟩ := move_of_next hs
    have hcurrent : c.shared.current = some (t, n) :=
      (hholds.threads t).owned n (by rw [hloop.pc]; rfl)
    obtain ⟨hrunning, halerted⟩ := hm.livelocked (hholds.threads u) hcurrent hu
      hloop.running hloop.alerted hhalt
    refine ⟨state, ⟨?_, hrunning, halerted, hloop.goesOn⟩, hnext, hat⟩
    simpa only [Function.update_of_ne (Ne.symm hu)] using hloop.pc

/-- In every continuation without a `halt()`, whatever is published and whoever calls `with(e)`,
the thread waits for the same sequence and delivers nothing. -/
theorem Livelocked.run {next : Int} (h : Livelocked t n next c) (hholds : (outline T p b).Holds c)
    (hhalt : ∀ act ∈ as, act.2 ≠ .halt) (hr : run (pool T p b).next c as = some c') :
    Livelocked t n next c' := by
  induction as generalizing c with
  | nil =>
    obtain rfl : c = c' := by simpa using hr
    exact h
  | cons act as ih =>
    obtain ⟨hact, has⟩ := List.forall_mem_cons.mp hhalt
    obtain ⟨c₁, hs, hr⟩ := run_cons_eq_some.mp hr
    exact ih (h.next hholds hs hact) (hholds.next hs) has hr

/-! ### Where a stray alert comes from -/

/-- A run is about to clear the alert. -/
def AboutToClear (c : Config T ι) : Prop := ∃ t n, (c.threads t).pc = .clearAlert n

/-- The step sets the alert of a run that has cleared it and is not halted: `with(e)` is called, or
a `halt()` ends that has stored `HALTED` before the run. -/
structure StrayAlert (x : Transition (Config T ι) (Action T ι)) : Prop where
  sets : x.act.2 = .alert ∨ (x.pre.threads x.act.1).pc.midHalt = true
  running : x.pre.shared.running = .RUNNING
  cleared : ¬ AboutToClear x.pre

/-- Where `running_` is `RUNNING` and the alert is set, it is still to be cleared. -/
def Cleared (c : Config T ι) : Prop :=
  c.shared.running = .RUNNING → c.shared.alerted = true → AboutToClear c

lemma AboutToClear.update {u : T} (h : AboutToClear c)
    (hpc : ∀ n, (c.threads u).pc ≠ .clearAlert n) :
    AboutToClear (⟨s', Function.update c.threads u l'⟩ : Config T ι) := by
  obtain ⟨t, n, ht⟩ := h
  have hne : t ≠ u := by
    rintro rfl
    exact hpc n ht
  exact ⟨t, n, by simpa only [Function.update_of_ne hne] using ht⟩

lemma Cleared.next (h : Cleared c) (hs : (pool T p b).next c act = some c')
    (hstray : ¬ StrayAlert ⟨c, act, c'⟩) : Cleared c' := by
  obtain ⟨u, a⟩ := act
  obtain ⟨s', l', hm, rfl⟩ := move_of_next hs
  have hloop : ∀ {n i s' state call} {l' : Caller ι}, i ≠ .halt →
      (c.threads u).pc = .processEvents n state call →
      c.shared.processEvents p n (c.threads u) state i = some (s', l') →
      Cleared (⟨s', Function.update c.threads u l'⟩ : Config T ι) := by
    intro n i s' state call l' hi hpc hs
    obtain ⟨state', pc', -, hrunning, rfl, rfl, -⟩ := processEvents_cases hi hs
    intro hrunning' halerted
    simp only [hrunning] at hrunning'
    split_ifs at hrunning'
    exact (h hrunning' halerted).update (by simp [hpc])
  have hset : a = .alert ∨ (c.threads u).pc.midHalt = true →
      c.shared.running = .RUNNING → AboutToClear c := by
    intro hsets hrunning
    by_contra hclear
    exact hstray ⟨hsets, hrunning, hclear⟩
  cases hm with
  | announce hpc hidle => exact fun _ _ => ⟨u, _, by simp; rfl⟩
  | storeHalted hpc => rintro ⟨⟩
  | alertBarrier hpc =>
    exact fun hrunning _ => (hset (Or.inl rfl) hrunning).update (by simp [hpc])
  | alert hpc =>
    exact fun hrunning _ => (hset (Or.inr (by rw [hpc]; rfl)) hrunning).update (by simp [hpc])
  | clearAlert hpc => rintro - ⟨⟩
  | around haround =>
    intro hrunning halerted
    refine (h hrunning halerted).update ?_
    intro n hpc
    rw [hpc] at haround
    cases haround
  | enter hpc | wait hpc =>
    exact fun hrunning halerted => (h hrunning halerted).update (by simp [hpc])
  | answer hpc hat hs hs' => exact hloop (by rintro ⟨⟩) hpc hs'
  | input hpc hown hs => exact hloop (by rintro rfl; cases hown) hpc hs
  | handlerAlert hpc =>
    exact fun hrunning _ => (hset (Or.inr (by rw [hpc]; rfl)) hrunning).update (by simp [hpc])
  | storeIdle hpc => rintro ⟨⟩

lemma cleared_of_run (h : run (pool T p b).next (initial sequence) as = some c)
    (hstray : ∀ x ∈ transitions (pool T p b).next (initial sequence) as, ¬ StrayAlert x) :
    Cleared c := by
  have hinit : Cleared (initial sequence : Config T ι) := by rintro ⟨⟩
  exact run_invariant_of_forall Cleared (fun x => ¬ StrayAlert x)
    (fun _ _ _ hinv hs hkept => hinv.next hs hkept) hinit h hstray

/-- In a run without stray alerts, no processor that is not halted finds an alert. -/
lemma alerted_eq_false_of_run (h : run (pool T p b).next (initial sequence) as = some c)
    (hstray : ∀ x ∈ transitions (pool T p b).next (initial sequence) as, ¬ StrayAlert x)
    (hpc : (c.threads t).pc = .processEvents n state call)
    (hrunning : c.shared.running = .RUNNING) : c.shared.alerted = false := by
  by_contra halerted
  rw [Bool.not_eq_false] at halerted
  obtain ⟨u, m, hu⟩ := cleared_of_run h hstray hrunning halerted
  have hholds := holds_of_run h
  have hct := (hholds.threads t).owned n (by rw [hpc]; rfl)
  have hcu := (hholds.threads u).owned m (by rw [hu]; rfl)
  obtain ⟨rfl, -⟩ := Prod.mk.inj (Option.some.inj (hct.symm.trans hcu))
  rw [hpc] at hu
  cases hu

/-! ### Every reachable state -/

/-- Without an alert no iteration ends in an `AlertException`. -/
lemma Undisturbed.atMostOneAlert (h : Undisturbed c) : AtMostOneAlert p b c := by
  intro as hquiet
  rw [h.none_throws hquiet]
  exact Nat.zero_le 1

/-- In a state in which a thread is in `processEvents()`, `running_` is `RUNNING` and no `halt()` is
in progress, at most one more iteration ends in an `AlertException` exactly if the alert is not
set. So it is in every such state of a run without stray alerts. -/
theorem atMostOneAlert_iff (h : run (pool T p b).next (initial sequence) as = some c)
    (hpc : (c.threads t).pc = .processEvents n state call) (hrunning : c.shared.running = .RUNNING)
    (hcalm : Calm c) :
    (AtMostOneAlert p b c ↔ c.shared.alerted = false) ∧
      ((∀ x ∈ transitions (pool T p b).next (initial sequence) as, ¬ StrayAlert x) →
        AtMostOneAlert p b c) := by
  have hgoesOn := ((holds_of_run h).threads t).goesOn
  rw [hpc] at hgoesOn
  refine ⟨⟨?_, fun halerted => Undisturbed.atMostOneAlert ⟨hcalm, halerted⟩⟩, ?_⟩
  · intro hone
    by_contra halerted
    rw [Bool.not_eq_false] at halerted
    exact Looping.not_atMostOneAlert ⟨hpc, hrunning, halerted, hgoesOn⟩ hone
  · intro hstray
    exact Undisturbed.atMostOneAlert ⟨hcalm, alerted_eq_false_of_run h hstray hpc hrunning⟩

/-- A processor is started and is about to call `waitFor` for the first time. -/
def start : List (Action Bool Empty) :=
  [⟨true, .run⟩, ⟨true, .proceed⟩, ⟨true, .notify none⟩, ⟨true, .proceed⟩]

lemma calm_iff {c : Config Bool Empty} :
    Calm c ↔ (c.threads true).pc.midHalt = false ∧ (c.threads false).pc.midHalt = false := by
  constructor
  · exact fun h => ⟨h true, h false⟩
  · rintro ⟨htrue, hfalse⟩ (_ | _)
    · exact hfalse
    · exact htrue

theorem atMostOneAlert_start :
    ∃ c : Config Bool Empty,
      run (pool Bool ⟨9, .NoRewindHandler, by decide⟩ ⟨.BusySpin, []⟩).next (initial (-1)) start =
        some c ∧ AtMostOneAlert ⟨9, .NoRewindHandler, by decide⟩ ⟨.BusySpin, []⟩ c := by
  obtain ⟨c, hrun, hpc, hrunning, halerted, hcalm⟩ : ∃ c : Config Bool Empty,
      run (pool Bool ⟨9, .NoRewindHandler, by decide⟩ ⟨.BusySpin, []⟩).next (initial (-1)) start =
        some c ∧ (c.threads true).pc = .processEvents 0 (enter (-1)) .checkAlert ∧
      c.shared.running = .RUNNING ∧ c.shared.alerted = false ∧ Calm c :=
    ⟨_, rfl, rfl, rfl, rfl, calm_iff.mpr ⟨rfl, rfl⟩⟩
  exact ⟨c, hrun, (atMostOneAlert_iff hrun hpc hrunning hcalm).1.mpr halerted⟩

/-- With `with(e)` after `start()`, a processor waits for a sequence that is published, and however
often it calls `waitFor`, each call throws an `AlertException` and nothing is delivered. -/
theorem startThenWith_livelocks :
    ∃ c : Config Bool Empty,
      run (pool Bool ⟨9, .NoRewindHandler, by decide⟩ ⟨.BusySpin, []⟩).next (initial (-1))
        (start ++ [⟨false, .alert⟩]) = some c ∧
      (c.threads true).pc = .processEvents 0 (enter (-1)) .checkAlert ∧
      c.shared.running = .RUNNING ∧ Calm c ∧
      ¬ AtMostOneAlert ⟨9, .NoRewindHandler, by decide⟩ ⟨.BusySpin, []⟩ c ∧
      ∀ k, ∃ c',
        run (pool Bool ⟨9, .NoRewindHandler, by decide⟩ ⟨.BusySpin, []⟩).next c
          (rounds true ⟨0, fun _ => 0, false, none⟩ k) = some c' ∧
        (transitions (pool Bool ⟨9, .NoRewindHandler, by decide⟩ ⟨.BusySpin, []⟩).next c
          (rounds true ⟨0, fun _ => 0, false, none⟩ k)).countP (throwsAlert ⟨.BusySpin, []⟩) = k ∧
        Livelocked true 0 0 c' := by
  obtain ⟨c, hrun, hloop, hcalm⟩ : ∃ c : Config Bool Empty,
      run (pool Bool ⟨9, .NoRewindHandler, by decide⟩ ⟨.BusySpin, []⟩).next (initial (-1))
        (start ++ [⟨false, .alert⟩]) = some c ∧
      Looping true 0 (enter (-1)) .checkAlert c ∧ Calm c :=
    ⟨_, rfl, ⟨rfl, rfl, rfl, by rintro thrown ⟨⟩⟩, calm_iff.mpr ⟨rfl, rfl⟩⟩
  refine ⟨c, hrun, hloop.pc, hloop.running, hcalm, hloop.not_atMostOneAlert, ?_⟩
  intro k
  obtain ⟨c', -, hrounds, -, -, hcount⟩ := hloop.rounds_throw rfl _ k
  have hlivelocked : Livelocked true 0 0 c := ⟨⟨_, hloop, rfl, Or.inl rfl⟩⟩
  refine ⟨c', hrounds, hcount, hlivelocked.run (holds_of_run hrun) ?_ hrounds⟩
  intro act hact hhalt
  have hquiet := rounds_undisturbed true _ k act hact
  rw [hhalt] at hquiet
  cases hquiet

/-- A `halt()` stores `HALTED` before the processor enters `processEvents()`, and alerts when the
processor is run again. -/
example :
    ∃ c : Config Bool Empty,
      run (pool Bool ⟨9, .NoRewindHandler, by decide⟩ ⟨.BusySpin, []⟩).next (initial (-1))
        ([⟨true, .run⟩, ⟨true, .proceed⟩, ⟨true, .notify none⟩, ⟨false, .halt⟩, ⟨true, .proceed⟩,
          ⟨true, .notify none⟩, ⟨true, .proceed⟩] ++ start ++ [⟨false, .proceed⟩]) = some c ∧
      Looping true 1 (enter (-1)) .checkAlert c ∧ Calm c :=
  ⟨_, rfl, ⟨rfl, rfl, rfl, by rintro thrown ⟨⟩⟩, calm_iff.mpr ⟨rfl, rfl⟩⟩

end Disruptor.BatchEventProcessor.Lifecycle
