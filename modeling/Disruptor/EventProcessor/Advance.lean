import Disruptor.Barrier.Return
import Disruptor.EventProcessor.Quiet
import Mathlib.Logic.Relation

/-!
# A processor gets on

While nothing throws and nobody alerts its barrier, the thread of a processor goes round the loop of
`processEvents`. Once what it waits for is there, steps of its own move its sequence forward,
wherever the thread is.
-/

namespace Disruptor

namespace WaitCall

variable {ι : Type*} {b : Barrier ι} {view view' : WaitView ι} {sequence : Int}
  {c c' : WaitCall ι} {choice : WaitChoice}

lemma Placed.of_available (h : c.Placed view sequence)
    (hflags : view'.available.isSome = view.available.isSome) : c.Placed view' sequence := by
  cases c with
  | readFlag a s => exact ⟨hflags.trans h.1, h.2⟩
  | _ => trivial

lemma placed_dependent (strategy : WaitStrategy) : (dependent b strategy).Placed view sequence := by
  unfold dependent
  split_ifs <;> trivial

lemma placed_enter (strategy : WaitStrategy) : (enter b strategy).Placed view sequence := by
  unfold enter
  split_ifs
  · trivial
  · exact placed_dependent strategy

lemma found_placed {strategy : WaitStrategy} {a : Int}
    (hs : found view sequence strategy a = .inl c') : c'.Placed view sequence := by
  unfold found at hs
  split_ifs at hs with hlt
  · obtain rfl := Sum.inl.inj hs
    trivial
  · split at hs
    · cases hs
    · rename_i havailable
      obtain rfl := Sum.inl.inj hs
      exact ⟨by simp [havailable], not_lt.mp hlt, le_rfl⟩

/-- A call that goes on is at such a place again. -/
lemma step_placed (h : c.Placed view sequence)
    (hs : c.step b view sequence choice = some (.inl c')) : c'.Placed view sequence := by
  unfold step at hs
  split at hs
  · split_ifs at hs
    · cases hs
    · obtain rfl := Sum.inl.inj (Option.some.inj hs)
      exact placed_enter _
  · split_ifs at hs
    · obtain rfl := Sum.inl.inj (Option.some.inj hs)
      trivial
    · obtain rfl := Sum.inl.inj (Option.some.inj hs)
      exact placed_dependent _
  · split_ifs at hs
    · cases hs
    · obtain rfl := Sum.inl.inj (Option.some.inj hs)
      trivial
  · obtain rfl := Sum.inl.inj (Option.some.inj hs)
    trivial
  · split_ifs at hs
    cases hs
  · exact found_placed (Option.some.inj hs)
  · exact found_placed (Option.some.inj hs)
  · obtain rfl := Sum.inl.inj (Option.some.inj hs)
    trivial
  · split_ifs at hs
    · cases hs
    · obtain rfl := Sum.inl.inj (Option.some.inj hs)
      exact placed_dependent _
  · obtain rfl := Sum.inl.inj (Option.some.inj hs)
    exact placed_enter _
  · obtain ⟨hsome, ha, hle⟩ := h
    split at hs
    · cases hs
    · split_ifs at hs with hmore hset
      · obtain rfl := Sum.inl.inj (Option.some.inj hs)
        exact ⟨hsome, ha, by omega⟩
      · cases hs
      · cases hs
  · cases hs

end WaitCall

namespace BatchEventProcessor

variable {ι : Type*} {p : BatchEventProcessor} {b : Barrier ι} {view view' : WaitView ι}
  {f f' : Fields} {pc pc' : RunPc ι} {a : RunAction} {s s' : State} {i : Input}

/-! ### Going round the loop -/

/-- What `processEvents` has in hand at each of its places while nothing throws: a batch starts
after `sequence_`, and there is always something in it. -/
def State.TurnsAt (s : State) : Pc → Prop
  | .waitFor | .onTimeout => s.nextSequence = s.sequence + 1
  | .onBatchStart _ endOfBatch _ =>
    s.nextSequence = s.sequence + 1 ∧ s.nextSequence ≤ endOfBatch
  | .onEvent _ endOfBatch => s.sequence < s.nextSequence ∧ s.nextSequence ≤ endOfBatch
  | .endOfBatch endOfBatch => s.nextSequence = endOfBatch + 1 ∧ s.sequence < endOfBatch
  | _ => False

def State.Turns (s : State) : Prop := s.TurnsAt s.pc

/-- The thread is on its way into the loop, or goes round it. -/
def RunPc.Turns (view : WaitView ι) (f : Fields) : RunPc ι → Prop
  | .enterRun => f.running = .IDLE ∧ f.alerted = false
  | .clearAlert | .notifyStart | .checkRunning => f.running = .RUNNING ∧ f.alerted = false
  | .processEvents s call =>
    f.running = .RUNNING ∧ f.alerted = false ∧ s.Turns ∧ call.Placed view s.nextSequence
  | _ => False

/-- Of the fields only `running_` and the alert matter, and of the flags only whether there are
any. -/
lemma RunPc.Turns.of_fields (h : pc.Turns view f) (hrunning : f'.running = f.running)
    (halerted : f'.alerted = f.alerted)
    (hflags : view'.available.isSome = view.available.isSome) : pc.Turns view' f' := by
  cases pc with
  | processEvents s call =>
    obtain ⟨hrun, halert, hturns, hcall⟩ := h
    exact ⟨hrunning.trans hrun, halerted.trans halert, hturns, hcall.of_available hflags⟩
  | enterRun | clearAlert | notifyStart | checkRunning =>
    exact ⟨hrunning.trans h.1, halerted.trans h.2⟩
  | _ => exact h.elim

lemma State.Turns.not_exited (h : s.Turns) (thrown : Bool) : s.pc ≠ .exited thrown := by
  intro hpc
  rw [State.Turns, hpc] at h
  exact h

/-- The inner loop goes on or ends. -/
lemma State.nextEvent_turns {start endOfBatch : Int} (hlt : s.sequence < s.nextSequence)
    (hle : s.nextSequence ≤ endOfBatch + 1) (hend : s.sequence < endOfBatch) :
    (s.nextEvent start endOfBatch).Turns := by
  unfold State.nextEvent
  split_ifs with hmore
  · exact ⟨hlt, hmore⟩
  · have hover : s.nextSequence = endOfBatch + 1 := by omega
    exact ⟨hover, hend⟩

lemma State.available_turns (hpc : s.pc = .waitFor) (h : s.nextSequence = s.sequence + 1)
    (available : Int) : (s.available p available).Turns := by
  have hoffset := p.batchLimitOffset_nonneg
  unfold State.available
  dsimp only
  split_ifs with hbelow hsome
  · rw [State.Turns, hpc]
    exact h
  · exact ⟨h, hsome⟩
  · omega

/-- A step of `processEvents` in which nothing throws and no alert is found. -/
lemma step_turns (h : s.Turns) (hown : i ≠ .halt) (hthrows : ¬ i.Throws)
    (hwait : ∀ e, i = .waitFor (.error e) → e = .TimeoutException)
    (hs : p.step s i = some s') : s'.Turns ∧ s'.running = s.running ∧ i.alerts = false := by
  have hat : s.TurnsAt s.pc := h
  cases step_iff.mp hs with
  | available hpc =>
    rw [hpc] at hat
    exact ⟨State.available_turns hpc hat _, by simp, rfl⟩
  | @waitForThrows e hpc =>
    obtain rfl := hwait e rfl
    rw [hpc] at hat
    exact ⟨hat, rfl, rfl⟩
  | onBatchStart hpc =>
    rw [hpc] at hat
    obtain ⟨hnext, hle⟩ := hat
    exact ⟨State.nextEvent_turns (by omega) (by omega) (by omega), by simp, rfl⟩
  | onEvent hpc =>
    rw [hpc] at hat
    obtain ⟨hlt, hle⟩ := hat
    refine ⟨State.nextEvent_turns ?_ ?_ ?_, by simp, rfl⟩ <;> simp only <;> omega
  | endOfBatch hpc =>
    rw [hpc] at hat
    exact ⟨hat.1, rfl, rfl⟩
  | onTimeout hpc =>
    rw [hpc] at hat
    exact ⟨hat, rfl, rfl⟩
  | onBatchStartThrows hpc | onEventThrows hpc | onTimeoutThrows hpc | onTimeoutEscapes hpc =>
    exact absurd (by simp [Input.Throws]) hthrows
  | rewinds hpc | rethrows hpc | strategyThrows hpc | timeoutHandled hpc | handled hpc
  | checkRunning hpc | skip hpc =>
    rw [hpc] at hat
    exact hat.elim
  | halt => exact absurd rfl hown

lemma Fields.processEvents_turns (h : s.Turns) (hrunning : f.running = .RUNNING)
    (halerted : f.alerted = false) (hown : i ≠ .halt) (hthrows : ¬ i.Throws)
    (hwait : ∀ e, i = .waitFor (.error e) → e = .TimeoutException)
    (hs : f.processEvents (ι := ι) p s i = some (f', pc')) : pc'.Turns view f' := by
  simp only [Fields.processEvents, Option.map_eq_some_iff, Prod.mk.injEq] at hs
  obtain ⟨s', hstep, rfl, rfl⟩ := hs
  have hturns : ({ s with running := f.running } : State).Turns := by
    rw [State.Turns] at h ⊢
    revert h
    cases s.pc <;> exact id
  obtain ⟨hturns', hrun, halerts⟩ := step_turns hturns hown hthrows hwait hstep
  split
  · rename_i thrown hpc
    exact absurd hpc (hturns'.not_exited thrown)
  · exact ⟨hrun.trans hrunning, by simp [halerted, halerts], hturns', trivial⟩

/-- While nothing throws and nobody halts it, the thread of a processor goes round its loop. -/
theorem runStep_turns (h : pc.Turns view f) (hview : view.alerted = f.alerted)
    (hthrows : ∀ i, a = .input i → ¬ i.Throws)
    (hs : runStep p b view f pc a = some (f', pc')) : pc'.Turns view f' := by
  unfold runStep at hs
  split at hs
  · obtain ⟨hrunning, halerted⟩ := h
    simp only [hrunning] at hs
    obtain ⟨rfl, rfl⟩ := Prod.mk.inj (Option.some.inj hs)
    exact ⟨rfl, halerted⟩
  · obtain ⟨rfl, rfl⟩ := Prod.mk.inj (Option.some.inj hs)
    exact ⟨h.1, rfl⟩
  · obtain ⟨rfl, rfl⟩ := Prod.mk.inj (Option.some.inj hs)
    exact h
  · obtain ⟨hrunning, halerted⟩ := h
    rw [if_pos hrunning] at hs
    obtain ⟨rfl, rfl⟩ := Prod.mk.inj (Option.some.inj hs)
    exact ⟨hrunning, halerted, rfl, trivial⟩
  · rename_i s call choice
    obtain ⟨hrunning, halerted, hturns, hcall⟩ := h
    split_ifs at hs
    split at hs
    · rename_i call' hstep
      obtain ⟨rfl, rfl⟩ := Prod.mk.inj (Option.some.inj hs)
      exact ⟨hrunning, halerted, hturns, WaitCall.step_placed hcall hstep⟩
    · rename_i answer hstep
      refine Fields.processEvents_turns hturns hrunning halerted (by simp) (by simp [Input.Throws])
        ?_ hs
      intro e heq
      obtain rfl := Input.waitFor.inj heq
      rcases WaitCall.step_error hstep with rfl | ⟨-, hset⟩
      · rfl
      · simp [hview, halerted] at hset
    · cases hs
  · rename_i s call i
    obtain ⟨hrunning, halerted, hturns, -⟩ := h
    split_ifs at hs with hown
    refine Fields.processEvents_turns hturns hrunning halerted ?_ (hthrows i rfl) ?_ hs
    · rintro rfl
      cases hown
    · rintro e rfl
      cases hown
  all_goals first
    | cases hs; done
    | exact h.elim

/-! ### Its own steps -/

/-- A step of the thread in which nothing throws, where `views` is what its barrier reads. -/
def Goes (p : BatchEventProcessor) (b : Barrier ι) (views : Fields → WaitView ι)
    (x y : Fields × RunPc ι) : Prop :=
  ∃ a, (∀ i, a = .input i → ¬ i.Throws) ∧ runStep p b (views x.1) x.1 x.2 a = some y

open Relation

variable {views : Fields → WaitView ι} {wait : WaitCall ι} {start endOfBatch available : Int}

/-- Another thread's `halt()` does not show here. -/
lemma State.Turns.running (h : s.Turns) (r : Running) :
    ({ s with running := r } : State).Turns := by
  rw [State.Turns] at h ⊢
  revert h
  cases s.pc <;> exact id

lemma State.Turns.processEvents (h : s.Turns) (f : Fields) (hown : i ≠ .halt)
    (hthrows : ¬ i.Throws) (hwait : ∀ e, i = .waitFor (.error e) → e = .TimeoutException)
    (hstep : p.step { s with running := f.running } i = some s') :
    s'.Turns ∧ ∃ f', f.processEvents (ι := ι) p s i = some (f', .processEvents s' .checkAlert) ∧
      f'.sequence = s'.sequence ∧ f'.alerted = f.alerted := by
  obtain ⟨hturns, -, halerts⟩ := step_turns (h.running f.running) hown hthrows hwait hstep
  refine ⟨hturns, ⟨s'.running, f.alerted || i.alerts, s'.sequence, (call s i).toList ++ f.calls⟩,
    ?_, rfl, by simp [halerts]⟩
  simp only [Fields.processEvents, hstep, Option.map_some]
  split
  · rename_i thrown hpc
    exact absurd hpc (hturns.not_exited thrown)
  · rfl

/-- A step of `processEvents` that is not one of the barrier. -/
lemma State.Turns.goes (h : s.Turns) (f : Fields) (wait : WaitCall ι) (b : Barrier ι)
    (views : Fields → WaitView ι) (hown : i.isOwn = true) (hthrows : ¬ i.Throws)
    (hstep : p.step { s with running := f.running } i = some s') :
    s'.Turns ∧ ∃ f', Goes p b views (f, .processEvents s wait)
      (f', .processEvents s' .checkAlert) ∧ f'.sequence = s'.sequence ∧
        f'.alerted = f.alerted := by
  obtain ⟨hturns, f', hs, hfields⟩ := h.processEvents (ι := ι) f (by rintro rfl; cases hown)
    hthrows (by rintro e rfl; cases hown) hstep
  refine ⟨hturns, f', ⟨.input i, ?_, by simpa [runStep, hown] using hs⟩, hfields⟩
  rintro j ⟨⟩
  exact hthrows

/-- From here steps of the thread move `sequence_` to the end of a batch. -/
def Ends (p : BatchEventProcessor) (b : Barrier ι) (views : Fields → WaitView ι)
    (x : Fields × RunPc ι) (endOfBatch : Int) : Prop :=
  ∃ f s, ReflTransGen (Goes p b views) x (f, .processEvents s .checkAlert) ∧
    f.sequence = endOfBatch

lemma Ends.head {x y : Fields × RunPc ι} (hgoes : Goes p b views x y)
    (h : Ends p b views y endOfBatch) : Ends p b views x endOfBatch := by
  obtain ⟨f, s, hreach, hsequence⟩ := h
  exact ⟨f, s, .head hgoes hreach, hsequence⟩

/-- The events of a batch are handed out, and its end is stored. -/
lemma State.Turns.ends_endOfBatch (h : s.Turns) (hpc : s.pc = .endOfBatch endOfBatch) :
    Ends p b views (f, .processEvents s wait) endOfBatch := by
  have hstep : p.step { s with running := f.running } .endOfBatch =
      some { s with
        running := f.running, retriesAttempted := 0, sequence := endOfBatch, pc := .waitFor } := by
    simp [step, hpc]
  obtain ⟨-, f', hgoes, hsequence, -⟩ := h.goes f wait b views rfl id hstep
  exact ⟨f', _, ReflTransGen.single hgoes, hsequence⟩

lemma State.Turns.ends_onEvent (h : s.Turns) (hpc : s.pc = .onEvent start endOfBatch) :
    Ends p b views (f, .processEvents s wait) endOfBatch := by
  induction hn : (endOfBatch - s.nextSequence).toNat using Nat.strongRecOn
    generalizing f s wait with
  | ind n ih =>
    have hstep : p.step { s with running := f.running } (.onEvent none) =
        some ({ s with
          running := f.running, event := some s.nextSequence,
          nextSequence := s.nextSequence + 1 }.nextEvent start endOfBatch) := by
      simp [step, hpc]
    obtain ⟨hturns, f', hgoes, -⟩ := h.goes f wait b views rfl (by simp [Input.Throws]) hstep
    refine .head hgoes ?_
    by_cases hmore : s.nextSequence + 1 ≤ endOfBatch
    · refine ih _ ?_ hturns (by simp [State.nextEvent, hmore]) rfl
      simp only [State.nextEvent_nextSequence]
      omega
    · exact hturns.ends_endOfBatch (by simp [State.nextEvent, hmore])

lemma State.Turns.ends_onBatchStart (h : s.Turns)
    (hpc : s.pc = .onBatchStart start endOfBatch available) :
    Ends p b views (f, .processEvents s wait) endOfBatch := by
  have hstep : p.step { s with running := f.running } (.onBatchStart none) =
      some ({ s with running := f.running }.nextEvent start endOfBatch) := by
    simp [step, hpc]
  obtain ⟨hturns, f', hgoes, -⟩ := h.goes f wait b views rfl (by simp [Input.Throws]) hstep
  refine .head hgoes ?_
  obtain ⟨-, hle⟩ : s.TurnsAt (.onBatchStart start endOfBatch available) := hpc ▸ h
  have hpc' : ({ s with running := f.running }.nextEvent start endOfBatch).pc =
      .onEvent start endOfBatch := by
    simp [State.nextEvent, hle]
  exact hturns.ends_onEvent hpc'

/-- The barrier answers, and the batch that it allows is handed out. -/
lemma State.Turns.ends_waitFor (h : s.Turns) (hpc : s.pc = .waitFor)
    (hreturns : wait.Returns b (views f) s.nextSequence available)
    (hle : s.nextSequence ≤ available) :
    ∃ endOfBatch, s.sequence < endOfBatch ∧
      Ends p b views (f, .processEvents s wait) endOfBatch := by
  have hoffset := p.batchLimitOffset_nonneg
  have hnext : s.TurnsAt .waitFor := hpc ▸ h
  change s.nextSequence = s.sequence + 1 at hnext
  have hend : s.nextSequence ≤ min (s.nextSequence + p.batchLimitOffset) available :=
    le_min (by omega) hle
  refine ⟨_, lt_of_lt_of_le (by omega) hend, ?_⟩
  induction hreturns with
  | @done wait hs =>
    obtain ⟨s', hstep, hpc'⟩ : ∃ s', p.step { s with running := f.running }
        (.waitFor (.ok available)) = some s' ∧ s'.pc = .onBatchStart s.nextSequence
          (min (s.nextSequence + p.batchLimitOffset) available) available :=
      ⟨_, by simp [step, hpc, State.available, not_lt.mpr hle, hend]; rfl, rfl⟩
    obtain ⟨hturns, f', hs', -⟩ := h.processEvents (ι := ι) f (by simp) (by simp [Input.Throws])
      (by simp) hstep
    have hgoes : Goes p b views (f, .processEvents s wait)
        (f', .processEvents s' .checkAlert) := by
      refine ⟨.wait .proceed, by simp, ?_⟩
      simp only [runStep, hpc, if_true, hs]
      exact hs'
    exact .head hgoes (hturns.ends_onBatchStart hpc')
  | @go wait wait' hs _ ih =>
    have hgoes : Goes p b views (f, .processEvents s wait) (f, .processEvents s wait') := by
      refine ⟨.wait .proceed, by simp, ?_⟩
      simp only [runStep, hpc, if_true, hs]
    exact .head hgoes ih

/-- From wherever the thread is, once what it waits for is there, steps of its own move its
sequence forward. -/
theorem RunPc.Turns.advances {x : Fields × RunPc ι} (h : x.2.Turns (views x.1) x.1)
    (hsame : ∀ s wait, x.2 = .processEvents s wait → s.sequence = x.1.sequence)
    (hready : ∀ f : Fields, f.alerted = false →
      WaitCall.Ready b (views f) (x.1.sequence + 1)) :
    ∃ endOfBatch, x.1.sequence < endOfBatch ∧ Ends p b views x endOfBatch := by
  obtain ⟨f, pc⟩ := x
  simp only at h hsame hready ⊢
  have hwaitFor : ∀ (f' : Fields) s wait, f'.alerted = false → s.Turns → s.pc = .waitFor →
      s.sequence = f.sequence → wait.Placed (views f') s.nextSequence →
        ∃ e, f.sequence < e ∧ Ends p b views (f', .processEvents s wait) e := by
    intro f' s wait halerted hturns hpc hsequence hplaced
    have hnext : s.TurnsAt .waitFor := hpc ▸ hturns
    change s.nextSequence = s.sequence + 1 at hnext
    rw [hsequence] at hnext
    have hr := hready f' halerted
    rw [← hnext] at hr
    obtain ⟨available, hle, hreturns⟩ := hr.returns hplaced
    rw [← hsequence]
    exact hturns.ends_waitFor hpc hreturns hle
  -- the way into the loop
  have hcheck : ∀ f' : Fields, f'.running = .RUNNING → f'.alerted = false →
      f'.sequence = f.sequence → ∃ e, f.sequence < e ∧ Ends p b views (f', .checkRunning) e := by
    intro f' hrunning halerted hsequence
    have hgoes : Goes p b views (f', .checkRunning)
        (f', .processEvents (enter f'.sequence) .checkAlert) :=
      ⟨.proceed, by simp, by simp [runStep, hrunning]⟩
    obtain ⟨e, hlt, hends⟩ := hwaitFor f' (enter f'.sequence) .checkAlert halerted rfl rfl
      hsequence trivial
    exact ⟨e, hlt, .head hgoes hends⟩
  have hnotify : ∀ f' : Fields, f'.running = .RUNNING → f'.alerted = false →
      f'.sequence = f.sequence → ∃ e, f.sequence < e ∧ Ends p b views (f', .notifyStart) e := by
    intro f' hrunning halerted hsequence
    have hgoes : Goes p b views (f', .notifyStart) (f', .checkRunning) :=
      ⟨.proceed, by simp, rfl⟩
    obtain ⟨e, hlt, hends⟩ := hcheck f' hrunning halerted hsequence
    exact ⟨e, hlt, .head hgoes hends⟩
  have hclear : ∀ f' : Fields, f'.running = .RUNNING → f'.sequence = f.sequence →
      ∃ e, f.sequence < e ∧ Ends p b views (f', .clearAlert) e := by
    intro f' hrunning hsequence
    have hgoes : Goes p b views (f', .clearAlert) ({ f' with alerted := false }, .notifyStart) :=
      ⟨.proceed, by simp, rfl⟩
    obtain ⟨e, hlt, hends⟩ := hnotify { f' with alerted := false } hrunning rfl hsequence
    exact ⟨e, hlt, .head hgoes hends⟩
  cases pc with
  | enterRun =>
    have hgoes : Goes p b views (f, .enterRun) ({ f with running := .RUNNING }, .clearAlert) :=
      ⟨.proceed, by simp, by simp [runStep, h.1]⟩
    obtain ⟨e, hlt, hends⟩ := hclear { f with running := .RUNNING } rfl rfl
    exact ⟨e, hlt, .head hgoes hends⟩
  | clearAlert => exact hclear f h.1 rfl
  | notifyStart => exact hnotify f h.1 h.2 rfl
  | checkRunning => exact hcheck f h.1 h.2 rfl
  | processEvents s wait =>
    obtain ⟨hrunning, halerted, hturns, hplaced⟩ := h
    have hsequence := hsame s wait rfl
    have hat : s.TurnsAt s.pc := hturns
    cases hpc : s.pc with
    | waitFor => exact hwaitFor f s wait halerted hturns hpc hsequence hplaced
    | onBatchStart start endOfBatch available =>
      rw [hpc] at hat
      obtain ⟨hnext, hle⟩ := hat
      exact ⟨endOfBatch, by omega, hturns.ends_onBatchStart hpc⟩
    | onEvent start endOfBatch =>
      rw [hpc] at hat
      obtain ⟨hlt, hle⟩ := hat
      exact ⟨endOfBatch, by omega, hturns.ends_onEvent hpc⟩
    | endOfBatch endOfBatch =>
      rw [hpc] at hat
      exact ⟨endOfBatch, hsequence ▸ hat.2, hturns.ends_endOfBatch hpc⟩
    | onTimeout =>
      have hstep : p.step { s with running := f.running } (.onTimeout none) =
          some { s with running := f.running, pc := .waitFor } := by
        simp [step, hpc]
      obtain ⟨hturns', f', hgoes, -, halerted'⟩ := hturns.goes f wait b views rfl
        (by simp [Input.Throws]) hstep
      obtain ⟨e, hlt, hends⟩ := hwaitFor f' _ .checkAlert (halerted'.trans halerted) hturns' rfl
        hsequence trivial
      exact ⟨e, hlt, .head hgoes hends⟩
    | _ =>
      rw [hpc] at hat
      exact hat.elim
  | _ => exact h.elim

end BatchEventProcessor

end Disruptor
