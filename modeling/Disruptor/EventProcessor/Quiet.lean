import Disruptor.EventProcessor.RunCall

/-!
# Handlers that throw nothing

While no call of the handler throws, no exception is handled, and what a processor has dealt with
it has processed.
-/

namespace Disruptor.BatchEventProcessor

variable {ι : Type*}

/-- A call of the handler throws. -/
def Input.Throws : Input → Prop
  | .onBatchStart thrown | .onEvent thrown | .onTimeout thrown => thrown ≠ none
  | _ => False

/-- No exception of a handler is on its way. -/
def Pc.Quiet : Pc → Prop
  | .attemptRewind _ | .onTimeoutFailed _ | .handleEventException | .failed => False
  | _ => True

/-- The call is not one that reports an exception, or that threw one. -/
def Call.Quiet : Call → Prop
  | .onEvent _ _ _ thrown => thrown = none
  | .handleEventException _ _ | .handleRewindException _ _ => False
  | _ => True

/-- The same of a processor and of all the calls that it has made. -/
structure RunPc.Quiet (f : Fields) (pc : RunPc ι) : Prop where
  pc_quiet : ∀ s call, pc = .processEvents s call → s.pc.Quiet
  calls_quiet : ∀ c ∈ f.calls, c.Quiet

variable {p : BatchEventProcessor} {b : Barrier ι} {view : WaitView ι} {f f' : Fields}
  {pc pc' : RunPc ι} {a : RunAction} {s s' : State} {i : Input} {calls : List Call}

/-- What was dealt with without an exception was processed. -/
lemma DealtWith.processed {sequence : Int} (h : DealtWith calls sequence)
    (hquiet : ∀ c ∈ calls, c.Quiet) :
    ∃ endOfBatch start, .onEvent sequence endOfBatch start none ∈ calls := by
  obtain ⟨c, hc, hd⟩ := h
  have hq := hquiet c hc
  cases c with
  | onEvent t endOfBatch start thrown =>
    obtain rfl : thrown = none := hq
    obtain rfl : t = sequence := hd
    exact ⟨endOfBatch, start, hc⟩
  | handleEventException t event => cases hq
  | handleRewindException attempts answer => cases hd
  | onBatchStart size depth => cases hd
  | onTimeout t => cases hd

lemma State.nextEvent_quiet (s : State) (start endOfBatch : Int) :
    (s.nextEvent start endOfBatch).pc.Quiet := by
  unfold State.nextEvent
  split_ifs <;> trivial

lemma State.available_quiet (h : s.pc.Quiet) (availableSequence : Int) :
    (s.available p availableSequence).pc.Quiet := by
  unfold State.available
  dsimp only
  split_ifs
  · exact h
  · trivial
  · exact State.nextEvent_quiet _ _ _

/-- A step in which no handler throws. -/
lemma step_quiet (h : s.pc.Quiet) (hthrows : ¬ i.Throws)
    (hwait : ∀ e, i = .waitFor (.error e) → e = .TimeoutException ∨ e = .AlertException)
    (hs : p.step s i = some s') : s'.pc.Quiet ∧ ∀ c, call s i = some c → c.Quiet := by
  cases step_iff.mp hs with
  | available hpc => exact ⟨State.available_quiet h _, by rintro c ⟨⟩⟩
  | @waitForThrows e hpc =>
    refine ⟨?_, by rintro c ⟨⟩⟩
    rcases hwait e rfl with rfl | rfl
    · trivial
    · trivial
  | onBatchStart hpc | onEvent hpc =>
    refine ⟨State.nextEvent_quiet _ _ _, ?_⟩
    intro c hc
    simp only [call, hpc] at hc
    obtain rfl := Option.some.inj hc
    simp [Call.Quiet]
  | onTimeout hpc =>
    refine ⟨trivial, ?_⟩
    intro c hc
    simp only [call, hpc] at hc
    obtain rfl := Option.some.inj hc
    trivial
  | onBatchStartThrows hpc | onEventThrows hpc | onTimeoutThrows hpc | onTimeoutEscapes hpc =>
    exact absurd (by simp [Input.Throws]) hthrows
  | rewinds hpc | rethrows hpc | strategyThrows hpc | timeoutHandled hpc | handled hpc | skip hpc =>
    rw [hpc] at h
    cases h
  | endOfBatch hpc => exact ⟨trivial, by rintro c ⟨⟩⟩
  | checkRunning hpc =>
    refine ⟨?_, by rintro c ⟨⟩⟩
    show Pc.Quiet (if _ then _ else _)
    split_ifs <;> trivial
  | halt => exact ⟨h, by rintro c ⟨⟩⟩

lemma Fields.processEvents_quiet (hpc : s.pc.Quiet) (hcalls : ∀ c ∈ f.calls, c.Quiet)
    (hthrows : ¬ i.Throws)
    (hwait : ∀ e, i = .waitFor (.error e) → e = .TimeoutException ∨ e = .AlertException)
    (hs : f.processEvents (ι := ι) p s i = some (f', pc')) : pc'.Quiet f' := by
  simp only [Fields.processEvents, Option.map_eq_some_iff, Prod.mk.injEq] at hs
  obtain ⟨s', hstep, rfl, rfl⟩ := hs
  have hpc₁ : ({ s with running := f.running } : State).pc.Quiet := hpc
  obtain ⟨hquiet, hcall⟩ := step_quiet hpc₁ hthrows hwait hstep
  constructor
  · intro t wait heq
    split at heq
    · cases heq
    · obtain ⟨rfl, -⟩ := RunPc.processEvents.inj heq
      exact hquiet
  · intro c hc
    rcases List.mem_append.mp hc with hnew | hold
    · have hsome : call s i = some c := by simpa using hnew
      exact hcall c hsome
    · exact hcalls c hold

/-- A step of the thread of a processor in which no handler throws. -/
theorem runStep_quiet (h : pc.Quiet f) (hthrows : ∀ i, a = .input i → ¬ i.Throws)
    (hs : runStep p b view f pc a = some (f', pc')) : pc'.Quiet f' := by
  obtain ⟨hpc, hcalls⟩ := h
  unfold runStep at hs
  split at hs
  · split at hs <;> obtain ⟨rfl, rfl⟩ := Prod.mk.inj (Option.some.inj hs) <;>
      exact ⟨by rintro s call ⟨⟩, hcalls⟩
  · obtain ⟨rfl, rfl⟩ := Prod.mk.inj (Option.some.inj hs)
    exact ⟨by rintro s call ⟨⟩, hcalls⟩
  · obtain ⟨rfl, rfl⟩ := Prod.mk.inj (Option.some.inj hs)
    exact ⟨by rintro s call ⟨⟩, hcalls⟩
  · split_ifs at hs
    · obtain ⟨rfl, rfl⟩ := Prod.mk.inj (Option.some.inj hs)
      refine ⟨?_, hcalls⟩
      rintro s call ⟨⟩
      trivial
    · obtain ⟨rfl, rfl⟩ := Prod.mk.inj (Option.some.inj hs)
      exact ⟨by rintro s call ⟨⟩, hcalls⟩
  · rename_i s call choice
    split_ifs at hs
    split at hs
    · obtain ⟨rfl, rfl⟩ := Prod.mk.inj (Option.some.inj hs)
      refine ⟨?_, hcalls⟩
      rintro t wait ⟨⟩
      exact hpc _ _ rfl
    · rename_i answer hstep
      refine Fields.processEvents_quiet (hpc _ _ rfl) hcalls (by rintro ⟨⟩) ?_ hs
      rintro e heq
      obtain rfl := Input.waitFor.inj heq
      exact waitCall_error hstep
    · cases hs
  · rename_i s call i
    split_ifs at hs with hown
    refine Fields.processEvents_quiet (hpc _ _ rfl) hcalls (hthrows i rfl) ?_ hs
    rintro e rfl
    cases hown
  · obtain ⟨rfl, rfl⟩ := Prod.mk.inj (Option.some.inj hs)
    exact ⟨by rintro s call ⟨⟩, hcalls⟩
  · obtain ⟨rfl, rfl⟩ := Prod.mk.inj (Option.some.inj hs)
    exact ⟨by rintro s call ⟨⟩, hcalls⟩
  · obtain ⟨rfl, rfl⟩ := Prod.mk.inj (Option.some.inj hs)
    exact ⟨by rintro s call ⟨⟩, hcalls⟩
  · obtain ⟨rfl, rfl⟩ := Prod.mk.inj (Option.some.inj hs)
    exact ⟨by rintro s call ⟨⟩, hcalls⟩
  · cases hs

end Disruptor.BatchEventProcessor
