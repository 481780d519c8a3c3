import Disruptor.Dsl.Building

/-!
# What holds while a `Disruptor` runs

The proof outline of the system: no claim laps a gating sequence, nothing that is published is
ahead of the cursor, and every consumer has moved from where it was when `start()` was called to
what its barrier has allowed, over sequences that it has dealt with.
-/

namespace Disruptor.Dsl

open Disruptor.Core BatchEventProcessor

variable {H X P : Type}

/-- What every shared state satisfies. -/
structure Shared.Inv (s : Shared H X) : Prop where
  consistent : s.sequencer.Consistent s.values
  published_le : ∀ range ∈ s.published, range.2 ≤ s.sequencer.getCursor
  spawned : s.disruptor.started = false → s.spawned = []
  attached : s.disruptor.started = false → ∀ i, s.values i ≤ s.disruptor.attachedAt i
  start_attached : s.disruptor.started = true → ∀ i, s.startValues i ≤ s.disruptor.attachedAt i
  /-- The barrier of a processor is made of what its handler was declared to follow. -/
  wired : ∀ k, s.declared (.created k) = s.disruptor.dependentSequences (.created k)

/-- What does not change after `start()`: sequences only advance. -/
structure Shared.Runs (s s' : Shared H X) : Prop where
  started : s'.disruptor.started = true
  consumerRepository : s'.disruptor.consumerRepository = s.disruptor.consumerRepository
  dependentSequences : s'.disruptor.dependentSequences = s.disruptor.dependentSequences
  attachedAt : s'.disruptor.attachedAt = s.disruptor.attachedAt
  startValues : s'.startValues = s.startValues
  values : ∀ i, s.values i ≤ s'.values i
  moves : s.sequencer.Moves s'.sequencer

/-- What a producer knows. -/
def Client.Holds (s : Shared H X) : Client X → Prop
  | .idle => True
  | .claiming call => call.Holds s.sequencer s.values
  | .translating lo hi | .publishing lo hi => lo ≤ hi ∧ s.sequencer.Claimed hi

/-- What the main thread knows. -/
def MainPc.Holds (s : Shared H X) : MainPc X → Prop
  | .client c => c.Holds s
  | .starting _ => s.disruptor.started = true
  | _ => True

/-- What the thread of the `k`-th processor knows. -/
structure ProcessorHolds (waitStrategy : WaitStrategy) (s : Shared H X) (k : Nat)
    (pc : RunPc (ProcessorId X)) : Prop where
  reached : (s.disruptor.processors k).Reached (s.startValues (.created k))
    (Allowed (s.barrier waitStrategy k) s.values)
  knows : pc.Knows (s.barrier waitStrategy k) s.values (s.startValues (.created k))
    (s.disruptor.processors k)

/-- A processor of the user's own is where it was at the start, or behind its barrier. -/
structure CustomHolds (s : Shared H X) (x : X) : Prop where
  start_le : s.startValues (.custom x) ≤ s.disruptor.customs x
  allowed : s.disruptor.customs x = s.startValues (.custom x) ∨
    ∀ i ∈ s.disruptor.dependentSequences (.custom x), s.disruptor.customs x ≤ s.values i

/-- What a thread knows. -/
def Holds (waitStrategy : WaitStrategy) : ∀ t : Thread P X, Local X t → Shared H X → Prop
  | .main, l, s => MainPc.Holds s (Main.pc l)
  | .producer _, c, s =>
    c = Client.idle ∨
      s.disruptor.started = true ∧ (∃ m, s.sequencer = .multi m) ∧ Client.Holds s c
  | .processor k, pc, s =>
    (s.disruptor.started = false → pc = RunPc.enterRun) ∧
      (s.disruptor.started = true → ProcessorHolds waitStrategy s k pc)
  | .custom x, _, s => s.disruptor.started = true → CustomHolds s x

/-- What a thread relies on when another thread moves. -/
def Rely : Thread P X → Shared H X → Shared H X → Prop
  | .main, s, s' => s.disruptor.started = true ∧ s.Runs s' ∧
    ∀ q, s.sequencer = .single q → s'.sequencer = s.sequencer
  | .producer _, s, s' => s.disruptor.started = true → s.Runs s'
  | .processor k, s, s' =>
    (s'.disruptor.processors k).calls = (s.disruptor.processors k).calls ∧
    (s.disruptor.started = false → s'.disruptor.started = true →
      s'.startValues = s'.values) ∧
    (s.disruptor.started = true → s.Runs s' ∧
      (s'.disruptor.processors k).sequence = (s.disruptor.processors k).sequence)
  | .custom x, s, s' =>
    (s.disruptor.started = false → s'.disruptor.started = true →
      s'.startValues = s'.values) ∧
    (s.disruptor.started = true → s.Runs s' ∧ s'.disruptor.customs x = s.disruptor.customs x)

variable {s s' : Shared H X}

/-! ### Stability -/

lemma Shared.Runs.refl (h : s.disruptor.started = true) : s.Runs s :=
  ⟨h, rfl, rfl, rfl, rfl, fun _ => le_rfl, Sequencer.Moves.refl _⟩

lemma Client.Holds.mono {c : Client X} (h : c.Holds s) (hruns : s.Runs s')
    (hsingle : ∀ q, s.sequencer = .single q → s'.sequencer = s.sequencer) : c.Holds s' := by
  cases c with
  | idle => trivial
  | claiming call => exact Sequencer.ClaimCall.Holds.mono h hruns.moves hsingle hruns.values
  | translating lo hi | publishing lo hi => exact ⟨h.1, h.2.mono hruns.moves hsingle⟩

lemma ProcessorHolds.mono {waitStrategy : WaitStrategy} {k : Nat} {pc : RunPc (ProcessorId X)}
    (h : ProcessorHolds waitStrategy s k pc) (hruns : s.Runs s')
    (hsequence : (s'.disruptor.processors k).sequence = (s.disruptor.processors k).sequence)
    (hcalls : (s'.disruptor.processors k).calls = (s.disruptor.processors k).calls) :
    ProcessorHolds waitStrategy s' k pc := by
  have hbarrier : s'.barrier waitStrategy k = s.barrier waitStrategy k := by
    simp only [Shared.barrier, hruns.dependentSequences]
  constructor
  · rw [hbarrier, hruns.startValues]
    exact (h.reached.mono fun i _ => hruns.values i).of_eq hsequence hcalls
  · rw [hbarrier, hruns.startValues]
    exact (h.knows.mono fun i _ => hruns.values i).of_eq hsequence hcalls

/-- Where `start()` finds the processor. -/
lemma ProcessorHolds.atStart (waitStrategy : WaitStrategy) (k : Nat)
    (hstart : s.startValues = s.values) :
    ProcessorHolds waitStrategy s k RunPc.enterRun := by
  have hsequence : (s.disruptor.processors k).sequence = s.startValues (.created k) := by
    rw [hstart]
    rfl
  refine ⟨⟨hsequence.ge, Or.inl hsequence, ?_⟩, hsequence⟩
  intro t ht ht'
  omega

lemma CustomHolds.mono {x : X} (h : CustomHolds s x) (hruns : s.Runs s')
    (hcustom : s'.disruptor.customs x = s.disruptor.customs x) : CustomHolds s' x := by
  constructor
  · rw [hcustom, hruns.startValues]
    exact h.start_le
  · rw [hcustom, hruns.startValues, hruns.dependentSequences]
    exact h.allowed.imp_right fun hall i hi => (hall i hi).trans (hruns.values i)

lemma CustomHolds.atStart (x : X) (hstart : s.startValues = s.values) : CustomHolds s x := by
  have hcustom : s.disruptor.customs x = s.startValues (.custom x) := by
    rw [hstart]
    rfl
  exact ⟨hcustom.ge, Or.inl hcustom⟩

/-- What a thread knows survives the steps of the others. -/
lemma Holds.stable {waitStrategy : WaitStrategy} {t : Thread P X} {l : Local X t}
    (h : Holds waitStrategy t l s) (hrely : Rely t s s') : Holds waitStrategy t l s' := by
  cases t with
  | main =>
    obtain ⟨-, hruns, hsingle⟩ := hrely
    show MainPc.Holds s' (Main.pc l)
    have hmain : MainPc.Holds s (Main.pc l) := h
    revert hmain
    cases Main.pc l with
    | client c => exact fun hc => Client.Holds.mono hc hruns hsingle
    | starting rest => exact fun _ => hruns.started
    | _ => exact fun _ => trivial
  | producer p =>
    rcases h with hidle | ⟨hstarted, ⟨m, hm⟩, hholds⟩
    · exact Or.inl hidle
    · have hruns := hrely hstarted
      obtain ⟨m', hm'⟩ := hruns.moves.multi m hm
      refine Or.inr ⟨hruns.started, ⟨m', hm'⟩, hholds.mono hruns ?_⟩
      intro q hq
      rw [hm] at hq
      cases hq
  | processor k =>
    obtain ⟨hbefore, hafter⟩ := h
    obtain ⟨hcalls, hstart, hruns⟩ := hrely
    cases hstarted : s.disruptor.started with
    | false =>
      refine ⟨fun _ => hbefore hstarted, ?_⟩
      intro hstarted'
      rw [hbefore hstarted]
      exact ProcessorHolds.atStart waitStrategy k (hstart hstarted hstarted')
    | true =>
      obtain ⟨hr, hsequence⟩ := hruns hstarted
      refine ⟨?_, fun _ => (hafter hstarted).mono hr hsequence hcalls⟩
      intro hstarted'
      rw [hr.started] at hstarted'
      cases hstarted'
  | custom x =>
    obtain ⟨hstart, hruns⟩ := hrely
    intro hstarted'
    cases hstarted : s.disruptor.started with
    | false => exact CustomHolds.atStart x (hstart hstarted hstarted')
    | true =>
      obtain ⟨hr, hcustom⟩ := hruns hstarted
      exact CustomHolds.mono (h hstarted) hr hcustom

end Disruptor.Dsl
