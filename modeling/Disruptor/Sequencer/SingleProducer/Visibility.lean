import Disruptor.Core.Run
import Disruptor.Sequencer.SingleProducer.Basic

/-!
# What the cursor of a `SingleProducerSequencer` shows

A consumer takes the cursor for the highest published sequence. The producer may claim several
times before it publishes, and `next` and `tryNext` store the claimed position in the cursor
when the cached gating value is exhausted. The cursor stays at published sequences, and never
moves back, exactly as long as no such store happens while a claim is unpublished.
-/

namespace Disruptor.SingleProducerSequencer

open Disruptor.Core

variable {ι : Type*}

/-- The sequencer, the values of the gating sequences, and the highest sequence passed to
`publish` so far. -/
structure Publication (ι : Type*) where
  sequencer : SingleProducerSequencer ι
  values : ι → Int
  published : Int := INITIAL_VALUE

/-- A complete operation of the producer, or a move of the gating sequences. -/
inductive Operation (ι : Type*) where
  | next (n : Int) (passes : List (ι → Int))
  | tryNext (n : Int)
  | hasAvailableCapacity (n : Int)
  | remainingCapacity
  | publish (sequence : Int)
  | publishRange (lo hi : Int)
  | advance (values : ι → Int)

namespace Publication

/-- Publish up to `hi`, through either overload: a claimed sequence above the published ones. -/
def publishWith (p : Publication ι) (hi : Int) (sequencer : SingleProducerSequencer ι) :
    Option (Publication ι) :=
  if p.published < hi ∧ hi ≤ p.sequencer.nextValue then
    some { p with sequencer := sequencer, published := hi }
  else none

/-- One complete operation. -/
def step (p : Publication ι) : Operation ι → Option (Publication ι)
  | .next n passes =>
    (p.sequencer.next n p.values passes).map fun r =>
      { p with sequencer := r.2.2, values := r.2.1 }
  | .tryNext n => some { p with sequencer := (p.sequencer.tryNext n p.values).2 }
  | .hasAvailableCapacity n =>
    some { p with sequencer := (p.sequencer.hasAvailableCapacity n p.values).2 }
  | .remainingCapacity => some { p with sequencer := (p.sequencer.remainingCapacity p.values).2 }
  | .publish sequence => p.publishWith sequence (p.sequencer.publish sequence)
  | .publishRange lo hi => p.publishWith hi (p.sequencer.publishRange lo hi)
  | .advance values => some { p with values := values }

/-- A new sequencer over any gating list. -/
def initial (b : BufferSize) (g : Gating ι) (values : ι → Int) : Publication ι :=
  { sequencer := { bufferSize := b, gating := g }, values := values }

/-- The operation stores the claimed position in the cursor while a claim is unpublished. -/
def FencesUnpublished (p : Publication ι) : Operation ι → Prop
  | .next n _ =>
    1 ≤ n ∧ n ≤ p.sequencer.getBufferSize ∧ p.sequencer.CacheExhausted n ∧
      p.published ≠ p.sequencer.nextValue
  | .tryNext n =>
    1 ≤ n ∧ p.sequencer.CacheExhausted n ∧ p.published ≠ p.sequencer.nextValue
  | _ => False

/-- What the step shows: nothing unpublished, and no sequence that was shown disappears. -/
def CursorSound (x : Transition (Publication ι) (Operation ι)) : Prop :=
  x.post.sequencer.getCursor ≤ x.post.published ∧
    x.pre.sequencer.getCursor ≤ x.post.sequencer.getCursor

/-- The cursor shows published sequences only, and these were claimed. -/
structure Sound (p : Publication ι) : Prop where
  cursor_le : p.sequencer.cursor ≤ p.published
  published_le : p.published ≤ p.sequencer.nextValue

lemma sound_initial (b : BufferSize) (g : Gating ι) (values : ι → Int) :
    (initial b g values).Sound :=
  ⟨le_rfl, le_rfl⟩

variable {p p' : Publication ι} {a : Operation ι}

/-- The one store that matters: the fence of a claim. -/
private lemma sound_fenced (h : p.Sound) {n : Int}
    (hfence : p.sequencer.CacheExhausted n → p.published = p.sequencer.nextValue) :
    p.sequencer.cursor ≤ p.sequencer.fencedCursor n ∧
      p.sequencer.fencedCursor n ≤ p.published := by
  have hcursor := h.cursor_le
  have hpublished := h.published_le
  unfold fencedCursor
  split_ifs with hcache
  · have := hfence hcache
    omega
  · omega

/-- A step that fences nothing unpublished keeps the cursor at published sequences. -/
private lemma step_sound (h : p.Sound) (hs : p.step a = some p') (hc : ¬ p.FencesUnpublished a) :
    p'.Sound ∧ CursorSound ⟨p, a, p'⟩ := by
  have hcursor := h.cursor_le
  have hpublished := h.published_le
  cases a with
  | next n passes =>
    simp only [step, Option.map_eq_some_iff] at hs
    obtain ⟨⟨r, values', s'⟩, hnext, rfl⟩ := hs
    rcases next_cases hnext with ⟨-, -, rfl⟩ | ⟨hn, -, hv, hcur⟩
    · exact ⟨⟨hcursor, hpublished⟩, hcursor, le_rfl⟩
    · have hfence := sound_fenced h (n := n) fun hcache => by
        by_contra hne
        exact hc ⟨hn.1, hn.2, hcache, hne⟩
      refine ⟨⟨?_, ?_⟩, ?_, ?_⟩ <;> simp only [getCursor, hcur, hv] <;> omega
  | tryNext n =>
    simp only [step, Option.some.injEq] at hs
    subst hs
    rcases tryNext_cases p.sequencer n p.values with ⟨-, heq⟩ | ⟨hn, hv, hcur⟩
    · simp only [heq]
      exact ⟨⟨hcursor, hpublished⟩, hcursor, le_rfl⟩
    · have hfence := sound_fenced h (n := n) fun hcache => by
        by_contra hne
        exact hc ⟨hn, hcache, hne⟩
      refine ⟨⟨?_, ?_⟩, ?_, ?_⟩ <;> simp only [getCursor, hcur] <;> omega
  | hasAvailableCapacity n =>
    simp only [step, Option.some.injEq] at hs
    subst hs
    have hcur := p.sequencer.hasAvailableCapacityStoring_cursor n false p.values
    have hv := p.sequencer.hasAvailableCapacityStoring_nextValue n false p.values
    refine ⟨⟨?_, ?_⟩, ?_, ?_⟩ <;>
      simp only [getCursor, hasAvailableCapacity, hcur, hv, Bool.false_eq_true, if_false] <;> omega
  | remainingCapacity =>
    simp only [step, Option.some.injEq] at hs
    subst hs
    exact ⟨⟨hcursor, hpublished⟩, hcursor, le_rfl⟩
  | publish sequence =>
    simp only [step, publishWith, Option.ite_none_right_eq_some, Option.some.injEq] at hs
    obtain ⟨hlt, rfl⟩ := hs
    refine ⟨⟨le_rfl, hlt.2⟩, le_rfl, ?_⟩
    simp only [getCursor, SingleProducerSequencer.publish]
    omega
  | publishRange lo hi =>
    simp only [step, publishWith, Option.ite_none_right_eq_some, Option.some.injEq] at hs
    obtain ⟨hlt, rfl⟩ := hs
    refine ⟨⟨le_rfl, hlt.2⟩, le_rfl, ?_⟩
    simp only [getCursor, SingleProducerSequencer.publishRange, SingleProducerSequencer.publish]
    omega
  | advance values =>
    simp only [step, Option.some.injEq] at hs
    subst hs
    exact ⟨⟨hcursor, hpublished⟩, hcursor, le_rfl⟩

/-- A step that fences an unpublished claim shows it. -/
private lemma not_cursorSound_of_fences (h : p.Sound) (hs : p.step a = some p')
    (hc : p.FencesUnpublished a) : ¬ CursorSound ⟨p, a, p'⟩ := by
  have hpublished := h.published_le
  cases a with
  | next n passes =>
    obtain ⟨hn, hn', hcache, hne⟩ := hc
    simp only [step, Option.map_eq_some_iff] at hs
    obtain ⟨⟨r, values', s'⟩, hnext, rfl⟩ := hs
    rcases next_cases hnext with ⟨hbad, -⟩ | ⟨-, -, -, hcur⟩
    · omega
    · simp only [CursorSound, getCursor, hcur, fencedCursor, if_pos hcache]
      omega
  | tryNext n =>
    obtain ⟨hn, hcache, hne⟩ := hc
    simp only [step, Option.some.injEq] at hs
    subst hs
    rcases tryNext_cases p.sequencer n p.values with ⟨hbad, -⟩ | ⟨-, -, hcur⟩
    · omega
    · simp only [CursorSound, getCursor, hcur, fencedCursor, if_pos hcache]
      omega
  | _ => exact hc.elim

/-- In a run of complete operations the cursor never exceeds the published sequences and never
moves back, exactly when no `next` or `tryNext` finds the cached gating value exhausted while a
claimed sequence is unpublished. -/
theorem cursor_sound_iff (b : BufferSize) (g : Gating ι) (values : ι → Int)
    (operations : List (Operation ι)) :
    (∀ x ∈ transitions step (initial b g values) operations, CursorSound x) ↔
      ∀ x ∈ transitions step (initial b g values) operations, ¬ x.pre.FencesUnpublished x.act := by
  refine transitions_forall_iff Sound ?_ ?_ (sound_initial b g values)
  · intro p a p' h hs hc
    exact step_sound h hs hc
  · intro p a p' h hs hp hc
    exact not_cursorSound_of_fences h hs hc hp

/-- Two slots and one consumer that has not moved: two claims, a `tryNext` that finds no room,
and only then the first publication. -/
def outstandingClaims : List (Operation Unit) :=
  [.next 1 [], .next 1 [], .tryNext 1, .publish 0]

/-- The failed `tryNext` shows the unpublished sequences `0` and `1`, and publishing `0` takes
sequence `1` back. -/
theorem cursor_not_sound :
    let ts := transitions step
      (initial ⟨1, by decide⟩ ⟨⟨1, [some ()]⟩, none⟩ fun _ => -1) outstandingClaims
    (∃ x ∈ ts, x.post.published = -1 ∧ x.post.sequencer.getCursor = 1) ∧
      ∃ x ∈ ts, x.pre.sequencer.getCursor = 1 ∧ x.post.sequencer.getCursor = 0 := by
  constructor
  · exact ⟨_, List.mem_cons_of_mem _ (List.mem_cons_of_mem _ List.mem_cons_self), rfl, rfl⟩
  · exact ⟨_, List.mem_cons_of_mem _ (List.mem_cons_of_mem _ (List.mem_cons_of_mem _
      List.mem_cons_self)), rfl, rfl⟩

end Publication
end Disruptor.SingleProducerSequencer
