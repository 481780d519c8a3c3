import Disruptor.Core.Ledger
import Disruptor.Sequencer.MultiProducer.Flags
import Disruptor.Sequencer.Ranges

/-!
# What readers are told

A single-producer sequencer tells its readers what is published by the cursor, a multi-producer
sequencer by the flags. The flags are right as long as no claim is granted a lap ahead of a sequence
that is not published.
-/

namespace Disruptor

open Disruptor.Core

variable {ι : Type*}

namespace MultiProducerSequencer

variable {m m' : MultiProducerSequencer ι} {published published' : Int → Bool} {l t : Int}

/-- Above every position that the published sequences have left behind by less than a lap, the
flags tell which of them are published. -/
def FlagsExact (m : MultiProducerSequencer ι) (published : Int → Bool) : Prop :=
  ∀ v, INITIAL_VALUE ≤ v → Upto (published · = true) v →
    (∀ s, published s = true → s ≤ v + m.getBufferSize) → m.FlagsAbove published v

lemma flagsExact_initial (b : BufferSize) (g : Gating ι) :
    FlagsExact { bufferSize := b, gating := g } fun _ => false := by
  intro v hv hupto hbeyond
  obtain rfl : v = INITIAL_VALUE := by
    by_contra hne
    have hzero := hupto 0 le_rfl (by simp only [INITIAL_VALUE] at hv hne; omega)
    simp at hzero
  exact flagsAbove_initial b g

lemma FlagsExact.of_eq (h : m.FlagsExact published) (hsize : m'.bufferSize = m.bufferSize)
    (hflags : m'.availableBuffer = m.availableBuffer) : m'.FlagsExact published := by
  intro v hv hupto hbeyond
  refine (h v hv hupto ?_).of_eq hsize hflags
  simpa only [getBufferSize, hsize] using hbeyond

/-- The flag of a sequence is stored that no published one is a lap ahead of. -/
lemma FlagsExact.setAvailable (h : m.FlagsExact published) (hl : 0 ≤ l)
    (hnew : published l = false) (hbeyond : ∀ s, published s = true → s < l + m.getBufferSize) :
    (m.setAvailable l).FlagsExact (Function.update published l true) := by
  intro v hv hupto hlap
  have hsize := m.bufferSize.size_pos
  have hold : ∀ s, published s = true → Function.update published l true s = true := by
    intro s hs
    have hne : s ≠ l := by
      rintro rfl
      simp [hnew] at hs
    rwa [Function.update_of_ne hne]
  have hbelow : ∀ s, 0 ≤ s → s < l → s ≤ v → published s = true := by
    intro s hs hsl hsv
    have hset : Function.update published l true s = true := hupto s hs hsv
    rwa [Function.update_of_ne hsl.ne] at hset
  by_cases hlv : l ≤ v
  · -- the lap moves up over the sequence itself
    have hat := h (l - 1) (by simp only [INITIAL_VALUE]; omega)
      (fun s hs hs' => hbelow s hs (by omega) (by omega))
      (fun s hs => by have := hbeyond s hs; omega)
    have hset := hat.setAvailable (s := l) (by omega) (by simp only [getBufferSize]; omega)
    refine hset.advance ?_ ?_ (by omega)
    · exact fun s hs hs' => hupto s (by omega) hs'
    · intro s hs
      by_cases hsl : s = l
      · simp only [getBufferSize, setAvailable_bufferSize]
        omega
      · rw [Function.update_of_ne hsl] at hs
        have hlt := hbeyond s hs
        simp only [getBufferSize, setAvailable_bufferSize] at hlt ⊢
        omega
  · have hlap' : l ≤ v + m.getBufferSize := by
      have := hlap l (Function.update_self l true published)
      simpa only [getBufferSize, setAvailable_bufferSize] using this
    refine (h v hv ?_ ?_).setAvailable (not_le.mp hlv) hlap'
    · exact fun s hs hs' => hbelow s hs (by omega) hs'
    · exact fun s hs => by
        simpa only [getBufferSize, setAvailable_bufferSize] using hlap s (hold s hs)

/-- A flag that is set is one of a published sequence, when that would be the first that is not
published and none is a lap ahead of it. -/
lemma FlagsExact.published_of_isAvailable (h : m.FlagsExact published) (ht : 0 ≤ t)
    (hbelow : Upto (published · = true) (t - 1))
    (hroom : published t = false → ∀ s, published s = true → s < t + m.getBufferSize)
    (hset : m.isAvailable t = true) : published t = true := by
  by_contra hnot
  have hbeyond : ∀ s, published s = true → s ≤ t - 1 + m.getBufferSize := by
    intro s hs
    have hlt := hroom (by simpa using hnot) s hs
    omega
  have hat := h (t - 1) (by simp only [INITIAL_VALUE]; omega) hbelow hbeyond
  refine hnot ((hat.isAvailable_iff_of_below hbeyond (by omega) ?_).mp hset)
  intro s hs hs'
  omega

/-- The flag of a published sequence is set, when everything below it is published and nothing that
is a lap ahead of it. -/
lemma FlagsExact.isAvailable_of_published (h : m.FlagsExact published) (ht : 0 ≤ t)
    (hupto : Upto (published · = true) t)
    (hbeyond : ∀ s, published s = true → s ≤ t - 1 + m.getBufferSize) :
    m.isAvailable t = true := by
  have hat := h (t - 1) (by simp only [INITIAL_VALUE]; omega)
    (hupto.mono (by omega) fun _ => id) hbeyond
  refine (hat.isAvailable_iff_of_below hbeyond (by omega) ?_).mpr (hupto t ht le_rfl)
  intro s hs hs'
  omega

end MultiProducerSequencer

namespace Sequencer

variable {q q' : Sequencer ι} {published published' : Int → Bool}

/-- What a sequencer tells its readers is so. -/
def Tells (published : Int → Bool) : Sequencer ι → Prop
  | .single s => Upto (published · = true) s.cursor
  | .multi m => m.FlagsExact published

/-- Only a lap above an unpublished sequence nothing is granted. -/
def Roomy (bufferSize : BufferSize) (published : Int → Bool) (granted : List (Int × Int)) : Prop :=
  ∀ u, 0 ≤ u → published u = false → ∀ range ∈ granted, range.2 < u + bufferSize.size

lemma Roomy.mono {bufferSize : BufferSize} {granted : List (Int × Int)}
    (h : Roomy bufferSize published granted)
    (hpublished : ∀ s, published s = true → published' s = true) :
    Roomy bufferSize published' granted := by
  intro u hu hnot
  refine h u hu ?_
  by_contra hset
  rw [hpublished u (by simpa using hset)] at hnot
  cases hnot

lemma tells_initial (producerType : ProducerType) (b : BufferSize) :
    (Sequencer.initial (ι := ι) producerType b {}).Tells fun _ => false := by
  cases producerType with
  | SINGLE =>
    intro t ht ht'
    simp only [INITIAL_VALUE] at ht'
    omega
  | MULTI => exact MultiProducerSequencer.flagsExact_initial b {}

lemma Tells.fences (h : q.Tells published) (hfences : q.Fences q')
    (hclaimed : ∀ s, q = .single s → Upto (published · = true) s.nextValue) :
    q'.Tells published := by
  cases hfences with
  | @single s s' hcursor =>
    show Upto _ s'.cursor
    rcases hcursor with heq | heq
    · rw [heq]
      exact h
    · rw [heq]
      exact hclaimed s rfl
  | multi hsize hflags => exact MultiProducerSequencer.FlagsExact.of_eq h hsize hflags

lemma Fences.available_isSome (h : q.Fences q') :
    q'.available.isSome = q.available.isSome := by
  cases h with
  | single hcursor => rfl
  | multi hsize hflags => simp [available]

section

variable [DecidableEq ι]

lemma Tells.addGatingSequences (h : q.Tells published) (values : ι → Int) (l : List (Option ι)) :
    (q.addGatingSequences values l).2.Tells published := by
  cases q with
  | single s => exact h
  | multi m => exact MultiProducerSequencer.FlagsExact.of_eq h rfl rfl

lemma Tells.removeGatingSequence (h : q.Tells published) (i : ι) :
    (q.removeGatingSequence i).2.Tells published := by
  cases q with
  | single s => exact h
  | multi m => exact MultiProducerSequencer.FlagsExact.of_eq h rfl rfl

end

/-- One step of `publish(lo, hi)`. -/
lemma Tells.publishStep (h : q.Tells published) {l hi : Int} {range : Int × Int} {returned : Bool}
    (hl : 0 ≤ l) (hnew : published l = false)
    (hbeyond : ∀ s, published s = true → s < l + q.bufferSize.size)
    (hbelow : ∀ s, q = .single s → Upto (published · = true) (l - 1))
    (hpublished : ∀ t, published' t = true ↔
      published t = true ∨ range.1 ≤ t ∧ t ≤ range.2)
    (hs : q.publishStep l hi = (q', range, returned)) : q'.Tells published' := by
  cases q with
  | single s =>
    simp only [Sequencer.publishStep, Prod.mk.injEq] at hs
    obtain ⟨rfl, rfl, -⟩ := hs
    intro t ht ht'
    refine (hpublished t).mpr ?_
    by_cases hlt : t < l
    · exact Or.inl (hbelow s rfl t ht (by omega))
    · exact Or.inr ⟨not_lt.mp hlt, ht'⟩
  | multi m =>
    simp only [Sequencer.publishStep, Prod.mk.injEq] at hs
    obtain ⟨rfl, rfl, -⟩ := hs
    have heq : published' = Function.update published l true := by
      funext t
      rw [Bool.eq_iff_iff, hpublished]
      by_cases htl : t = l
      · subst htl
        simp
      · rw [Function.update_of_ne htl, or_iff_left]
        omega
    rw [heq]
    exact MultiProducerSequencer.FlagsExact.setAvailable h hl hnew hbeyond

/-- Without flags the cursor tells what is published. -/
lemma Tells.upto_cursor (h : q.Tells published) (hflags : q.available.isSome = false) :
    Upto (published · = true) q.getCursor := by
  cases q with
  | single s => exact h
  | multi m => simp [available] at hflags

/-- What a barrier reads of the flags tells what is published. -/
lemma Tells.published_of_isAvailable (h : q.Tells published) {isAvailable : Int → Bool} {t : Int}
    (havailable : q.available = some isAvailable) (ht : 0 ≤ t)
    (hbelow : Upto (published · = true) (t - 1))
    (hroom : published t = false → ∀ s, published s = true → s < t + q.bufferSize.size)
    (hset : isAvailable t = true) : published t = true := by
  cases q with
  | single s => cases havailable
  | multi m =>
    obtain rfl := Option.some.inj havailable
    exact MultiProducerSequencer.FlagsExact.published_of_isAvailable h ht hbelow hroom hset

/-- What is published is available. -/
lemma Tells.isAvailable_of_published (h : q.Tells published) {isAvailable : Int → Bool} {t : Int}
    (havailable : q.available = some isAvailable) (ht : 0 ≤ t)
    (hupto : Upto (published · = true) t)
    (hbeyond : ∀ s, published s = true → s ≤ t - 1 + q.bufferSize.size) :
    isAvailable t = true := by
  cases q with
  | single s => cases havailable
  | multi m =>
    obtain rfl := Option.some.inj havailable
    exact MultiProducerSequencer.FlagsExact.isAvailable_of_published h ht hupto hbeyond

end Sequencer

end Disruptor
