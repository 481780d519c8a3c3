import Disruptor.Sequencer.SingleProducer.Basic
import Disruptor.Sequencer.MultiProducer.Basic

/-!
# A sequencer of either producer type

A ring or a `Disruptor` is a template over its sequencer. Here it is one of the two.
-/

namespace Disruptor

variable {ι : Type*}

/-- `SingleProducerSequencer` or `MultiProducerSequencer`. -/
inductive Sequencer (ι : Type*) where
  | single (s : SingleProducerSequencer ι)
  | multi (m : MultiProducerSequencer ι)

/-- `dsl::ProducerType`. -/
inductive ProducerType where
  | SINGLE
  | MULTI
  deriving DecidableEq, Repr

namespace Sequencer

/-- A new sequencer over a gating list. -/
def initial (producerType : ProducerType) (b : BufferSize) (g : Gating ι) : Sequencer ι :=
  match producerType with
  | .SINGLE => .single { bufferSize := b, gating := g }
  | .MULTI => .multi { bufferSize := b, gating := g }

def bufferSize : Sequencer ι → BufferSize
  | .single s => s.bufferSize
  | .multi m => m.bufferSize

def getCursor : Sequencer ι → Int
  | .single s => s.getCursor
  | .multi m => m.getCursor

def next (q : Sequencer ι) (n : Int) (values : ι → Int) (passes : List (ι → Int)) :
    Option (Except String Int × (ι → Int) × Sequencer ι) :=
  match q with
  | .single s => (s.next n values passes).map fun r => (r.1, r.2.1, .single r.2.2)
  | .multi m => (m.next n values passes).map fun r => (r.1, r.2.1, .multi r.2.2)

def hasAvailableCapacity (q : Sequencer ι) (requiredCapacity : Int) (values : ι → Int) :
    Bool × Sequencer ι :=
  match q with
  | .single s => ((s.hasAvailableCapacity requiredCapacity values).1,
      .single (s.hasAvailableCapacity requiredCapacity values).2)
  | .multi m => ((m.hasAvailableCapacity requiredCapacity values).1,
      .multi (m.hasAvailableCapacity requiredCapacity values).2)

def publish (q : Sequencer ι) (sequence : Int) : Sequencer ι :=
  match q with
  | .single s => .single (s.publish sequence)
  | .multi m => .multi (m.publish sequence)

def publishRange (q : Sequencer ι) (lo hi : Int) : Sequencer ι :=
  match q with
  | .single s => .single (s.publishRange lo hi)
  | .multi m => .multi (m.publishRange lo hi)

def getHighestPublishedSequence (q : Sequencer ι) (lowerBound availableSequence : Int) : Int :=
  match q with
  | .single s => s.getHighestPublishedSequence lowerBound availableSequence
  | .multi m => m.getHighestPublishedSequence lowerBound availableSequence

/-- The highest sequence that has been claimed. -/
def claimed : Sequencer ι → Int
  | .single s => s.nextValue
  | .multi m => m.cursor

/-- All that has been claimed is published, as far as the sequencer remembers. -/
def Complete : Sequencer ι → Prop
  | .single s => s.cursor = s.nextValue
  | .multi m => m.FlagsUpTo m.cursor

/-- A consumer that asks for any sequence it may still need is told of all that was claimed. -/
def AllVisible (q : Sequencer ι) : Prop :=
  q.getCursor = q.claimed ∧
    ∀ lo, max 0 (q.claimed - q.bufferSize.size + 1) ≤ lo →
      q.getHighestPublishedSequence lo q.claimed = q.claimed

variable {q q' : Sequencer ι} {n hi : Int} {values values' : ι → Int} {passes : List (ι → Int)}

lemma complete_initial (producerType : ProducerType) (b : BufferSize) (g : Gating ι) :
    (initial producerType b g).Complete := by
  cases producerType with
  | SINGLE => rfl
  | MULTI => exact MultiProducerSequencer.flagsUpTo_initial b g

lemma Complete.allVisible (h : q.Complete) : q.AllVisible := by
  cases q with
  | single s => exact ⟨h, fun _ _ => rfl⟩
  | multi m =>
    refine ⟨rfl, ?_⟩
    intro lo hlo
    refine MultiProducerSequencer.highestPublishedFrom_eq m.cursor ?_
    intro t ht ht'
    change max 0 (m.cursor - m.getBufferSize + 1) ≤ lo at hlo
    change t < lo + ((m.cursor + 1 - lo).toNat : Int) at ht'
    exact h t (by omega) (by omega)

lemma hasAvailableCapacity_complete (h : q.Complete) (n : Int) (values : ι → Int) :
    (q.hasAvailableCapacity n values).2.Complete := by
  cases q with
  | single s =>
    have hcursor := s.hasAvailableCapacityStoring_cursor n false values
    have hnext := s.hasAvailableCapacityStoring_nextValue n false values
    exact (hcursor.trans h).trans hnext.symm
  | multi m =>
    simp only [hasAvailableCapacity, MultiProducerSequencer.hasAvailableCapacity,
      MultiProducerSequencer.hasAvailableCapacityFrom]
    split_ifs <;> exact h

/-- A granted claim is the next `n` sequences. -/
lemma next_ok (h : q.next n values passes = some (.ok hi, values', q')) :
    1 ≤ n ∧ hi = q.claimed + n ∧ q'.claimed = hi := by
  cases q with
  | single s =>
    simp only [next, Option.map_eq_some_iff, Prod.mk.injEq] at h
    obtain ⟨⟨r, v, s'⟩, hs, rfl, -, rfl⟩ := h
    rcases SingleProducerSequencer.next_cases hs with ⟨-, ⟨e, he⟩, -⟩ | ⟨hn, hr, hv, -⟩
    · cases he
    · obtain rfl := Except.ok.inj hr
      exact ⟨hn.1, rfl, hv⟩
  | multi m =>
    simp only [next, Option.map_eq_some_iff, Prod.mk.injEq] at h
    obtain ⟨⟨r, v, m'⟩, hs, rfl, -, rfl⟩ := h
    rcases MultiProducerSequencer.next_cases hs with ⟨-, ⟨e, he⟩, -⟩ | ⟨hn, hr, -, hc, -⟩
    · cases he
    · obtain rfl := Except.ok.inj hr
      exact ⟨hn.1, rfl, hc⟩

/-- Where everything is published and a claim has just been granted, publishing that claim
publishes everything. -/
lemma Complete.publishRange_next (hq : q.Complete)
    (h : q.next n values passes = some (.ok hi, values', q')) :
    (q'.publishRange (hi - n + 1) hi).Complete := by
  cases q with
  | single s =>
    simp only [next, Option.map_eq_some_iff, Prod.mk.injEq] at h
    obtain ⟨⟨r, v, s'⟩, hs, rfl, -, rfl⟩ := h
    rcases SingleProducerSequencer.next_cases hs with ⟨-, ⟨e, he⟩, -⟩ | ⟨-, hr, hv, -⟩
    · cases he
    · exact (Except.ok.inj hr).trans hv.symm
  | multi m =>
    simp only [next, Option.map_eq_some_iff, Prod.mk.injEq] at h
    obtain ⟨⟨r, v, m'⟩, hs, rfl, -, rfl⟩ := h
    rcases MultiProducerSequencer.next_cases hs with ⟨-, ⟨e, he⟩, -⟩ | ⟨hn, hr, hb, hc, ha⟩
    · cases he
    · obtain rfl := Except.ok.inj hr
      have hflags : m'.FlagsUpTo m.cursor := MultiProducerSequencer.FlagsUpTo.of_eq hq hb ha
      show (m'.publishRange _ _).FlagsUpTo (m'.publishRange _ _).cursor
      rw [m'.publishRange_cursor, hc]
      exact hflags.publishRange hn.1

/-- An exception of `next` is about `n`, and leaves the sequencer as it was. -/
lemma next_error {e : String} (h : q.next n values passes = some (.error e, values', q')) :
    (n < 1 ∨ n > q.bufferSize.size) ∧ q' = q := by
  cases q with
  | single s =>
    simp only [next, Option.map_eq_some_iff, Prod.mk.injEq] at h
    obtain ⟨⟨r, v, s'⟩, hs, rfl, -, rfl⟩ := h
    rcases SingleProducerSequencer.next_cases hs with ⟨hn, -, rfl⟩ | ⟨-, hr, -⟩
    · exact ⟨hn, rfl⟩
    · cases hr
  | multi m =>
    simp only [next, Option.map_eq_some_iff, Prod.mk.injEq] at h
    obtain ⟨⟨r, v, m'⟩, hs, rfl, -, rfl⟩ := h
    rcases MultiProducerSequencer.next_cases hs with ⟨hn, -, rfl⟩ | ⟨-, hr, -⟩
    · exact ⟨hn, rfl⟩
    · cases hr

/-- A claim that is granted fits into the buffer, which stays the same. -/
lemma next_ok_bufferSize (h : q.next n values passes = some (.ok hi, values', q')) :
    n ≤ q.bufferSize.size ∧ q'.bufferSize = q.bufferSize := by
  cases q with
  | single s =>
    simp only [next, Option.map_eq_some_iff, Prod.mk.injEq] at h
    obtain ⟨⟨r, v, s'⟩, hs, rfl, -, rfl⟩ := h
    rcases SingleProducerSequencer.next_cases hs with ⟨-, ⟨e, he⟩, -⟩ | ⟨hn, -, -, -⟩
    · cases he
    · exact ⟨hn.2, SingleProducerSequencer.next_bufferSize hs⟩
  | multi m =>
    simp only [next, Option.map_eq_some_iff, Prod.mk.injEq] at h
    obtain ⟨⟨r, v, m'⟩, hs, rfl, -, rfl⟩ := h
    rcases MultiProducerSequencer.next_cases hs with ⟨-, ⟨e, he⟩, -⟩ | ⟨hn, -, hb, -⟩
    · cases he
    · exact ⟨hn.2, hb⟩

@[simp] lemma claimed_publishRange (q : Sequencer ι) (lo hi : Int) :
    (q.publishRange lo hi).claimed = q.claimed := by
  cases q with
  | single s => rfl
  | multi m => exact m.publishRange_cursor lo hi

@[simp] lemma claimed_hasAvailableCapacity (q : Sequencer ι) (n : Int) (values : ι → Int) :
    (q.hasAvailableCapacity n values).2.claimed = q.claimed := by
  cases q with
  | single s => exact s.hasAvailableCapacityStoring_nextValue n false values
  | multi m => exact m.hasAvailableCapacityFrom_cursor _ n m.cursor values

/-- The sequencers have claimed and published the same sequences. -/
structure SameView (q q' : Sequencer ι) : Prop where
  bufferSize : q'.bufferSize = q.bufferSize
  claimed : q'.claimed = q.claimed
  getCursor : q'.getCursor = q.getCursor
  getHighestPublishedSequence : ∀ lo hi,
    q'.getHighestPublishedSequence lo hi = q.getHighestPublishedSequence lo hi

/-- Asking for capacity claims and publishes nothing. -/
lemma sameView_hasAvailableCapacity (q : Sequencer ι) (n : Int) (values : ι → Int) :
    q.SameView (q.hasAvailableCapacity n values).2 := by
  cases q with
  | single s =>
    refine ⟨?_, s.hasAvailableCapacityStoring_nextValue n false values,
      s.hasAvailableCapacityStoring_cursor n false values, fun _ _ => rfl⟩
    simp only [hasAvailableCapacity, SingleProducerSequencer.hasAvailableCapacity,
      SingleProducerSequencer.hasAvailableCapacityStoring]
    split_ifs <;> rfl
  | multi m =>
    simp only [hasAvailableCapacity, MultiProducerSequencer.hasAvailableCapacity,
      MultiProducerSequencer.hasAvailableCapacityFrom]
    split_ifs
    · exact ⟨rfl, rfl, rfl,
        MultiProducerSequencer.getHighestPublishedSequence_of_eq rfl rfl⟩
    · exact ⟨rfl, rfl, rfl, fun _ _ => rfl⟩

/-- Publishing one sequence is publishing a range of one. -/
lemma publishRange_self (q : Sequencer ι) (sequence : Int) :
    q.publishRange sequence sequence = q.publish sequence := by
  cases q with
  | single s => rfl
  | multi m =>
    have hcount : (sequence + 1 - sequence).toNat = 1 := by omega
    simp only [publishRange, MultiProducerSequencer.publishRange, hcount]
    rfl

end Sequencer

end Disruptor
