import Disruptor.Sequencer.BufferSize
import Disruptor.Sequencer.Error
import Disruptor.Sequencer.Gating

/-!
# `SingleProducerSequencer`, complete operations

The operations as the one producer thread sees them, each run to completion. Other threads show
up in the values of the gating sequences, and in what these values are at the later passes of
the wait loop of `next`.
-/

namespace Disruptor

variable {ι : Type*}

/-- The fields of a `SingleProducerSequencer`. -/
structure SingleProducerSequencer (ι : Type*) where
  bufferSize : BufferSize
  cursor : Int := INITIAL_VALUE
  gating : Gating ι := {}
  nextValue : Int := INITIAL_VALUE
  cachedValue : Int := INITIAL_VALUE

namespace SingleProducerSequencer

/-- `getBufferSize()`. -/
def getBufferSize (s : SingleProducerSequencer ι) : Int := s.bufferSize.size

/-- `getCursor()`. -/
def getCursor (s : SingleProducerSequencer ι) : Int := s.cursor

/-- `minimumSequence(defaultMin)`. -/
def minimumSequence (s : SingleProducerSequencer ι) (values : ι → Int) (defaultMin : Int) :
    Int × SingleProducerSequencer ι :=
  let r := s.gating.minimumSequence values defaultMin
  (r.1, { s with gating := r.2 })

/-- The last sequence of a claim of `n` that would lap the consumers. -/
def wrapPoint (s : SingleProducerSequencer ι) (n : Int) : Int :=
  s.nextValue + n - s.getBufferSize

/-- `wrapPoint > cachedGatingSequence || cachedGatingSequence > nextValue`: the cached gating
value does not settle whether `n` more sequences fit. -/
def CacheExhausted (s : SingleProducerSequencer ι) (n : Int) : Prop :=
  s.wrapPoint n > s.cachedValue ∨ s.cachedValue > s.nextValue

instance (s : SingleProducerSequencer ι) (n : Int) : Decidable (s.CacheExhausted n) :=
  inferInstanceAs (Decidable (_ ∨ _))

/-- `next(n)`; `none` when it still waits after the given passes of its loop. -/
def next (s : SingleProducerSequencer ι) (n : Int) (values : ι → Int)
    (passes : List (ι → Int)) :
    Option (Except String Int × (ι → Int) × SingleProducerSequencer ι) :=
  if n < 1 ∨ n > s.getBufferSize then
    some (.error "n must be > 0 and < bufferSize", values, s)
  else
    let nextSequence := s.nextValue + n
    if s.CacheExhausted n then
      -- `cursor_.setVolatile(nextValue)` is meant as a StoreLoad fence, but it does store
      let fenced := { s with cursor := s.nextValue }
      (fenced.gating.waitMinimumSequence (s.wrapPoint n) s.nextValue values passes).map fun r =>
        (.ok nextSequence, r.2.1,
          { fenced with gating := r.2.2, cachedValue := r.1, nextValue := nextSequence })
    else some (.ok nextSequence, values, { s with nextValue := nextSequence })

/-- The private `hasAvailableCapacity(requiredCapacity, doStore)`. -/
def hasAvailableCapacityStoring (s : SingleProducerSequencer ι) (requiredCapacity : Int)
    (doStore : Bool) (values : ι → Int) : Bool × SingleProducerSequencer ι :=
  if s.CacheExhausted requiredCapacity then
    let fenced := if doStore then { s with cursor := s.nextValue } else s
    let r := fenced.minimumSequence values s.nextValue
    (decide (s.wrapPoint requiredCapacity ≤ r.1), { r.2 with cachedValue := r.1 })
  else (true, s)

/-- `hasAvailableCapacity(requiredCapacity)`. -/
def hasAvailableCapacity (s : SingleProducerSequencer ι) (requiredCapacity : Int)
    (values : ι → Int) : Bool × SingleProducerSequencer ι :=
  s.hasAvailableCapacityStoring requiredCapacity false values

/-- `tryNext(n)`. -/
def tryNext (s : SingleProducerSequencer ι) (n : Int) (values : ι → Int) :
    Except Error Int × SingleProducerSequencer ι :=
  if n < 1 then (.error (Error.invalid_argument "n must be > 0"), s)
  else
    let r := s.hasAvailableCapacityStoring n true values
    if r.1 then (.ok (r.2.nextValue + n), { r.2 with nextValue := r.2.nextValue + n })
    else (.error Error.insufficient_capacity, r.2)

/-- `remainingCapacity()`. -/
def remainingCapacity (s : SingleProducerSequencer ι) (values : ι → Int) :
    Int × SingleProducerSequencer ι :=
  let r := s.minimumSequence values s.nextValue
  (s.getBufferSize - (s.nextValue - r.1), r.2)

/-- `publish(sequence)`. Signalling a blocking wait strategy changes nothing here. -/
def publish (s : SingleProducerSequencer ι) (sequence : Int) : SingleProducerSequencer ι :=
  { s with cursor := sequence }

/-- `publish(lo, hi)`. -/
def publishRange (s : SingleProducerSequencer ι) (_lo hi : Int) : SingleProducerSequencer ι :=
  s.publish hi

/-- `isAvailable(sequence)`. -/
def isAvailable (s : SingleProducerSequencer ι) (sequence : Int) : Bool :=
  decide (sequence ≤ s.cursor ∧ sequence > s.cursor - s.getBufferSize)

/-- `getHighestPublishedSequence(lowerBound, availableSequence)`. -/
def getHighestPublishedSequence (_s : SingleProducerSequencer ι)
    (_lowerBound availableSequence : Int) : Int :=
  availableSequence

/-- `AbstractSequencer::getMinimumSequence()`. -/
def getMinimumSequence (s : SingleProducerSequencer ι) (values : ι → Int) : Int :=
  Disruptor.getMinimumSequence values s.gating.gatingSequences.sequences s.cursor

variable [DecidableEq ι]

/-- `addGatingSequences(gatingSequences, count)`. -/
def addGatingSequences (s : SingleProducerSequencer ι) (values : ι → Int)
    (gatingSequences : List (Option ι)) : (ι → Int) × SingleProducerSequencer ι :=
  let r := s.gating.addGatingSequences values s.cursor gatingSequences
  (r.1, { s with gating := r.2 })

/-- `removeGatingSequence(sequence)`. -/
def removeGatingSequence (s : SingleProducerSequencer ι) (sequence : ι) :
    Bool × SingleProducerSequencer ι :=
  let r := s.gating.removeGatingSequence sequence
  (r.1, { s with gating := r.2 })

omit [DecidableEq ι]

/-! ### What the operations do to the claimed position and to the cursor -/

variable {s s' : SingleProducerSequencer ι} {n : Int} {values values' : ι → Int}
  {passes : List (ι → Int)} {r : Except String Int}

/-- The cursor after a claim of `n` that got as far as looking at the gating sequences. -/
def fencedCursor (s : SingleProducerSequencer ι) (n : Int) : Int :=
  if s.CacheExhausted n then s.nextValue else s.cursor

/-- `next` either rejects `n` and changes nothing, or claims the next `n` sequences. -/
lemma next_cases (h : s.next n values passes = some (r, values', s')) :
    ((n < 1 ∨ n > s.getBufferSize) ∧ (∃ e, r = .error e) ∧ s' = s) ∨
      ((1 ≤ n ∧ n ≤ s.getBufferSize) ∧ r = .ok (s.nextValue + n) ∧
        s'.nextValue = s.nextValue + n ∧ s'.cursor = s.fencedCursor n) := by
  unfold next at h
  split_ifs at h with hn hcache
  · simp only [Option.some.injEq, Prod.mk.injEq] at h
    exact Or.inl ⟨hn, ⟨_, h.1.symm⟩, h.2.2.symm⟩
  · simp only [Option.map_eq_some_iff, Prod.mk.injEq] at h
    obtain ⟨m, -, rfl, -, rfl⟩ := h
    exact Or.inr ⟨by omega, rfl, rfl, by simp [fencedCursor, hcache]⟩
  · simp only [Option.some.injEq, Prod.mk.injEq] at h
    obtain ⟨rfl, -, rfl⟩ := h
    exact Or.inr ⟨by omega, rfl, rfl, by simp [fencedCursor, hcache]⟩

lemma next_bufferSize (h : s.next n values passes = some (r, values', s')) :
    s'.bufferSize = s.bufferSize := by
  unfold next at h
  split_ifs at h
  · obtain ⟨-, -, rfl⟩ : _ ∧ _ ∧ _ := by simpa using h
    rfl
  · simp only [Option.map_eq_some_iff, Prod.mk.injEq] at h
    obtain ⟨m, -, -, -, rfl⟩ := h
    rfl
  · obtain ⟨-, -, rfl⟩ : _ ∧ _ ∧ _ := by simpa using h
    rfl

@[simp] lemma hasAvailableCapacityStoring_nextValue (s : SingleProducerSequencer ι) (n : Int)
    (doStore : Bool) (values : ι → Int) :
    (s.hasAvailableCapacityStoring n doStore values).2.nextValue = s.nextValue := by
  unfold hasAvailableCapacityStoring
  cases doStore <;> split_ifs <;> rfl

lemma hasAvailableCapacityStoring_cursor (s : SingleProducerSequencer ι) (n : Int)
    (doStore : Bool) (values : ι → Int) :
    (s.hasAvailableCapacityStoring n doStore values).2.cursor =
      if doStore then s.fencedCursor n else s.cursor := by
  unfold hasAvailableCapacityStoring fencedCursor
  cases doStore <;> split_ifs <;> rfl

/-- `tryNext` changes nothing for `n < 1`, and else stores the fence and may claim. -/
lemma tryNext_cases (s : SingleProducerSequencer ι) (n : Int) (values : ι → Int) :
    (n < 1 ∧ (s.tryNext n values).2 = s) ∨
      (1 ≤ n ∧ s.nextValue ≤ (s.tryNext n values).2.nextValue ∧
        (s.tryNext n values).2.cursor = s.fencedCursor n) := by
  have hcursor := s.hasAvailableCapacityStoring_cursor n true values
  have hnext := s.hasAvailableCapacityStoring_nextValue n true values
  unfold tryNext
  dsimp only
  split_ifs with hn hcap
  · exact Or.inl ⟨hn, rfl⟩
  · exact Or.inr ⟨by omega, by simp only [hnext]; omega, by simpa using hcursor⟩
  · exact Or.inr ⟨by omega, hnext.ge, by simpa using hcursor⟩

end SingleProducerSequencer

end Disruptor
