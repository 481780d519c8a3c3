import Disruptor.Sequencer.BufferSize
import Disruptor.Sequencer.Error
import Disruptor.Sequencer.Gating

/-!
# `MultiProducerSequencer`, complete operations

The operations as one thread sees them when each runs to completion without another producer in
between. The cursor is the highest claimed sequence; what has been published is recorded in
`availableBuffer_`, one round flag per slot.
-/

namespace Disruptor

variable {ι : Type*}

/-- The fields of a `MultiProducerSequencer`; `gatingSequenceCache` is the value of the
`Sequence` of that name. -/
structure MultiProducerSequencer (ι : Type*) where
  bufferSize : BufferSize
  cursor : Int := INITIAL_VALUE
  gating : Gating ι := {}
  gatingSequenceCache : Int := INITIAL_VALUE
  availableBuffer : Int → Int := fun _ => -1

namespace MultiProducerSequencer

/-- `getBufferSize()`. -/
def getBufferSize (m : MultiProducerSequencer ι) : Int := m.bufferSize.size

/-- `getCursor()`. -/
def getCursor (m : MultiProducerSequencer ι) : Int := m.cursor

/-- `minimumSequence(defaultMin)`. -/
def minimumSequence (m : MultiProducerSequencer ι) (values : ι → Int) (defaultMin : Int) :
    Int × MultiProducerSequencer ι :=
  let r := m.gating.minimumSequence values defaultMin
  (r.1, { m with gating := r.2 })

/-- The last sequence of a claim of `n` after `current` that would lap the consumers. -/
def wrapPoint (m : MultiProducerSequencer ι) (current n : Int) : Int :=
  current + n - m.getBufferSize

/-- `wrapPoint > cachedGatingSequence || cachedGatingSequence > current`. -/
def CacheExhausted (m : MultiProducerSequencer ι) (current n : Int) : Prop :=
  m.wrapPoint current n > m.gatingSequenceCache ∨ m.gatingSequenceCache > current

instance (m : MultiProducerSequencer ι) (current n : Int) :
    Decidable (m.CacheExhausted current n) :=
  inferInstanceAs (Decidable (_ ∨ _))

/-- `next(n)`: the cursor moves before the wait. `none` when it still waits after the given
passes of its loop. -/
def next (m : MultiProducerSequencer ι) (n : Int) (values : ι → Int) (passes : List (ι → Int)) :
    Option (Except String Int × (ι → Int) × MultiProducerSequencer ι) :=
  if n < 1 ∨ n > m.getBufferSize then
    some (.error "n must be > 0 and < bufferSize", values, m)
  else
    let current := m.cursor
    let claimed := { m with cursor := current + n }
    if m.CacheExhausted current n then
      (claimed.gating.waitMinimumSequence (m.wrapPoint current n) current values passes).map
        fun r => (.ok (current + n), r.2.1,
          { claimed with gating := r.2.2, gatingSequenceCache := r.1 })
    else some (.ok (current + n), values, claimed)

/-- The private `hasAvailableCapacity(gatingSequences, requiredCapacity, cursorValue)`. -/
def hasAvailableCapacityFrom (m : MultiProducerSequencer ι) (gatingSequences : List (Option ι))
    (requiredCapacity cursorValue : Int) (values : ι → Int) : Bool × MultiProducerSequencer ι :=
  if m.CacheExhausted cursorValue requiredCapacity then
    let minSequence := Disruptor.getMinimumSequence values gatingSequences cursorValue
    (decide (m.wrapPoint cursorValue requiredCapacity ≤ minSequence),
      { m with gatingSequenceCache := minSequence })
  else (true, m)

/-- `hasAvailableCapacity(requiredCapacity)`. -/
def hasAvailableCapacity (m : MultiProducerSequencer ι) (requiredCapacity : Int)
    (values : ι → Int) : Bool × MultiProducerSequencer ι :=
  m.hasAvailableCapacityFrom m.gating.gatingSequences.sequences requiredCapacity m.cursor values

/-- The `do … while` loop of `tryNext(n)`, whose weak compare-exchange fails spuriously
`spurious` times. -/
def tryNextLoop (m : MultiProducerSequencer ι) (n : Int) (values : ι → Int) :
    Nat → Except Error Int × MultiProducerSequencer ι
  | 0 =>
    let current := m.cursor
    let r := m.hasAvailableCapacityFrom m.gating.gatingSequences.sequences n current values
    if r.1 then (.ok (current + n), { r.2 with cursor := current + n })
    else (.error Error.insufficient_capacity, r.2)
  | spurious + 1 =>
    let r := m.hasAvailableCapacityFrom m.gating.gatingSequences.sequences n m.cursor values
    if r.1 then r.2.tryNextLoop n values spurious
    else (.error Error.insufficient_capacity, r.2)

/-- `tryNext(n)`. -/
def tryNext (m : MultiProducerSequencer ι) (n : Int) (values : ι → Int) (spurious : Nat) :
    Except Error Int × MultiProducerSequencer ι :=
  if n < 1 then (.error (Error.invalid_argument "n must be > 0"), m)
  else m.tryNextLoop n values spurious

/-- `remainingCapacity()`. -/
def remainingCapacity (m : MultiProducerSequencer ι) (values : ι → Int) :
    Int × MultiProducerSequencer ι :=
  let r := m.minimumSequence values m.cursor
  (m.getBufferSize - (r.2.cursor - r.1), r.2)

/-- `setAvailable(sequence)`. -/
def setAvailable (m : MultiProducerSequencer ι) (sequence : Int) : MultiProducerSequencer ι :=
  { m with
    availableBuffer := Function.update m.availableBuffer (calculateIndex m.bufferSize sequence)
      (calculateAvailabilityFlag m.bufferSize sequence) }

/-- `publish(sequence)`. Signalling a blocking wait strategy changes nothing here. -/
def publish (m : MultiProducerSequencer ι) (sequence : Int) : MultiProducerSequencer ι :=
  m.setAvailable sequence

/-- The loop of `publish(lo, hi)`, from `l` for `count` sequences. -/
def publishFrom (m : MultiProducerSequencer ι) (l : Int) : Nat → MultiProducerSequencer ι
  | 0 => m
  | count + 1 => (m.setAvailable l).publishFrom (l + 1) count

/-- `publish(lo, hi)`. -/
def publishRange (m : MultiProducerSequencer ι) (lo hi : Int) : MultiProducerSequencer ι :=
  m.publishFrom lo (hi + 1 - lo).toNat

/-- `isAvailable(sequence)`. -/
def isAvailable (m : MultiProducerSequencer ι) (sequence : Int) : Bool :=
  decide (m.availableBuffer (calculateIndex m.bufferSize sequence) =
    calculateAvailabilityFlag m.bufferSize sequence)

/-- The loop of `getHighestPublishedSequence`, from `sequence` for `count` sequences. -/
def highestPublishedFrom (m : MultiProducerSequencer ι) (availableSequence sequence : Int) :
    Nat → Int
  | 0 => availableSequence
  | count + 1 =>
    if m.isAvailable sequence then
      m.highestPublishedFrom availableSequence (sequence + 1) count
    else sequence - 1

/-- `getHighestPublishedSequence(lowerBound, availableSequence)`. -/
def getHighestPublishedSequence (m : MultiProducerSequencer ι)
    (lowerBound availableSequence : Int) : Int :=
  m.highestPublishedFrom availableSequence lowerBound (availableSequence + 1 - lowerBound).toNat

/-- `AbstractSequencer::getMinimumSequence()`. -/
def getMinimumSequence (m : MultiProducerSequencer ι) (values : ι → Int) : Int :=
  Disruptor.getMinimumSequence values m.gating.gatingSequences.sequences m.cursor

section

variable [DecidableEq ι]

/-- `addGatingSequences(gatingSequences, count)`. -/
def addGatingSequences (m : MultiProducerSequencer ι) (values : ι → Int)
    (gatingSequences : List (Option ι)) : (ι → Int) × MultiProducerSequencer ι :=
  let r := m.gating.addGatingSequences values m.cursor gatingSequences
  (r.1, { m with gating := r.2 })

/-- `removeGatingSequence(sequence)`. -/
def removeGatingSequence (m : MultiProducerSequencer ι) (sequence : ι) :
    Bool × MultiProducerSequencer ι :=
  let r := m.gating.removeGatingSequence sequence
  (r.1, { m with gating := r.2 })

end

/-- `next` either rejects `n` and changes nothing, or moves the cursor by `n`. -/
lemma next_cases {m m' : MultiProducerSequencer ι} {n : Int} {values values' : ι → Int}
    {passes : List (ι → Int)} {r : Except String Int}
    (h : m.next n values passes = some (r, values', m')) :
    ((n < 1 ∨ n > m.getBufferSize) ∧ (∃ e, r = .error e) ∧ m' = m) ∨
      ((1 ≤ n ∧ n ≤ m.getBufferSize) ∧ r = .ok (m.cursor + n) ∧
        m'.bufferSize = m.bufferSize ∧ m'.cursor = m.cursor + n ∧
        m'.availableBuffer = m.availableBuffer) := by
  unfold next at h
  dsimp only at h
  split_ifs at h with hn hcache
  · simp only [Option.some.injEq, Prod.mk.injEq] at h
    exact Or.inl ⟨hn, ⟨_, h.1.symm⟩, h.2.2.symm⟩
  · simp only [Option.map_eq_some_iff, Prod.mk.injEq] at h
    obtain ⟨_, -, rfl, -, rfl⟩ := h
    exact Or.inr ⟨by omega, rfl, rfl, rfl, rfl⟩
  · simp only [Option.some.injEq, Prod.mk.injEq] at h
    obtain ⟨rfl, -, rfl⟩ := h
    exact Or.inr ⟨by omega, rfl, rfl, rfl, rfl⟩

/-! ### A weak compare-exchange that fails spuriously -/

/-- Looking again after a check that succeeded finds the cached minimum, and succeeds. -/
lemma hasAvailableCapacityFrom_again {m : MultiProducerSequencer ι} {l : List (Option ι)}
    {n cursorValue : Int} {values : ι → Int}
    (h : (m.hasAvailableCapacityFrom l n cursorValue values).1 = true) :
    (m.hasAvailableCapacityFrom l n cursorValue values).2.hasAvailableCapacityFrom l n cursorValue
      values = (true, (m.hasAvailableCapacityFrom l n cursorValue values).2) := by
  by_cases hcache : m.CacheExhausted cursorValue n
  · have hmin := getMinimumSequence_le_default values l cursorValue
    simp only [hasAvailableCapacityFrom, if_pos hcache, decide_eq_true_eq] at h ⊢
    refine if_neg ?_
    rintro (hwrap | hahead)
    · exact absurd h (not_le.mpr hwrap)
    · exact absurd hmin (not_le.mpr hahead)
  · simp only [hasAvailableCapacityFrom, if_neg hcache]

@[simp] lemma hasAvailableCapacityFrom_cursor (m : MultiProducerSequencer ι)
    (l : List (Option ι)) (n cursorValue : Int) (values : ι → Int) :
    (m.hasAvailableCapacityFrom l n cursorValue values).2.cursor = m.cursor := by
  unfold hasAvailableCapacityFrom
  split_ifs <;> rfl

@[simp] lemma hasAvailableCapacityFrom_gating (m : MultiProducerSequencer ι)
    (l : List (Option ι)) (n cursorValue : Int) (values : ι → Int) :
    (m.hasAvailableCapacityFrom l n cursorValue values).2.gating = m.gating := by
  unfold hasAvailableCapacityFrom
  split_ifs <;> rfl

/-- Spurious failures of the compare-exchange do not show. -/
lemma tryNextLoop_eq (m : MultiProducerSequencer ι) (n : Int) (values : ι → Int)
    (spurious : Nat) : m.tryNextLoop n values spurious = m.tryNextLoop n values 0 := by
  induction spurious generalizing m with
  | zero => rfl
  | succ spurious ih =>
    cases hcap : (m.hasAvailableCapacityFrom m.gating.gatingSequences.sequences n m.cursor
        values).1 with
    | false => simp only [tryNextLoop, hcap]; rfl
    | true =>
      have hagain := hasAvailableCapacityFrom_again hcap
      simp only [tryNextLoop, hcap, if_true]
      rw [ih]
      simp only [tryNextLoop, hasAvailableCapacityFrom_cursor, hasAvailableCapacityFrom_gating,
        hagain, if_true]

/-! ### Availability flags -/

lemma isAvailable_eq_true {m : MultiProducerSequencer ι} {sequence : Int} :
    m.isAvailable sequence = true ↔
      m.availableBuffer (calculateIndex m.bufferSize sequence) =
        calculateAvailabilityFlag m.bufferSize sequence := by
  simp [isAvailable]

@[simp] lemma setAvailable_bufferSize (m : MultiProducerSequencer ι) (l : Int) :
    (m.setAvailable l).bufferSize = m.bufferSize := rfl

/-- Publishing touches nothing but the flags. -/
lemma publishFrom_eq (m : MultiProducerSequencer ι) (l : Int) (count : Nat) :
    ∃ flags, m.publishFrom l count = { m with availableBuffer := flags } := by
  induction count generalizing m l with
  | zero => exact ⟨_, rfl⟩
  | succ count ih =>
    obtain ⟨flags, h⟩ := ih (m.setAvailable l) (l + 1)
    exact ⟨flags, h⟩

/-- The slots hold the round flags of the window of `N` sequences that ends at `hi`. -/
def FlagsUpTo (m : MultiProducerSequencer ι) (hi : Int) : Prop :=
  ∀ q, hi - m.getBufferSize < q → q ≤ hi → m.isAvailable q = true

/-- Of a new sequencer all flags are those of the round before the first. -/
lemma flagsUpTo_initial (b : BufferSize) (g : Gating ι) :
    FlagsUpTo { bufferSize := b, gating := g } INITIAL_VALUE := by
  intro q hq hq'
  simp only [INITIAL_VALUE, getBufferSize] at hq hq'
  rw [isAvailable_eq_true]
  exact (calculateAvailabilityFlag_initial b (by omega) hq').symm

/-- The flags depend on the buffer only. -/
lemma FlagsUpTo.of_eq {m m' : MultiProducerSequencer ι} {hi : Int} (h : m.FlagsUpTo hi)
    (hsize : m'.bufferSize = m.bufferSize) (hflags : m'.availableBuffer = m.availableBuffer) :
    m'.FlagsUpTo hi := by
  intro q hq hq'
  simp only [getBufferSize, hsize] at hq
  have hq := h q hq hq'
  rw [isAvailable_eq_true] at hq ⊢
  rw [hsize, hflags]
  exact hq

lemma FlagsUpTo.setAvailable {m : MultiProducerSequencer ι} {hi : Int} (h : m.FlagsUpTo hi) :
    (m.setAvailable (hi + 1)).FlagsUpTo (hi + 1) := by
  have hsize := m.bufferSize.size_pos
  intro q hq hq'
  simp only [getBufferSize, setAvailable_bufferSize] at hq
  rw [isAvailable_eq_true]
  by_cases heq : q = hi + 1
  · subst heq
    simp [MultiProducerSequencer.setAvailable]
  · have hne : calculateIndex m.bufferSize q ≠ calculateIndex m.bufferSize (hi + 1) := fun he =>
      heq ((isSlotMap_calculateIndex m.bufferSize).eq_of_window hq (by omega) (by omega)
        (by omega) he)
    simp only [MultiProducerSequencer.setAvailable, Function.update_of_ne hne]
    exact isAvailable_eq_true.mp (h q (by simp only [getBufferSize]; omega) (by omega))

lemma FlagsUpTo.publishFrom {m : MultiProducerSequencer ι} {hi : Int} (h : m.FlagsUpTo hi)
    (count : Nat) : (m.publishFrom (hi + 1) count).FlagsUpTo (hi + count) := by
  induction count generalizing m hi with
  | zero => simpa [MultiProducerSequencer.publishFrom] using h
  | succ count ih =>
    have hstep := ih h.setAvailable
    have hend : hi + 1 + (count : Int) = hi + ((count + 1 : Nat) : Int) := by omega
    rw [hend] at hstep
    exact hstep

/-- Publishing a claim of `n` right after `hi`. -/
lemma FlagsUpTo.publishRange {m : MultiProducerSequencer ι} {hi n : Int} (h : m.FlagsUpTo hi)
    (hn : 1 ≤ n) : (m.publishRange (hi + n - n + 1) (hi + n)).FlagsUpTo (hi + n) := by
  have hlo : hi + n - n + 1 = hi + 1 := by omega
  have hcount : hi + n + 1 - (hi + 1) = n := by omega
  have hend : hi + (n.toNat : Int) = hi + n := by omega
  rw [MultiProducerSequencer.publishRange, hlo, hcount, ← hend]
  exact h.publishFrom n.toNat

lemma publishRange_cursor (m : MultiProducerSequencer ι) (lo hi : Int) :
    (m.publishRange lo hi).cursor = m.cursor := by
  obtain ⟨flags, h⟩ := m.publishFrom_eq lo (hi + 1 - lo).toNat
  rw [MultiProducerSequencer.publishRange, h]

/-- Around a window whose flags are all set, exactly the sequences of the window are available:
fewer than `2 ^ 32` laps away no other sequence has the round flag of its slot. -/
lemma FlagsUpTo.isAvailable_iff {m : MultiProducerSequencer ι} {hi q : Int} (h : m.FlagsUpTo hi)
    (hlow : hi - 2 * m.getBufferSize < q) (hhigh : q < hi + 2 * m.getBufferSize) :
    m.isAvailable q = true ↔ q ≤ hi ∧ q > hi - m.getBufferSize := by
  constructor
  · intro hq
    -- the sequence of the window that shares the slot of `q`
    have hsize : 0 < m.getBufferSize := m.bufferSize.size_pos
    have hdiv := Int.mul_ediv_add_emod (hi - q) m.getBufferSize
    have hnonneg := Int.emod_nonneg (hi - q) hsize.ne'
    have hlt := Int.emod_lt_of_pos (hi - q) hsize
    obtain ⟨w, hw⟩ : ∃ w, w = hi - (hi - q) % m.getBufferSize := ⟨_, rfl⟩
    have hslot : calculateIndex m.bufferSize q = calculateIndex m.bufferSize w := by
      rw [(isSlotMap_calculateIndex m.bufferSize) q w, hw]
      show q % m.getBufferSize = (hi - (hi - q) % m.getBufferSize) % m.getBufferSize
      rw [Int.sub_emod_emod, sub_sub_cancel]
    have havail := h w (by omega) (by omega)
    rw [isAvailable_eq_true] at hq havail
    have hflag : calculateAvailabilityFlag m.bufferSize q =
        calculateAvailabilityFlag m.bufferSize w := by
      rw [← hq, ← havail, hslot]
    have hqw : q = w := by
      refine eq_of_index_of_flag m.bufferSize hslot hflag ?_
      show |q - w| < 2 ^ 32 * m.getBufferSize
      rw [abs_lt]
      omega
    omega
  · rintro ⟨hle, hgt⟩
    exact h q (by omega) hle

/-- When every flag from the lower bound on is set, nothing is cut off. -/
lemma highestPublishedFrom_eq {m : MultiProducerSequencer ι} (availableSequence : Int)
    {sequence : Int} {count : Nat}
    (h : ∀ q, sequence ≤ q → q < sequence + count → m.isAvailable q = true) :
    m.highestPublishedFrom availableSequence sequence count = availableSequence := by
  induction count generalizing sequence with
  | zero => rfl
  | succ count ih =>
    rw [highestPublishedFrom, if_pos (h sequence le_rfl (by omega))]
    exact ih fun q hq hq' => h q (by omega) (by push_cast at *; omega)

/-- What is published depends on the flags only. -/
lemma getHighestPublishedSequence_of_eq {m m' : MultiProducerSequencer ι}
    (hsize : m'.bufferSize = m.bufferSize) (hflags : m'.availableBuffer = m.availableBuffer)
    (lo hi : Int) : m'.getHighestPublishedSequence lo hi = m.getHighestPublishedSequence lo hi := by
  have hfrom : ∀ count sequence,
      m'.highestPublishedFrom hi sequence count = m.highestPublishedFrom hi sequence count := by
    intro count
    induction count with
    | zero => exact fun _ => rfl
    | succ count ih =>
      intro sequence
      rw [highestPublishedFrom, highestPublishedFrom, ih, isAvailable, isAvailable, hsize, hflags]
  exact hfrom _ _

end MultiProducerSequencer

end Disruptor
