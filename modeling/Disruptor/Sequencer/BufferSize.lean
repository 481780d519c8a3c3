import Disruptor.Core.Window
import Mathlib.Tactic.Ring

/-!
# Buffer sizes and the encoding of sequences

A ring has `2 ^ shift` slots with `shift ≤ 30`: the size is a positive 32-bit `int`. Sequences
are 64-bit integers, modelled by `Int`; the slot and the round of a sequence are computed in
32 bits, which the model keeps (`static_cast<int>` is `BitVec.ofInt 32`).
-/

namespace Disruptor

/-- The size of a ring, a power of two that fits a 32-bit `int`. -/
structure BufferSize where
  indexShift : Nat
  indexShift_le : indexShift ≤ 30
  deriving DecidableEq

namespace BufferSize

/-- `bufferSize_`. -/
def size (b : BufferSize) : Int := 2 ^ b.indexShift

/-- `indexMask_ = bufferSize - 1`. -/
def indexMask (b : BufferSize) : Int := b.size - 1

lemma size_pos (b : BufferSize) : 0 < b.size := by
  simp [size]

lemma size_eq_cast (b : BufferSize) : b.size = ((2 ^ b.indexShift : Nat) : Int) := by
  simp [size]

lemma pow_indexShift_le (b : BufferSize) : 2 ^ b.indexShift ≤ 2 ^ 30 :=
  Nat.pow_le_pow_right (by decide) b.indexShift_le

lemma size_dvd (b : BufferSize) : b.size ∣ 2 ^ 32 := by
  have : (2 : Int) ^ b.indexShift ∣ 2 ^ 32 :=
    pow_dvd_pow 2 (b.indexShift_le.trans (by decide))
  simpa [size] using this

end BufferSize

/-! ### `static_cast<int>` and the slot index -/

/-- `MultiProducerSequencer::calculateIndex`: `static_cast<int>(sequence) & indexMask_`. -/
def calculateIndex (b : BufferSize) (sequence : Int) : Int :=
  (BitVec.ofInt 32 sequence &&& BitVec.ofInt 32 b.indexMask).toInt

/-- `MultiProducerSequencer::calculateAvailabilityFlag`:
`static_cast<int>(sequence >> indexShift_)`. -/
def calculateAvailabilityFlag (b : BufferSize) (sequence : Int) : Int :=
  (BitVec.ofInt 32 (sequence >>> b.indexShift)).toInt

/-- `RingBuffer::BUFFER_PAD`. -/
def BUFFER_PAD : Int := 32

/-- `RingBuffer::elementAt`: the index into `entries_` at which the event of a sequence is. -/
def elementAt (b : BufferSize) (sequence : Int) : Int :=
  BUFFER_PAD + (BitVec.ofInt 32 sequence &&& BitVec.ofInt 32 b.indexMask).toInt

lemma toNat_indexMask (b : BufferSize) :
    (BitVec.ofInt 32 b.indexMask).toNat = 2 ^ b.indexShift - 1 := by
  have hle := b.pow_indexShift_le
  have hpos : 0 < 2 ^ b.indexShift := Nat.pow_pos (by decide)
  have hmask : b.indexMask = ((2 ^ b.indexShift - 1 : Nat) : Int) := by
    rw [BufferSize.indexMask, BufferSize.size_eq_cast]
    omega
  rw [hmask, BitVec.ofInt_natCast, BitVec.toNat_ofNat]
  exact Nat.mod_eq_of_lt (by omega)

/-- The slot index is the sequence modulo the size, in spite of the truncation. -/
lemma calculateIndex_eq_emod (b : BufferSize) (sequence : Int) :
    calculateIndex b sequence = sequence % b.size := by
  have hle := b.pow_indexShift_le
  have hlow : 0 ≤ sequence % 2 ^ 32 := Int.emod_nonneg _ (by decide)
  have hnat : (BitVec.ofInt 32 sequence &&& BitVec.ofInt 32 b.indexMask).toNat
      = (sequence % 2 ^ 32).toNat % 2 ^ b.indexShift := by
    rw [BitVec.toNat_and, toNat_indexMask, Nat.and_two_pow_sub_one_eq_mod, BitVec.toNat_ofInt]
    rfl
  have hlt : (sequence % 2 ^ 32).toNat % 2 ^ b.indexShift < 2 ^ b.indexShift :=
    Nat.mod_lt _ (Nat.pow_pos (by decide))
  rw [calculateIndex, BitVec.toInt_eq_toNat_of_lt (by omega), hnat, Int.natCast_mod,
    Int.toNat_of_nonneg hlow, ← b.size_eq_cast, Int.emod_emod_of_dvd _ b.size_dvd]

lemma elementAt_eq (b : BufferSize) (sequence : Int) :
    elementAt b sequence = BUFFER_PAD + sequence % b.size := by
  rw [← calculateIndex_eq_emod]
  rfl

lemma isSlotMap_calculateIndex (b : BufferSize) : Core.IsSlotMap b.size (calculateIndex b) := by
  intro s t
  rw [calculateIndex_eq_emod, calculateIndex_eq_emod]

lemma isSlotMap_elementAt (b : BufferSize) : Core.IsSlotMap b.size (elementAt b) := by
  intro s t
  rw [elementAt_eq, elementAt_eq, add_right_inj]

/-- The flag determines the round of a sequence modulo `2 ^ 32`. -/
lemma calculateAvailabilityFlag_eq_iff (b : BufferSize) (s t : Int) :
    calculateAvailabilityFlag b s = calculateAvailabilityFlag b t ↔
      (s / b.size) % 2 ^ 32 = (t / b.size) % 2 ^ 32 := by
  rw [calculateAvailabilityFlag, calculateAvailabilityFlag, BitVec.toInt_inj,
    Int.shiftRight_eq_div_pow, Int.shiftRight_eq_div_pow, ← b.size_eq_cast,
    ← BitVec.toNat_inj, BitVec.toNat_ofInt, BitVec.toNat_ofInt]
  have hs : 0 ≤ (s / b.size) % 2 ^ 32 := Int.emod_nonneg _ (by decide)
  have ht : 0 ≤ (t / b.size) % 2 ^ 32 := Int.emod_nonneg _ (by decide)
  constructor
  · intro h
    exact Int.toNat_of_nonneg hs ▸ Int.toNat_of_nonneg ht ▸ congrArg Nat.cast h
  · intro h
    exact congrArg Int.toNat h

/-- Slot and round flag together determine a sequence up to `2 ^ 32` laps. -/
theorem eq_of_index_of_flag (b : BufferSize) {s t : Int}
    (hindex : calculateIndex b s = calculateIndex b t)
    (hflag : calculateAvailabilityFlag b s = calculateAvailabilityFlag b t)
    (hlt : |s - t| < 2 ^ 32 * b.size) : s = t := by
  rw [calculateIndex_eq_emod, calculateIndex_eq_emod] at hindex
  rw [calculateAvailabilityFlag_eq_iff] at hflag
  obtain ⟨q, hq⟩ : (2 ^ 32 : Int) ∣ s / b.size - t / b.size :=
    Int.dvd_of_emod_eq_zero (Int.emod_eq_emod_iff_emod_sub_eq_zero.mp hflag)
  have hs := Int.mul_ediv_add_emod s b.size
  have ht := Int.mul_ediv_add_emod t b.size
  have hdiff : s - t = 2 ^ 32 * b.size * q := by
    calc s - t = b.size * (s / b.size - t / b.size) := by
          rw [Int.mul_sub]; omega
      _ = 2 ^ 32 * b.size * q := by rw [hq]; ring
  exact sub_eq_zero.mp (Int.eq_zero_of_abs_lt_dvd ⟨q, hdiff⟩ hlt)

/-- Before any publication each slot is in round `-1`: the flag of the sequences `-N .. -1`. -/
lemma calculateAvailabilityFlag_initial (b : BufferSize) {s : Int} (hs : -b.size ≤ s)
    (hs' : s ≤ -1) : calculateAvailabilityFlag b s = -1 := by
  have hdiv : s / b.size = -1 := by
    refine (Int.ediv_eq_iff_of_pos b.size_pos).mpr ?_
    omega
  rw [calculateAvailabilityFlag, Int.shiftRight_eq_div_pow, ← b.size_eq_cast, hdiv]
  decide

end Disruptor
