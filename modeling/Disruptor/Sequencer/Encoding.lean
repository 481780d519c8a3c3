import Disruptor.Sequencer.BufferSize
import Mathlib.Data.Nat.Size

/-!
# The encoding of sequences in machine integers

The slot index, the availability flag and the index of an event as they are computed: from 64-bit
sequences, through casts to 32 bits, with the fields that the constructors compute from the size of
the ring. They are the functions on integers that the rest of the model uses.
-/

namespace Disruptor.Encoding

/-- `Util::log2(value)`, where `std::bit_width` counts the bits of a number. -/
def log2 (value : BitVec 32) : Except String (BitVec 32) :=
  if value.toInt < 1 then .error "value must be a positive number"
  else .ok (BitVec.ofNat 32 value.toNat.size - 1)

/-- What a sequencer and a ring check of the size of the ring. -/
def checkBufferSize (bufferSize : BitVec 32) : Except String Unit :=
  if bufferSize.toInt < 1 then .error "bufferSize must not be less than 1"
  else if bufferSize &&& (bufferSize - 1) ≠ 0 then .error "bufferSize must be a power of 2"
  else .ok ()

/-! ### `MultiProducerSequencer` -/

/-- The fields of a `MultiProducerSequencer` that the encoding depends on. -/
structure MultiProducerSequencer where
  indexMask : BitVec 32
  indexShift : BitVec 32

namespace MultiProducerSequencer

/-- The constructor. -/
def construct (bufferSize : BitVec 32) : Except String MultiProducerSequencer := do
  checkBufferSize bufferSize
  let indexShift ← log2 bufferSize
  return { indexMask := bufferSize - 1, indexShift := indexShift }

/-- `calculateIndex(sequence)`. -/
def calculateIndex (q : MultiProducerSequencer) (sequence : BitVec 64) : BitVec 32 :=
  sequence.setWidth 32 &&& q.indexMask

/-- `calculateAvailabilityFlag(sequence)`. -/
def calculateAvailabilityFlag (q : MultiProducerSequencer) (sequence : BitVec 64) : BitVec 32 :=
  (sequence.sshiftRight q.indexShift.toNat).setWidth 32

end MultiProducerSequencer

/-! ### `RingBuffer` -/

/-- The field of a `RingBuffer` that the encoding depends on. -/
structure RingBuffer where
  indexMask : BitVec 64

namespace RingBuffer

/-- The constructor, as far as the size of the ring goes. -/
def construct (bufferSize : BitVec 32) : Except String RingBuffer := do
  checkBufferSize bufferSize
  return { indexMask := (bufferSize - 1).signExtend 64 }

/-- `elementAt(sequence)`: the index into `entries_`, a `size_t`. -/
def elementAt (rb : RingBuffer) (sequence : BitVec 64) : BitVec 64 :=
  (BitVec.ofInt 32 BUFFER_PAD + (sequence.setWidth 32 &&& rb.indexMask.setWidth 32)).signExtend 64

end RingBuffer

/-! ### Casts -/

/-- A sequence cast to 32 bits. -/
lemma setWidth_eq_ofInt (sequence : BitVec 64) :
    sequence.setWidth 32 = BitVec.ofInt 32 sequence.toInt := by
  apply BitVec.eq_of_toNat_eq
  have hlt := sequence.isLt
  simp only [BitVec.toNat_setWidth, BitVec.toNat_ofInt, BitVec.toInt_eq_toNat_cond]
  split_ifs <;> omega

/-- A mask that was widened is the same when it is cast back. -/
lemma setWidth_signExtend (x : BitVec 32) : (x.signExtend 64).setWidth 32 = x := by
  rw [setWidth_eq_ofInt, BitVec.toInt_signExtend_of_le (by decide), BitVec.ofInt_toInt]

/-- A number that is not negative keeps its value when it is widened. -/
lemma toNat_signExtend_of_lt {x : BitVec 32} (h : x.toNat < 2 ^ 31) :
    (x.signExtend 64).toNat = x.toNat := by
  have hmsb : x.msb = false := by
    rw [BitVec.msb_eq_decide, decide_eq_false_iff_not]
    omega
  rw [BitVec.signExtend_eq_setWidth_of_msb_false hmsb, BitVec.toNat_setWidth]
  apply Nat.mod_eq_of_lt
  omega

/-! ### The size of a ring -/

variable (b : BufferSize)

/-- The size of a ring as an `int`. -/
def bufferSize : BitVec 32 := BitVec.ofInt 32 b.size

lemma toNat_bufferSize : (bufferSize b).toNat = 2 ^ b.indexShift := by
  have hle := b.pow_indexShift_le
  rw [bufferSize, BufferSize.size_eq_cast, BitVec.ofInt_natCast, BitVec.toNat_ofNat]
  apply Nat.mod_eq_of_lt
  omega

lemma toInt_bufferSize : (bufferSize b).toInt = b.size := by
  have hle := b.pow_indexShift_le
  have hlt : 2 * (bufferSize b).toNat < 2 ^ 32 := by
    rw [toNat_bufferSize]
    omega
  rw [BitVec.toInt_eq_toNat_of_lt hlt, toNat_bufferSize, BufferSize.size_eq_cast]

lemma toNat_sub_one {n : BitVec 32} (h : n.toNat ≠ 0) : (n - 1).toNat = n.toNat - 1 := by
  have hlt := n.isLt
  rw [BitVec.toNat_sub]
  simp
  omega

lemma bufferSize_sub_one : bufferSize b - 1 = BitVec.ofInt 32 b.indexMask := by
  apply BitVec.eq_of_toNat_eq
  rw [toNat_indexMask, toNat_sub_one, toNat_bufferSize]
  rw [toNat_bufferSize]
  exact (Nat.pow_pos (by decide)).ne'

/-- The sizes that the constructors accept are the powers of two up to `2 ^ 30`. -/
theorem checkBufferSize_eq_ok {n : BitVec 32} :
    checkBufferSize n = .ok () ↔ ∃ b : BufferSize, n = bufferSize b := by
  have hpower : n.toNat ≠ 0 → (n &&& (n - 1) = 0 ↔ n.toNat.isPowerOfTwo) := by
    intro hzero
    rw [← Nat.and_sub_one_eq_zero_iff_isPowerOfTwo hzero, ← toNat_sub_one hzero,
      ← BitVec.toNat_and]
    exact ⟨fun h => congrArg BitVec.toNat h, fun h => BitVec.eq_of_toNat_eq h⟩
  unfold checkBufferSize
  constructor
  · intro h
    split_ifs at h with hpos hpow
    rw [BitVec.toInt_eq_toNat_cond] at hpos
    split_ifs at hpos with hsmall
    · obtain ⟨k, hk⟩ := (hpower (by omega)).mp (not_not.mp hpow)
      have hle : k ≤ 30 := by
        by_contra hlarge
        have hpow : 2 ^ 31 ≤ 2 ^ k := Nat.pow_le_pow_right (by decide) (by omega)
        omega
      refine ⟨⟨k, hle⟩, ?_⟩
      apply BitVec.eq_of_toNat_eq
      rw [toNat_bufferSize, hk]
    · have := n.isLt
      omega
  · rintro ⟨b, rfl⟩
    have hpos := b.size_pos
    rw [if_neg, if_neg]
    · rw [not_not, hpower]
      · exact ⟨b.indexShift, toNat_bufferSize b⟩
      · rw [toNat_bufferSize]
        exact (Nat.pow_pos (by decide)).ne'
    · rw [toInt_bufferSize]
      omega

lemma log2_bufferSize : log2 (bufferSize b) = .ok (BitVec.ofNat 32 b.indexShift) := by
  have hpos := b.size_pos
  rw [log2, if_neg, toNat_bufferSize, Nat.size_pow]
  · rw [BitVec.ofNat_add]
    congr 1
    exact BitVec.add_sub_cancel _ 1#32
  · rw [toInt_bufferSize]
    omega

/-! ### The fields and functions of the two classes -/

lemma construct_sequencer :
    MultiProducerSequencer.construct (bufferSize b) =
      .ok ⟨BitVec.ofInt 32 b.indexMask, BitVec.ofNat 32 b.indexShift⟩ := by
  have hcheck := checkBufferSize_eq_ok.mpr ⟨b, rfl⟩
  simp only [MultiProducerSequencer.construct, hcheck, log2_bufferSize, bufferSize_sub_one]
  rfl

lemma construct_ringBuffer :
    RingBuffer.construct (bufferSize b) = .ok ⟨(BitVec.ofInt 32 b.indexMask).signExtend 64⟩ := by
  have hcheck := checkBufferSize_eq_ok.mpr ⟨b, rfl⟩
  simp only [RingBuffer.construct, hcheck, bufferSize_sub_one]
  rfl

variable {b} {q : MultiProducerSequencer} {rb : RingBuffer}

/-- The slot index of a sequence is that of the model. -/
lemma toInt_calculateIndex (hq : MultiProducerSequencer.construct (bufferSize b) = .ok q)
    (s : BitVec 64) : (q.calculateIndex s).toInt = Disruptor.calculateIndex b s.toInt := by
  rw [construct_sequencer] at hq
  obtain rfl := Except.ok.inj hq
  rw [MultiProducerSequencer.calculateIndex, setWidth_eq_ofInt]
  rfl

/-- The availability flag of a sequence is that of the model. -/
lemma toInt_calculateAvailabilityFlag
    (hq : MultiProducerSequencer.construct (bufferSize b) = .ok q) (s : BitVec 64) :
    (q.calculateAvailabilityFlag s).toInt = Disruptor.calculateAvailabilityFlag b s.toInt := by
  have hshift : (BitVec.ofNat 32 b.indexShift).toNat = b.indexShift := by
    have := b.indexShift_le
    apply Nat.mod_eq_of_lt
    omega
  rw [construct_sequencer] at hq
  obtain rfl := Except.ok.inj hq
  rw [MultiProducerSequencer.calculateAvailabilityFlag, setWidth_eq_ofInt,
    BitVec.toInt_sshiftRight, hshift]
  rfl

/-- The index of an event is that of the model. -/
lemma toNat_elementAt (hrb : RingBuffer.construct (bufferSize b) = .ok rb) (s : BitVec 64) :
    ((rb.elementAt s).toNat : Int) = Disruptor.elementAt b s.toInt := by
  have hle := b.pow_indexShift_le
  rw [construct_ringBuffer] at hrb
  obtain rfl := Except.ok.inj hrb
  rw [RingBuffer.elementAt, setWidth_signExtend, setWidth_eq_ofInt, Disruptor.elementAt]
  generalize hx : BitVec.ofInt 32 s.toInt &&& BitVec.ofInt 32 b.indexMask = x
  have hlt : x.toNat < 2 ^ 30 := by
    have hmod : x.toNat = (BitVec.ofInt 32 s.toInt).toNat % 2 ^ b.indexShift := by
      rw [← hx, BitVec.toNat_and, toNat_indexMask, Nat.and_two_pow_sub_one_eq_mod]
    rw [hmod]
    exact (Nat.mod_lt _ (Nat.pow_pos (by decide))).trans_le hle
  have hsum : (BitVec.ofInt 32 BUFFER_PAD + x).toNat = 32 + x.toNat := by
    have hpad : (BitVec.ofInt 32 BUFFER_PAD).toNat = 32 := by decide
    rw [BitVec.toNat_add, hpad]
    apply Nat.mod_eq_of_lt
    omega
  rw [toNat_signExtend_of_lt (by omega), hsum, BitVec.toInt_eq_toNat_of_lt (by omega)]
  rfl

/-- For every size of a ring, the sequences are encoded faithfully: the index of an event and the
slot of its flag are the sequence modulo the size, sequences of one window have different slots, and
slot and flag together tell sequences apart that are less than `2 ^ 32` laps apart. -/
theorem encoding_faithful (b : BufferSize) :
    ∃ q rb, MultiProducerSequencer.construct (bufferSize b) = .ok q ∧
      RingBuffer.construct (bufferSize b) = .ok rb ∧
      (∀ s, ((rb.elementAt s).toNat : Int) - BUFFER_PAD = (q.calculateIndex s).toInt ∧
        0 ≤ (q.calculateIndex s).toInt ∧ (q.calculateIndex s).toInt < b.size ∧
        (q.calculateIndex s).toInt = s.toInt % b.size) ∧
      (∀ (lo : Int) (s t : BitVec 64), lo ≤ s.toInt → s.toInt < lo + b.size → lo ≤ t.toInt →
        t.toInt < lo + b.size → q.calculateIndex s = q.calculateIndex t → s = t) ∧
      ∀ s t : BitVec 64, |s.toInt - t.toInt| < 2 ^ (32 + b.indexShift) →
        ((q.calculateIndex s, q.calculateAvailabilityFlag s) =
          (q.calculateIndex t, q.calculateAvailabilityFlag t) ↔ s = t) := by
  refine ⟨_, _, construct_sequencer b, construct_ringBuffer b, ?_, ?_, ?_⟩
  · intro s
    have hindex := toInt_calculateIndex (construct_sequencer b) s
    have helement := toNat_elementAt (construct_ringBuffer b) s
    have hpos := b.size_pos
    rw [calculateIndex_eq_emod] at hindex
    rw [elementAt_eq] at helement
    rw [helement, hindex]
    refine ⟨?_, ?_, ?_, rfl⟩
    · apply add_sub_cancel_left
    · exact Int.emod_nonneg _ hpos.ne'
    · exact Int.emod_lt_of_pos _ hpos
  · intro lo s t hs hs' ht ht' heq
    have hindex := congrArg BitVec.toInt heq
    rw [toInt_calculateIndex (construct_sequencer b), toInt_calculateIndex (construct_sequencer b)]
      at hindex
    apply BitVec.eq_of_toInt_eq
    refine (isSlotMap_calculateIndex b).eq_of_lt hindex ?_
    rw [abs_lt]
    omega
  · intro s t hlt
    refine ⟨?_, by rintro rfl; rfl⟩
    intro heq
    obtain ⟨hindex, hflag⟩ := Prod.mk.inj heq
    replace hindex := congrArg BitVec.toInt hindex
    replace hflag := congrArg BitVec.toInt hflag
    rw [toInt_calculateIndex (construct_sequencer b), toInt_calculateIndex (construct_sequencer b)]
      at hindex
    rw [toInt_calculateAvailabilityFlag (construct_sequencer b),
      toInt_calculateAvailabilityFlag (construct_sequencer b)] at hflag
    apply BitVec.eq_of_toInt_eq
    refine eq_of_index_of_flag b hindex hflag ?_
    rwa [BufferSize.size, ← pow_add]

/-- Of a ring of eight, `2 ^ 32 - 1` and `2 ^ 32` follow one another across the end of the low word,
and `5` and `2 ^ 32 + 5` have the same low word. -/
theorem encoding_faithful_acrossWords :
    ∃ q rb, MultiProducerSequencer.construct (bufferSize ⟨3, by decide⟩) = .ok q ∧
      RingBuffer.construct (bufferSize ⟨3, by decide⟩) = .ok rb ∧
      (q.calculateIndex (BitVec.ofNat 64 (2 ^ 32 - 1))).toInt = 7 ∧
      q.calculateIndex (BitVec.ofNat 64 (2 ^ 32 - 1)) ≠
        q.calculateIndex (BitVec.ofNat 64 (2 ^ 32)) ∧
      (q.calculateIndex 5, q.calculateAvailabilityFlag 5) ≠
        (q.calculateIndex (BitVec.ofNat 64 (2 ^ 32 + 5)),
          q.calculateAvailabilityFlag (BitVec.ofNat 64 (2 ^ 32 + 5))) := by
  obtain ⟨q, rb, hq, hrb, hslot, hwindow, hpair⟩ := encoding_faithful ⟨3, by decide⟩
  refine ⟨q, rb, hq, hrb, ?_, ?_, ?_⟩
  · rw [(hslot _).2.2.2]
    decide
  · intro heq
    exact absurd (hwindow (2 ^ 32 - 4) _ _ (by decide) (by decide) (by decide) (by decide) heq)
      (by decide)
  · rw [ne_eq, hpair _ _ (by decide)]
    decide

end Disruptor.Encoding
