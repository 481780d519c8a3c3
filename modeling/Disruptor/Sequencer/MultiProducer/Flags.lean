import Disruptor.Sequencer.MultiProducer.Basic
import Mathlib.Order.Bounds.Defs

/-!
# The flags of a lap

A slot is shared by all sequences that are equal modulo the size of the buffer, and its flag is the
number of a round, cut to 32 bits. Above a position that all consumers of a buffer have reached, the
flags of one lap tell which of its sequences are published.
-/

namespace Disruptor.MultiProducerSequencer

variable {ι : Type*}

/-- In the lap above `v`, the flag of a slot is the one of its sequence when that is published, and
the one of the sequence a lap below when it is not. -/
def FlagsAbove (m : MultiProducerSequencer ι) (published : Int → Bool) (v : Int) : Prop :=
  ∀ s, v < s → s ≤ v + m.getBufferSize →
    m.availableBuffer (calculateIndex m.bufferSize s) =
      calculateAvailabilityFlag m.bufferSize (if published s then s else s - m.getBufferSize)

variable {m m' : MultiProducerSequencer ι} {published : Int → Bool} {v v' s : Int}

lemma flagsAbove_initial (b : BufferSize) (g : Gating ι) :
    FlagsAbove { bufferSize := b, gating := g } (fun _ => false) INITIAL_VALUE := by
  intro s hs hs'
  simp only [INITIAL_VALUE, getBufferSize] at hs hs'
  have hflag := calculateAvailabilityFlag_initial b (s := s - b.size) (by omega) (by omega)
  exact hflag.symm

/-- The flags depend on the buffer only. -/
lemma FlagsAbove.of_eq (h : m.FlagsAbove published v) (hsize : m'.bufferSize = m.bufferSize)
    (hflags : m'.availableBuffer = m.availableBuffer) : m'.FlagsAbove published v := by
  intro s hs hs'
  simp only [getBufferSize, hsize, hflags] at hs' ⊢
  exact h s hs hs'

/-- A sequence of the lap is published. -/
lemma FlagsAbove.setAvailable (h : m.FlagsAbove published v) (hs : v < s)
    (hs' : s ≤ v + m.getBufferSize) :
    (m.setAvailable s).FlagsAbove (Function.update published s true) v := by
  intro t ht ht'
  by_cases hts : t = s
  · subst hts
    simp [MultiProducerSequencer.setAvailable]
  · have hne : calculateIndex m.bufferSize t ≠ calculateIndex m.bufferSize s :=
      fun he => hts ((isSlotMap_calculateIndex _).eq_of_window ht ht' hs hs' he)
    simp only [MultiProducerSequencer.setAvailable, Function.update_of_ne hts,
      Function.update_of_ne hne]
    exact h t ht ht'

/-- The lap moves up over published sequences while none above it is published. -/
lemma FlagsAbove.advance (h : m.FlagsAbove published v)
    (hpublished : ∀ s, v < s → s ≤ v' → published s = true)
    (hbeyond : ∀ s, published s = true → s ≤ v + m.getBufferSize) (hle : v ≤ v') :
    m.FlagsAbove published v' := by
  intro s hs hs'
  by_cases hlap : s ≤ v + m.getBufferSize
  · exact h s (by omega) hlap
  · -- the slot still holds the flag of the sequence a lap below, which is published
    have hunpublished : published s ≠ true := fun hp => hlap (hbeyond s hp)
    have hbelow := hpublished (s - m.getBufferSize) (by omega) (by omega)
    have hflag := h (s - m.getBufferSize) (by omega) (hbeyond _ hbelow)
    have hslot := (isSlotMap_calculateIndex m.bufferSize).sub_lap s
    rw [if_pos hbelow] at hflag
    rw [if_neg hunpublished, ← hslot]
    exact hflag

/-- The flags are exact for all but one of the laps that 32 bits can tell apart. -/
theorem FlagsAbove.isAvailable_iff (h : m.FlagsAbove published v)
    (hbeyond : ∀ s, published s = true → s ≤ v + m.getBufferSize) (hs : v < s)
    (hs' : s ≤ v + (2 ^ 32 - 1) * m.getBufferSize) :
    m.isAvailable s = true ↔ published s = true := by
  have hsize : 0 < m.bufferSize.size := m.bufferSize.size_pos
  have hslots := isSlotMap_calculateIndex m.bufferSize
  simp only [getBufferSize] at hs' hbeyond
  -- the sequence of the lap above `v` that shares the slot of `s`
  obtain ⟨t, ht, ht', hslot, hle⟩ : ∃ t, v < t ∧ t ≤ v + m.bufferSize.size ∧
      calculateIndex m.bufferSize s = calculateIndex m.bufferSize t ∧ t ≤ s := by
    have hdiv := Int.mul_ediv_add_emod (s - v - 1) m.bufferSize.size
    have hnonneg := Int.emod_nonneg (s - v - 1) hsize.ne'
    have hlt := Int.emod_lt_of_pos (s - v - 1) hsize
    have hquot : 0 ≤ m.bufferSize.size * ((s - v - 1) / m.bufferSize.size) :=
      mul_nonneg hsize.le (Int.ediv_nonneg (by omega) hsize.le)
    refine ⟨v + 1 + (s - v - 1) % m.bufferSize.size, by omega, by omega, ?_, by omega⟩
    rw [hslots]
    have hsplit : s = v + 1 + (s - v - 1) % m.bufferSize.size +
        m.bufferSize.size * ((s - v - 1) / m.bufferSize.size) := by omega
    conv_lhs => rw [hsplit, Int.add_mul_emod_self_left]
  have hflag := h t ht ht'
  rw [← hslot] at hflag
  rw [isAvailable_eq_true]
  constructor
  · intro havailable
    rw [havailable] at hflag
    split_ifs at hflag with hpublished
    · have heq := eq_of_index_of_flag _ hslot hflag (by rw [abs_lt]; omega)
      rw [heq]
      exact hpublished
    · have heq := eq_of_index_of_flag _ (hslot.trans (hslots.sub_lap t).symm) hflag (by
        rw [abs_lt]
        omega)
      omega
  · intro hpublished
    have heq : s = t :=
      hslots.eq_of_window hs (hbeyond s hpublished) ht ht' hslot
    rw [heq] at hpublished hflag ⊢
    rw [if_pos hpublished] at hflag
    exact hflag

/-- The flag of the first sequence that is not published is not set, nor is any set by mistake up to
there. -/
theorem FlagsAbove.isAvailable_iff_of_below (h : m.FlagsAbove published v)
    (hbeyond : ∀ s, published s = true → s ≤ v + m.getBufferSize) (hs : v < s)
    (hbelow : ∀ t, v < t → t < s → published t = true) :
    m.isAvailable s = true ↔ published s = true := by
  have hsize := m.bufferSize.size_pos
  have hprevious : s - 1 ≤ v + m.getBufferSize := by
    by_cases hfirst : s - 1 ≤ v
    · simp only [getBufferSize]
      omega
    · exact hbeyond (s - 1) (hbelow (s - 1) (not_le.mp hfirst) (by omega))
  apply h.isAvailable_iff hbeyond hs
  simp only [getBufferSize] at hprevious ⊢
  omega

/-- The sequences up to which all from `lo` on are published. -/
def PublishedUpTo (published : Int → Bool) (lo hi : Int) : Set Int :=
  {h | lo - 1 ≤ h ∧ h ≤ hi ∧ ∀ s, lo ≤ s → s ≤ h → published s = true}

/-- Where the flags are exact, the loop stops below the first sequence that is not published. -/
lemma highestPublishedFrom_isGreatest {lo hi : Int} {count : Nat} (hcount : lo + count = hi + 1)
    (hexact : ∀ s, lo ≤ s → s ≤ hi → (m.isAvailable s = true ↔ published s = true)) :
    IsGreatest (PublishedUpTo published lo hi) (m.highestPublishedFrom hi lo count) := by
  induction count generalizing lo with
  | zero =>
    refine ⟨⟨?_, le_rfl, ?_⟩, fun h hh => hh.2.1⟩
    · simp only [highestPublishedFrom]
      push_cast at hcount
      omega
    · intro s hs hs'
      simp only [highestPublishedFrom] at hs'
      push_cast at hcount
      omega
  | succ count ih =>
    push_cast at hcount
    rw [highestPublishedFrom]
    have hlo := hexact lo le_rfl (by omega)
    split_ifs with havailable
    · have hnext : lo + 1 + (count : Int) = hi + 1 := by omega
      have hexact' : ∀ s, lo + 1 ≤ s → s ≤ hi → (m.isAvailable s = true ↔ published s = true) :=
        fun s hs hs' => hexact s (by omega) hs'
      obtain ⟨⟨hge, hle, hall⟩, hub⟩ := ih hnext hexact'
      refine ⟨⟨by omega, hle, ?_⟩, ?_⟩
      · intro s hs hs'
        by_cases heq : s = lo
        · rw [heq]
          exact hlo.mp havailable
        · exact hall s (by omega) hs'
      · intro h hh
        by_cases hlt : h < lo
        · omega
        · exact hub ⟨by omega, hh.2.1, fun s hs hs' => hh.2.2 s (by omega) hs'⟩
    · refine ⟨⟨le_rfl, by omega, fun s hs hs' => by omega⟩, ?_⟩
      intro h hh
      by_contra hlt
      exact havailable (hlo.mpr (hh.2.2 lo le_rfl (by omega)))

end Disruptor.MultiProducerSequencer
