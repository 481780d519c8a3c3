import Disruptor.Core.Run
import Disruptor.Sequencer.Claiming

/-!
# Complete operations with claims outstanding

Operations that run to completion one after another, while claims may wait to be published. Where
a claim has room is decided from a cached gating value; here is what each operation makes of that
value, for both sequencers at once.
-/

namespace Disruptor

open Disruptor.Core

variable {ι : Type*}

namespace Sequencer

/-! ### Capacity -/

/-- `tryNext(n)`; a multi-producer sequencer's compare-exchange fails spuriously `spurious`
times. -/
def tryNext (q : Sequencer ι) (n : Int) (values : ι → Int) (spurious : Nat) :
    Except Error Int × Sequencer ι :=
  match q with
  | .single s => ((s.tryNext n values).1, .single (s.tryNext n values).2)
  | .multi m => ((m.tryNext n values spurious).1, .multi (m.tryNext n values spurious).2)

def remainingCapacity (q : Sequencer ι) (values : ι → Int) : Int × Sequencer ι :=
  match q with
  | .single s => ((s.remainingCapacity values).1, .single (s.remainingCapacity values).2)
  | .multi m => ((m.remainingCapacity values).1, .multi (m.remainingCapacity values).2)

/-- `cachedValue_`, or the value of `gatingSequenceCache_`. -/
def cached : Sequencer ι → Int
  | .single s => s.cachedValue
  | .multi m => m.gatingSequenceCache

/-- The last sequence that `n` more claims would overwrite. -/
def wrapPoint (q : Sequencer ι) (n : Int) : Int := q.claimed + n - q.bufferSize.size

/-- The minimum of the gating sequences and of what is claimed. -/
def minimum (q : Sequencer ι) (values : ι → Int) : Int :=
  Disruptor.getMinimumSequence values q.gatingList q.claimed

/-- The cached gating value settles that `n` more sequences fit. -/
def Cached (q : Sequencer ι) (n : Int) : Prop := q.wrapPoint n ≤ q.cached ∧ q.cached ≤ q.claimed

variable {q q' : Sequencer ι} {values values' : ι → Int} {n hi : Int} {passes : List (ι → Int)}

lemma single_cached_iff (s : SingleProducerSequencer ι) :
    (Sequencer.single s).Cached n ↔ ¬ s.CacheExhausted n := by
  rw [SingleProducerSequencer.CacheExhausted, not_or, not_lt, not_lt]
  rfl

lemma multi_cached_iff (m : MultiProducerSequencer ι) :
    (Sequencer.multi m).Cached n ↔ ¬ m.CacheExhausted m.cursor n := by
  rw [MultiProducerSequencer.CacheExhausted, not_or, not_lt, not_lt]
  rfl

/-- What looking at the gating sequences, or claiming, does: the cached gating value is kept or
is now their minimum. -/
structure Refreshes (q : Sequencer ι) (values : ι → Int) (q' : Sequencer ι) : Prop where
  bufferSize : q'.bufferSize = q.bufferSize
  gatingSequences : q'.gating.gatingSequences = q.gating.gatingSequences
  coherent : q'.gating.Coherent
  cached : q'.cached = q.cached ∨ q'.cached = q.minimum values
  claimed : q.claimed ≤ q'.claimed

lemma Refreshes.gatingList (h : q.Refreshes values q') : q'.gatingList = q.gatingList :=
  congrArg Snapshot.sequences h.gatingSequences

/-! ### What each operation does -/

lemma hasAvailableCapacity_spec (h : q.gating.Coherent) (n : Int) (values : ι → Int) :
    ((q.hasAvailableCapacity n values).1 = true ↔
        q.Cached n ∨ q.wrapPoint n ≤ q.minimum values) ∧
      q.Refreshes values (q.hasAvailableCapacity n values).2 ∧
      (q.hasAvailableCapacity n values).2.claimed = q.claimed := by
  cases q with
  | single s =>
    rw [single_cached_iff]
    by_cases hcache : s.CacheExhausted n
    · have hmin := h.minimumSequence_fst values s.nextValue
      simp only [hasAvailableCapacity, SingleProducerSequencer.hasAvailableCapacity,
        SingleProducerSequencer.hasAvailableCapacityStoring, if_pos hcache]
      refine ⟨?_, ⟨rfl, s.gating.minimumSequence_gatingSequences values s.nextValue,
        h.minimumSequence values s.nextValue, Or.inr hmin, le_rfl⟩, rfl⟩
      rw [decide_eq_true_iff]
      constructor
      · exact fun hle => Or.inr (hle.trans hmin.le)
      · exact fun hor => (hor.resolve_left (not_not.mpr hcache)).trans hmin.ge
    · simp only [hasAvailableCapacity, SingleProducerSequencer.hasAvailableCapacity,
        SingleProducerSequencer.hasAvailableCapacityStoring, if_neg hcache]
      exact ⟨⟨fun _ => Or.inl hcache, fun _ => trivial⟩, ⟨rfl, rfl, h, Or.inl rfl, le_rfl⟩, trivial⟩
  | multi m =>
    rw [multi_cached_iff]
    by_cases hcache : m.CacheExhausted m.cursor n
    · simp only [hasAvailableCapacity, MultiProducerSequencer.hasAvailableCapacity,
        MultiProducerSequencer.hasAvailableCapacityFrom, if_pos hcache]
      refine ⟨?_, ⟨rfl, rfl, h, Or.inr rfl, le_rfl⟩, rfl⟩
      rw [decide_eq_true_iff]
      constructor
      · exact Or.inr
      · exact fun hor => hor.resolve_left (not_not.mpr hcache)
    · simp only [hasAvailableCapacity, MultiProducerSequencer.hasAvailableCapacity,
        MultiProducerSequencer.hasAvailableCapacityFrom, if_neg hcache]
      exact ⟨⟨fun _ => Or.inl hcache, fun _ => trivial⟩, ⟨rfl, rfl, h, Or.inl rfl, le_rfl⟩, trivial⟩

lemma remainingCapacity_spec (h : q.gating.Coherent) (values : ι → Int) :
    (q.remainingCapacity values).1 = q.bufferSize.size - (q.claimed - q.minimum values) ∧
      q.Refreshes values (q.remainingCapacity values).2 ∧
      (q.remainingCapacity values).2.claimed = q.claimed := by
  cases q with
  | single s =>
    have hmin := h.minimumSequence_fst values s.nextValue
    refine ⟨?_, ⟨rfl, s.gating.minimumSequence_gatingSequences values s.nextValue,
      h.minimumSequence values s.nextValue, Or.inl rfl, le_rfl⟩, rfl⟩
    simp only [remainingCapacity, SingleProducerSequencer.remainingCapacity,
      SingleProducerSequencer.minimumSequence]
    exact congrArg (fun m => _ - (_ - m)) hmin
  | multi m =>
    have hmin := h.minimumSequence_fst values m.cursor
    refine ⟨?_, ⟨rfl, m.gating.minimumSequence_gatingSequences values m.cursor,
      h.minimumSequence values m.cursor, Or.inl rfl, le_rfl⟩, rfl⟩
    simp only [remainingCapacity, MultiProducerSequencer.remainingCapacity,
      MultiProducerSequencer.minimumSequence]
    exact congrArg (fun m => _ - (_ - m)) hmin

/-- `tryNext` claims the next `n` sequences when they fit, and else claims nothing. -/
lemma tryNext_spec (h : q.gating.Coherent) (n : Int) (values : ι → Int) (spurious : Nat) :
    (1 ≤ n ∧ (q.Cached n ∨ q.wrapPoint n ≤ q.minimum values) ∧
        (q.tryNext n values spurious).1 = .ok (q.claimed + n) ∧
        (q.tryNext n values spurious).2.claimed = q.claimed + n ∨
      ¬ (1 ≤ n ∧ (q.Cached n ∨ q.wrapPoint n ≤ q.minimum values)) ∧
        (∃ e, (q.tryNext n values spurious).1 = .error e) ∧
        (q.tryNext n values spurious).2.claimed = q.claimed) ∧
      q.Refreshes values (q.tryNext n values spurious).2 := by
  by_cases hn : n < 1
  · have hnot : ¬ (1 ≤ n ∧ (q.Cached n ∨ q.wrapPoint n ≤ q.minimum values)) :=
      fun hle => absurd hle.1 (not_le.mpr hn)
    cases q with
    | single s =>
      simp only [tryNext, SingleProducerSequencer.tryNext, if_pos hn]
      exact ⟨Or.inr ⟨hnot, ⟨_, rfl⟩, trivial⟩, ⟨rfl, rfl, h, Or.inl rfl, le_rfl⟩⟩
    | multi m =>
      simp only [tryNext, MultiProducerSequencer.tryNext, if_pos hn]
      exact ⟨Or.inr ⟨hnot, ⟨_, rfl⟩, trivial⟩, ⟨rfl, rfl, h, Or.inl rfl, le_rfl⟩⟩
  · have hpos : 1 ≤ n := not_lt.mp hn
    cases q with
    | single s =>
      rw [single_cached_iff]
      simp only [tryNext, SingleProducerSequencer.tryNext, if_neg hn,
        SingleProducerSequencer.hasAvailableCapacityStoring]
      have hclaimed : s.nextValue ≤ s.nextValue + n := by omega
      by_cases hcache : s.CacheExhausted n
      · have hmin := h.minimumSequence_fst values s.nextValue
        have hlist := s.gating.minimumSequence_gatingSequences values s.nextValue
        have hcoherent := h.minimumSequence values s.nextValue
        simp only [if_pos hcache, if_true]
        by_cases hroom : s.wrapPoint n ≤ (s.gating.minimumSequence values s.nextValue).1
        · simp only [SingleProducerSequencer.minimumSequence, hroom, decide_true, if_true]
          refine ⟨Or.inl ⟨hpos, Or.inr (hroom.trans hmin.le), rfl, rfl⟩, ?_⟩
          exact ⟨rfl, hlist, hcoherent, Or.inr hmin, hclaimed⟩
        · simp only [SingleProducerSequencer.minimumSequence, hroom, decide_false,
            Bool.false_eq_true, if_false]
          refine ⟨Or.inr ⟨?_, ⟨_, rfl⟩, rfl⟩, ⟨rfl, hlist, hcoherent, Or.inr hmin, le_rfl⟩⟩
          rintro ⟨-, hnot | hle⟩
          · exact hnot hcache
          · exact hroom (le_trans hle hmin.ge)
      · simp only [if_neg hcache, if_true]
        exact ⟨Or.inl ⟨hpos, Or.inl hcache, rfl, rfl⟩, ⟨rfl, rfl, h, Or.inl rfl, hclaimed⟩⟩
    | multi m =>
      rw [multi_cached_iff]
      simp only [tryNext, MultiProducerSequencer.tryNext, if_neg hn,
        MultiProducerSequencer.tryNextLoop_eq, MultiProducerSequencer.tryNextLoop,
        MultiProducerSequencer.hasAvailableCapacityFrom]
      have hclaimed : m.cursor ≤ m.cursor + n := by omega
      by_cases hcache : m.CacheExhausted m.cursor n
      · simp only [if_pos hcache]
        by_cases hroom : m.wrapPoint m.cursor n ≤ Disruptor.getMinimumSequence values
            m.gating.gatingSequences.sequences m.cursor
        · simp only [hroom, decide_true, if_true]
          exact ⟨Or.inl ⟨hpos, Or.inr hroom, rfl, rfl⟩, ⟨rfl, rfl, h, Or.inr rfl, hclaimed⟩⟩
        · simp only [hroom, decide_false, Bool.false_eq_true, if_false]
          refine ⟨Or.inr ⟨?_, ⟨_, rfl⟩, rfl⟩, ⟨rfl, rfl, h, Or.inr rfl, le_rfl⟩⟩
          rintro ⟨-, hnot | hle⟩
          · exact hnot hcache
          · exact hroom hle
      · simp only [if_neg hcache, if_true]
        exact ⟨Or.inl ⟨hpos, Or.inl hcache, rfl, rfl⟩, ⟨rfl, rfl, h, Or.inl rfl, hclaimed⟩⟩

/-- `next` rejects `n`, or claims the next `n` sequences once they fit. -/
lemma next_spec (h : q.gating.Coherent) {r : Except String Int}
    (hs : q.next n values passes = some (r, values', q')) :
    (values' = values ∧ q' = q ∧ (n < 1 ∨ n > q.bufferSize.size) ∧ ∃ e, r = .error e) ∨
      (1 ≤ n ∧ n ≤ q.bufferSize.size ∧ r = .ok (q.claimed + n) ∧ q'.claimed = q.claimed + n ∧
        values' ∈ values :: passes ∧ q.Refreshes values' q' ∧
        (q.Cached n ∨ q.wrapPoint n ≤ q.minimum values')) := by
  cases q with
  | single s =>
    simp only [next, Option.map_eq_some_iff, Prod.mk.injEq] at hs
    obtain ⟨⟨r, v, s'⟩, hs, rfl, rfl, rfl⟩ := hs
    simp only [SingleProducerSequencer.next] at hs
    split_ifs at hs with hn hcache
    · obtain ⟨rfl, heq⟩ := Prod.mk.inj (Option.some.inj hs)
      obtain ⟨rfl, rfl⟩ := Prod.mk.inj heq
      exact Or.inl ⟨rfl, rfl, hn, _, rfl⟩
    · simp only [Option.map_eq_some_iff, Prod.mk.injEq] at hs
      obtain ⟨⟨m, v₁, g⟩, hwait, rfl, rfl, rfl⟩ := hs
      obtain ⟨hmin, hle, hlist, hcoherent⟩ := Gating.Coherent.waitMinimumSequence h hwait
      have hpos : 1 ≤ n := by omega
      refine Or.inr ⟨hpos, not_lt.mp (mt Or.inr hn), rfl, rfl, Gating.waitMinimumSequence_mem hwait,
        ⟨rfl, hlist, hcoherent, Or.inr hmin, ?_⟩, Or.inr (hle.trans hmin.le)⟩
      show s.nextValue ≤ s.nextValue + n
      omega
    · obtain ⟨rfl, heq⟩ := Prod.mk.inj (Option.some.inj hs)
      obtain ⟨rfl, rfl⟩ := Prod.mk.inj heq
      have hpos : 1 ≤ n := by omega
      refine Or.inr ⟨hpos, not_lt.mp (mt Or.inr hn), rfl, rfl, List.mem_cons_self,
        ⟨rfl, rfl, h, Or.inl rfl, ?_⟩, Or.inl ((single_cached_iff s).mpr hcache)⟩
      show s.nextValue ≤ s.nextValue + n
      omega
  | multi m =>
    simp only [next, Option.map_eq_some_iff, Prod.mk.injEq] at hs
    obtain ⟨⟨r, v, m'⟩, hs, rfl, rfl, rfl⟩ := hs
    simp only [MultiProducerSequencer.next] at hs
    split_ifs at hs with hn hcache
    · obtain ⟨rfl, heq⟩ := Prod.mk.inj (Option.some.inj hs)
      obtain ⟨rfl, rfl⟩ := Prod.mk.inj heq
      exact Or.inl ⟨rfl, rfl, hn, _, rfl⟩
    · simp only [Option.map_eq_some_iff, Prod.mk.injEq] at hs
      obtain ⟨⟨minSequence, v₁, g⟩, hwait, rfl, rfl, rfl⟩ := hs
      obtain ⟨hmin, hle, hlist, hcoherent⟩ := Gating.Coherent.waitMinimumSequence h hwait
      have hpos : 1 ≤ n := by omega
      refine Or.inr ⟨hpos, not_lt.mp (mt Or.inr hn), rfl, rfl, Gating.waitMinimumSequence_mem hwait,
        ⟨rfl, hlist, hcoherent, Or.inr hmin, ?_⟩, Or.inr (hle.trans hmin.le)⟩
      show m.cursor ≤ m.cursor + n
      omega
    · obtain ⟨rfl, heq⟩ := Prod.mk.inj (Option.some.inj hs)
      obtain ⟨rfl, rfl⟩ := Prod.mk.inj heq
      have hpos : 1 ≤ n := by omega
      refine Or.inr ⟨hpos, not_lt.mp (mt Or.inr hn), rfl, rfl, List.mem_cons_self,
        ⟨rfl, rfl, h, Or.inl rfl, ?_⟩, Or.inl ((multi_cached_iff m).mpr hcache)⟩
      show m.cursor ≤ m.cursor + n
      omega

/-- `next` returns without waiting exactly when the sequences fit. -/
lemma next_isSome_iff (h : q.gating.Coherent) (hpos : 1 ≤ n) (hsize : n ≤ q.bufferSize.size)
    (values : ι → Int) :
    (q.next n values []).isSome = true ↔ q.Cached n ∨ q.wrapPoint n ≤ q.minimum values := by
  cases q with
  | single s =>
    have hn : ¬ (n < 1 ∨ n > s.getBufferSize) := not_or.mpr ⟨not_lt.mpr hpos, not_lt.mpr hsize⟩
    have hmin := h.minimumSequence_fst values s.nextValue
    rw [single_cached_iff]
    simp only [next, SingleProducerSequencer.next, if_neg hn, Option.isSome_map]
    by_cases hcache : s.CacheExhausted n
    · simp only [if_pos hcache, Option.isSome_map, Gating.waitMinimumSequence]
      split_ifs with hwait
      · refine ⟨by rintro ⟨⟩, ?_⟩
        rintro (hnot | hle)
        · exact absurd hcache hnot
        · exact absurd (hle.trans hmin.ge) (not_le.mpr hwait)
      · exact ⟨fun _ => Or.inr ((not_lt.mp hwait).trans hmin.le), fun _ => rfl⟩
    · simp only [if_neg hcache]
      exact ⟨fun _ => Or.inl hcache, fun _ => rfl⟩
  | multi m =>
    have hn : ¬ (n < 1 ∨ n > m.getBufferSize) := not_or.mpr ⟨not_lt.mpr hpos, not_lt.mpr hsize⟩
    have hmin := h.minimumSequence_fst values m.cursor
    rw [multi_cached_iff]
    simp only [next, MultiProducerSequencer.next, if_neg hn, Option.isSome_map]
    by_cases hcache : m.CacheExhausted m.cursor n
    · simp only [if_pos hcache, Option.isSome_map, Gating.waitMinimumSequence]
      split_ifs with hwait
      · refine ⟨by rintro ⟨⟩, ?_⟩
        rintro (hnot | hle)
        · exact absurd hcache hnot
        · exact absurd (hle.trans hmin.ge) (not_le.mpr hwait)
      · exact ⟨fun _ => Or.inr ((not_lt.mp hwait).trans hmin.le), fun _ => rfl⟩
    · simp only [if_neg hcache]
      exact ⟨fun _ => Or.inl hcache, fun _ => rfl⟩

/-- Publishing touches neither what is claimed nor what is cached. -/
lemma publishRange_refreshes (h : q.gating.Coherent) (lo hi : Int) (values : ι → Int) :
    q.Refreshes values (q.publishRange lo hi) := by
  cases q with
  | single s => exact ⟨rfl, rfl, h, Or.inl rfl, le_rfl⟩
  | multi m =>
    obtain ⟨flags, heq⟩ := m.publishFrom_eq lo (hi + 1 - lo).toNat
    simp only [publishRange, MultiProducerSequencer.publishRange, heq]
    exact ⟨rfl, rfl, h, Or.inl rfl, le_rfl⟩

/-! ### The cached gating value -/

/-- The cached pointer is current, and the cached value ahead of neither a gating sequence nor
what is claimed. -/
structure CacheSound (q : Sequencer ι) (values : ι → Int) : Prop where
  coherent : q.gating.Coherent
  cached_le_claimed : q.cached ≤ q.claimed
  cached_le : ∀ i, some i ∈ q.gatingList → q.cached ≤ values i

lemma cacheSound_initial (producerType : ProducerType) (b : BufferSize) (values : ι → Int) :
    (initial producerType b {}).CacheSound values := by
  cases producerType with
  | SINGLE => exact ⟨Gating.coherent_default, le_rfl, by rintro i ⟨⟩⟩
  | MULTI => exact ⟨Gating.coherent_default, le_rfl, by rintro i ⟨⟩⟩

lemma CacheSound.mono (h : q.CacheSound values)
    (hv : ∀ i, some i ∈ q.gatingList → values i ≤ values' i) : q.CacheSound values' :=
  ⟨h.coherent, h.cached_le_claimed, fun i hi => (h.cached_le i hi).trans (hv i hi)⟩

lemma CacheSound.cached_le_minimum (h : q.CacheSound values) : q.cached ≤ q.minimum values :=
  le_getMinimumSequence_iff.mpr ⟨h.cached_le_claimed, h.cached_le⟩

/-- What the cached value settles is so. -/
lemma CacheSound.fits_iff (h : q.CacheSound values) :
    q.Cached n ∨ q.wrapPoint n ≤ q.minimum values ↔ q.wrapPoint n ≤ q.minimum values := by
  constructor
  · rintro (hcached | hle)
    · exact hcached.1.trans h.cached_le_minimum
    · exact hle
  · exact Or.inr

lemma CacheSound.refreshes (h : q.CacheSound values) (hr : q.Refreshes values q') :
    q'.CacheSound values := by
  have hmin : q'.cached ≤ q.minimum values := by
    rcases hr.cached with heq | heq
    · exact heq.le.trans h.cached_le_minimum
    · exact heq.le
  obtain ⟨hclaimed, hgating⟩ := le_getMinimumSequence_iff.mp hmin
  refine ⟨hr.coherent, hclaimed.trans hr.claimed, ?_⟩
  rw [hr.gatingList]
  exact hgating

/-- What fits laps no gating sequence. -/
lemma CacheSound.room (h : q.CacheSound values)
    (hfits : q.Cached n ∨ q.wrapPoint n ≤ q.minimum values) :
    ∀ i, some i ∈ q.gatingList → q.claimed + n - q.bufferSize.size ≤ values i :=
  (le_getMinimumSequence_iff.mp (h.fits_iff.mp hfits)).2

section

variable [DecidableEq ι]

/-- Sequences that are added at a cursor that the cached value is not ahead of. -/
lemma CacheSound.addGatingSequences (h : q.CacheSound values) {l : List (Option ι)}
    (hcursor : ∀ i, some i ∈ l → q.cached ≤ q.getCursor) :
    (q.addGatingSequences values l).2.CacheSound (q.addGatingSequences values l).1 := by
  have hcached : (q.addGatingSequences values l).2.cached = q.cached := by
    cases q <;> rfl
  have hclaimed : (q.addGatingSequences values l).2.claimed = q.claimed := by
    cases q <;> rfl
  refine ⟨?_, ?_, ?_⟩
  · cases q with
    | single s => exact s.gating.coherent_addGatingSequences values s.cursor l
    | multi m => exact m.gating.coherent_addGatingSequences values m.cursor l
  · rw [hcached, hclaimed]
    exact h.cached_le_claimed
  · intro i hi
    rw [hcached, addGatingSequences_values]
    rw [addGatingSequences_gatingList] at hi
    split_ifs with hnew
    · exact hcursor i hnew
    · exact h.cached_le i ((List.mem_append.mp hi).resolve_right hnew)

lemma CacheSound.removeGatingSequence (h : q.CacheSound values) (i : ι) :
    (q.removeGatingSequence i).2.CacheSound values := by
  refine ⟨?_, ?_, ?_⟩
  · cases q with
    | single s => exact s.gating.coherent_removeGatingSequence i
    | multi m => exact m.gating.coherent_removeGatingSequence i
  · cases q <;> exact h.cached_le_claimed
  · intro j hj
    have hold := h.cached_le j (mem_removeGatingSequence.mp hj).1
    cases q <;> exact hold

end

end Sequencer

/-! ### Runs -/

/-- An operation that runs to completion; `advance` is what the consumers do. -/
inductive CompleteOperation (ι : Type*) where
  | next (n : Int) (passes : List (ι → Int))
  | tryNext (n : Int) (spurious : Nat)
  | hasAvailableCapacity (n : Int)
  | remainingCapacity
  | publish (lo hi : Int)
  | addGatingSequences (gatingSequences : List (Option ι))
  | removeGatingSequence (sequence : ι)
  | advance (values : ι → Int)

/-- A sequencer with the values of the sequences. -/
structure InUse (ι : Type*) where
  sequencer : Sequencer ι
  values : ι → Int

namespace InUse

/-- Perform an operation; `none` when `next` still waits after the given passes of its loop. -/
def step [DecidableEq ι] (u : InUse ι) : CompleteOperation ι → Option (InUse ι)
  | .next n passes => (u.sequencer.next n u.values passes).map fun r => ⟨r.2.2, r.2.1⟩
  | .tryNext n spurious => some ⟨(u.sequencer.tryNext n u.values spurious).2, u.values⟩
  | .hasAvailableCapacity n => some ⟨(u.sequencer.hasAvailableCapacity n u.values).2, u.values⟩
  | .remainingCapacity => some ⟨(u.sequencer.remainingCapacity u.values).2, u.values⟩
  | .publish lo hi => some ⟨u.sequencer.publishRange lo hi, u.values⟩
  | .addGatingSequences l =>
    some ⟨(u.sequencer.addGatingSequences u.values l).2,
      (u.sequencer.addGatingSequences u.values l).1⟩
  | .removeGatingSequence i => some ⟨(u.sequencer.removeGatingSequence i).2, u.values⟩
  | .advance values => some ⟨u.sequencer, values⟩

/-- Nothing has been done yet. -/
def initial (producerType : ProducerType) (b : BufferSize) (values : ι → Int) : InUse ι :=
  ⟨Sequencer.initial producerType b {}, values⟩

/-- No gating sequence goes back, at once or while `next` waits. -/
def Advances (u : InUse ι) : CompleteOperation ι → Prop
  | .next _ passes =>
    ∀ later ∈ passes, ∀ i, some i ∈ u.sequencer.gatingList → u.values i ≤ later i
  | .advance values => ∀ i, some i ∈ u.sequencer.gatingList → u.values i ≤ values i
  | _ => True

/-- Added sequences start where the cached value is not ahead of them. -/
def AddsBehind (u : InUse ι) : CompleteOperation ι → Prop
  | .addGatingSequences l => ∀ i, some i ∈ l → u.sequencer.cached ≤ u.sequencer.getCursor
  | _ => True

variable [DecidableEq ι] {u u' : InUse ι} {op : CompleteOperation ι}

/-- An operation keeps the cached value sound; what it claims laps no gating sequence. -/
theorem step_cacheSound (h : u.sequencer.CacheSound u.values) (hadvances : u.Advances op)
    (hadds : u.AddsBehind op) (hs : u.step op = some u') :
    u'.sequencer.CacheSound u'.values ∧
      (u.sequencer.claimed < u'.sequencer.claimed → ∀ i, some i ∈ u.sequencer.gatingList →
        u'.sequencer.claimed - u.sequencer.bufferSize.size ≤ u'.values i) := by
  have hkept : ∀ q : Sequencer ι, q.claimed = u.sequencer.claimed →
      u.sequencer.claimed < q.claimed → ∀ i, some i ∈ u.sequencer.gatingList →
        q.claimed - u.sequencer.bufferSize.size ≤ u.values i :=
    fun q heq hlt => absurd hlt heq.not_gt
  cases op with
  | next n passes =>
    simp only [step, Option.map_eq_some_iff] at hs
    obtain ⟨⟨r, values', q'⟩, hnext, rfl⟩ := hs
    rcases Sequencer.next_spec h.coherent hnext with ⟨rfl, rfl, -, -⟩ |
      ⟨-, -, -, hclaimed, hmem, hrefreshes, hfits⟩
    · exact ⟨h, fun hlt => absurd hlt (lt_irrefl _)⟩
    · have hv : ∀ i, some i ∈ u.sequencer.gatingList → u.values i ≤ values' i := by
        rcases List.mem_cons.mp hmem with rfl | hlater
        · exact fun i _ => le_rfl
        · exact hadvances values' hlater
      refine ⟨(h.mono hv).refreshes hrefreshes, ?_⟩
      intro _
      show ∀ i, _ → q'.claimed - _ ≤ values' i
      rw [hclaimed]
      exact (h.mono hv).room hfits
  | tryNext n spurious =>
    obtain rfl := Option.some.inj hs
    obtain ⟨hcases, hrefreshes⟩ := Sequencer.tryNext_spec h.coherent n u.values spurious
    refine ⟨h.refreshes hrefreshes, ?_⟩
    rcases hcases with ⟨-, hfits, -, hclaimed⟩ | ⟨-, -, hclaimed⟩
    · intro _
      show ∀ i, _ → (u.sequencer.tryNext n u.values spurious).2.claimed - _ ≤ u.values i
      rw [hclaimed]
      exact h.room hfits
    · exact hkept _ hclaimed
  | hasAvailableCapacity n =>
    obtain rfl := Option.some.inj hs
    obtain ⟨-, hrefreshes, hclaimed⟩ := Sequencer.hasAvailableCapacity_spec h.coherent n u.values
    exact ⟨h.refreshes hrefreshes, hkept _ hclaimed⟩
  | remainingCapacity =>
    obtain rfl := Option.some.inj hs
    obtain ⟨-, hrefreshes, hclaimed⟩ := Sequencer.remainingCapacity_spec h.coherent u.values
    exact ⟨h.refreshes hrefreshes, hkept _ hclaimed⟩
  | publish lo hi =>
    obtain rfl := Option.some.inj hs
    exact ⟨h.refreshes (Sequencer.publishRange_refreshes h.coherent lo hi u.values),
      hkept _ (Sequencer.claimed_publishRange _ lo hi)⟩
  | addGatingSequences l =>
    obtain rfl := Option.some.inj hs
    refine ⟨h.addGatingSequences hadds, ?_⟩
    have hclaimed : (u.sequencer.addGatingSequences u.values l).2.claimed =
        u.sequencer.claimed := by
      cases u.sequencer <;> rfl
    exact fun hlt => absurd hlt hclaimed.not_gt
  | removeGatingSequence i =>
    obtain rfl := Option.some.inj hs
    refine ⟨h.removeGatingSequence i, hkept _ ?_⟩
    cases u.sequencer <;> rfl
  | advance values =>
    obtain rfl := Option.some.inj hs
    exact ⟨h.mono hadvances, fun hlt => absurd hlt (lt_irrefl _)⟩

end InUse

end Disruptor
