import Disruptor.Sequencer.Calls
import Disruptor.Sequencer.MultiProducer.Basic

/-!
# `MultiProducerSequencer`, step by step

The calls of any number of producers in atomic steps: the fetch-add and the weak compare-exchange
on the cursor, the reads and writes of `gatingSequenceCache_`, and the gating sequences read one
after another.
-/

namespace Disruptor.MultiProducerSequencer

variable {ι : Type*}

/-- Where `hasAvailableCapacity(gatingSequences, requiredCapacity, cursorValue)` is. -/
inductive CapacityCall (ι : Type*) where
  | readCache (gatingSequences : Snapshot ι)
  | scan (rest : List (Option ι)) (minSequence : Int)
  | storeCache (minSequence : Int)

/-- One atomic step of `hasAvailableCapacity`, or its result. -/
def capacityStep (m : MultiProducerSequencer ι) (values : ι → Int) (n cursorValue : Int) :
    CapacityCall ι → (CapacityCall ι ⊕ Bool) × MultiProducerSequencer ι
  | .readCache snap =>
    if m.CacheExhausted cursorValue n then (.inl (.scan snap.sequences cursorValue), m)
    else (.inr true, m)
  | .scan [] minSequence => (.inl (.storeCache minSequence), m)
  | .scan (seq :: rest) minSequence =>
    (.inl (.scan rest (Disruptor.minimumStep values minSequence seq)), m)
  | .storeCache minSequence =>
    (.inr (decide (m.wrapPoint cursorValue n ≤ minSequence)),
      { m with gatingSequenceCache := minSequence })

/-- Where a call is. -/
inductive ClaimCall (ι : Type*) where
  /-- In `next(n)`, before `cursor_.getAndAdd(n)`. -/
  | nextAdd (n : Int)
  /-- In `next(n)`, before `gatingSequenceCache_.get()`. -/
  | nextReadCache (n current : Int)
  /-- In the wait loop of `next(n)`. -/
  | nextWait (n current : Int) (call : MinimumCall ι)
  /-- In `next(n)`, before `gatingSequenceCache_.set(gatingSequence)`. -/
  | nextStoreCache (n current gatingSequence : Int)
  /-- In `tryNext(n)`, before `cursor_.get()`. -/
  | tryReadCursor (n : Int)
  /-- In `tryNext(n)`, before `gatingSequences_.load()`. -/
  | tryLoad (n current : Int)
  | tryCapacity (n current : Int) (call : CapacityCall ι)
  /-- In `tryNext(n)`, before `cursor_.compareAndSet(current, next)`. -/
  | tryCompareAndSet (n current : Int)
  /-- In `hasAvailableCapacity(n)`, before `gatingSequences_.load()`. -/
  | capacityLoad (n : Int)
  /-- In `hasAvailableCapacity(n)`, before `cursor_.get()`. -/
  | capacityReadCursor (n : Int) (gatingSequences : Snapshot ι)
  | capacity (n cursorValue : Int) (call : CapacityCall ι)
  /-- In `remainingCapacity()`, before the first `cursor_.get()`. -/
  | remainingReadCursor
  | remaining (current : Int) (call : MinimumCall ι)
  /-- In `remainingCapacity()`, before the second `cursor_.get()`. -/
  | remainingProduced

/-- A producer calls an operation: the checks before the first shared access. -/
def enter (m : MultiProducerSequencer ι) : ClaimOperation → ClaimResult (ClaimCall ι)
  | .next n => if n < 1 ∨ n > m.getBufferSize then .ended else .running (.nextAdd n)
  | .tryNext n => if n < 1 then .ended else .running (.tryReadCursor n)
  | .hasAvailableCapacity n => .running (.capacityLoad n)
  | .remainingCapacity => .running .remainingReadCursor

/-- One atomic step of `minimumSequence(current)`. -/
def minimumStep (m : MultiProducerSequencer ι) (values : ι → Int) (current : Int)
    (call : MinimumCall ι) : (MinimumCall ι ⊕ Int) × MultiProducerSequencer ι :=
  let r := call.step m.gating values current
  (r.1, { m with gating := r.2 })

/-- One atomic step of a call; the weak compare-exchange may fail spuriously. -/
def callStep (m : MultiProducerSequencer ι) (values : ι → Int) (spurious : Bool) :
    ClaimCall ι → ClaimResult (ClaimCall ι) × MultiProducerSequencer ι
  | .nextAdd n => (.running (.nextReadCache n m.cursor), { m with cursor := m.cursor + n })
  | .nextReadCache n current =>
    if m.CacheExhausted current n then (.running (.nextWait n current .readCache), m)
    else (.claimed (current + 1) (current + n), m)
  | .nextWait n current call =>
    match m.minimumStep values current call with
    | (.inl call', m) => (.running (.nextWait n current call'), m)
    | (.inr gatingSequence, m) =>
      if m.wrapPoint current n > gatingSequence then (.running (.nextWait n current .readCache), m)
      else (.running (.nextStoreCache n current gatingSequence), m)
  | .nextStoreCache n current gatingSequence =>
    (.claimed (current + 1) (current + n), { m with gatingSequenceCache := gatingSequence })
  | .tryReadCursor n => (.running (.tryLoad n m.cursor), m)
  | .tryLoad n current =>
    (.running (.tryCapacity n current (.readCache m.gating.gatingSequences)), m)
  | .tryCapacity n current call =>
    match m.capacityStep values n current call with
    | (.inl call', m) => (.running (.tryCapacity n current call'), m)
    | (.inr true, m) => (.running (.tryCompareAndSet n current), m)
    | (.inr false, m) => (.ended, m)
  | .tryCompareAndSet n current =>
    if m.cursor = current ∧ spurious = false then
      (.claimed (current + 1) (current + n), { m with cursor := current + n })
    else (.running (.tryReadCursor n), m)
  | .capacityLoad n => (.running (.capacityReadCursor n m.gating.gatingSequences), m)
  | .capacityReadCursor n snap => (.running (.capacity n m.cursor (.readCache snap)), m)
  | .capacity n cursorValue call =>
    match m.capacityStep values n cursorValue call with
    | (.inl call', m) => (.running (.capacity n cursorValue call'), m)
    | (.inr _, m) => (.ended, m)
  | .remainingReadCursor => (.running (.remaining m.cursor .readCache), m)
  | .remaining current call =>
    match m.minimumStep values current call with
    | (.inl call', m) => (.running (.remaining current call'), m)
    | (.inr _, m) => (.running .remainingProduced, m)
  | .remainingProduced => (.ended, m)

/-! ### Claims stay within the ring -/

/-- The gating list is fixed, and the cached gating value is not ahead of the gating sequences. -/
structure Safe (m : MultiProducerSequencer ι) (values : ι → Int) (sequences : List (Option ι)) :
    Prop where
  gating : m.gating.Holds sequences
  cached_le : ∀ i, some i ∈ sequences → m.gatingSequenceCache ≤ values i

/-- There is room for the claim of `n` after `current`. -/
def HasRoom (m : MultiProducerSequencer ι) (values : ι → Int) (sequences : List (Option ι))
    (hi : Int) : Prop :=
  ∀ i, some i ∈ sequences → hi - m.getBufferSize ≤ values i

/-- What a capacity check knows: the minimum so far is a lower bound of the values already
read. -/
def CapacityCall.Knows (values : ι → Int) (sequences : List (Option ι)) : CapacityCall ι → Prop
  | .readCache snap => snap.sequences = sequences
  | .scan rest minSequence =>
    ∀ i, some i ∈ sequences → some i ∈ rest ∨ minSequence ≤ values i
  | .storeCache minSequence => ∀ i, some i ∈ sequences → minSequence ≤ values i

/-- What a call knows at each of its places. -/
def ClaimCall.Knows (m : MultiProducerSequencer ι) (values : ι → Int)
    (sequences : List (Option ι)) : ClaimCall ι → Prop
  | .nextAdd n | .tryReadCursor n | .tryLoad n _ => 1 ≤ n
  | .nextReadCache n _ => 1 ≤ n
  | .nextWait n current call => 1 ≤ n ∧ call.Bounds values current sequences
  | .nextStoreCache n current gatingSequence =>
    1 ≤ n ∧ m.HasRoom values sequences (current + n) ∧
      ∀ i, some i ∈ sequences → gatingSequence ≤ values i
  | .tryCapacity n _ call => 1 ≤ n ∧ call.Knows values sequences
  | .tryCompareAndSet n current => 1 ≤ n ∧ m.HasRoom values sequences (current + n)
  | .capacityReadCursor _ snap => snap.sequences = sequences
  | .capacity _ _ call => call.Knows values sequences
  | .remaining current call => call.Bounds values current sequences
  | _ => True

/-- The range that a call has taken off the cursor and not been granted yet. -/
def ClaimCall.taken : ClaimCall ι → Option (Int × Int)
  | .nextReadCache n current | .nextWait n current _ | .nextStoreCache n current _ =>
    some (current + 1, current + n)
  | _ => none

/-- What a step of a call leaves behind, for a call that had taken the range `taken`. -/
def Sound (m m' : MultiProducerSequencer ι) (values : ι → Int) (sequences : List (Option ι))
    (taken : Option (Int × Int)) : ClaimResult (ClaimCall ι) → Prop
  | .running call' =>
    call'.Knows m' values sequences ∧
      (m'.cursor = m.cursor ∧ call'.taken = taken ∨
        taken = none ∧ m.cursor < m'.cursor ∧ call'.taken = some (m.cursor + 1, m'.cursor))
  | .claimed lo hi =>
    lo ≤ hi ∧ m'.HasRoom values sequences hi ∧
      (m'.cursor = m.cursor ∧ taken = some (lo, hi) ∨
        taken = none ∧ lo = m.cursor + 1 ∧ hi = m'.cursor)
  | .ended => taken = none ∧ m'.cursor = m.cursor

variable {m m' : MultiProducerSequencer ι} {values values' : ι → Int}
  {sequences : List (Option ι)} {n current : Int} {r : ClaimResult (ClaimCall ι)}

/-- The cursor moves forward only. -/
lemma Sound.cursor_le {taken : Option (Int × Int)} (h : Sound m m' values sequences taken r) :
    m.cursor ≤ m'.cursor := by
  cases r with
  | running call =>
    rcases h.2 with ⟨hcursor, -⟩ | ⟨-, hlt, -⟩
    · exact hcursor.ge
    · exact hlt.le
  | claimed lo hi =>
    have hle := h.1
    rcases h.2.2 with ⟨hcursor, -⟩ | ⟨-, hlo, hhi⟩
    · exact hcursor.ge
    · omega
  | ended => exact h.2.ge

lemma Safe.mono (h : m.Safe values sequences) (hv : ∀ i, values i ≤ values' i) :
    m.Safe values' sequences :=
  ⟨h.gating, fun i hi => (h.cached_le i hi).trans (hv i)⟩

lemma HasRoom.mono {hi : Int} (h : m.HasRoom values sequences hi)
    (hv : ∀ i, values i ≤ values' i) : m.HasRoom values' sequences hi :=
  fun i hi => (h i hi).trans (hv i)

lemma CapacityCall.Knows.mono {call : CapacityCall ι} (h : call.Knows values sequences)
    (hv : ∀ i, values i ≤ values' i) : call.Knows values' sequences := by
  cases call with
  | readCache snap => exact h
  | scan rest minSequence => exact fun i hi => (h i hi).imp_right fun hle => hle.trans (hv i)
  | storeCache minSequence => exact fun i hi => (h i hi).trans (hv i)

/-- What a call knows stays known when the gating sequences advance; of the sequencer it depends
on the buffer size only. -/
lemma ClaimCall.Knows.mono {call : ClaimCall ι} (h : call.Knows m values sequences)
    (hsize : m'.bufferSize = m.bufferSize) (hv : ∀ i, values i ≤ values' i) :
    call.Knows m' values' sequences := by
  have hroom : ∀ hi, m.HasRoom values sequences hi → m'.HasRoom values' sequences hi := by
    intro hi hroom i hmem
    simp only [getBufferSize, hsize]
    exact (hroom i hmem).trans (hv i)
  cases call with
  | nextWait n current call => exact ⟨h.1, h.2.mono hv⟩
  | nextStoreCache n current g =>
    exact ⟨h.1, hroom _ h.2.1, fun i hi => (h.2.2 i hi).trans (hv i)⟩
  | tryCapacity n current call => exact ⟨h.1, h.2.mono hv⟩
  | tryCompareAndSet n current => exact ⟨h.1, hroom _ h.2⟩
  | capacity n cursorValue call => exact CapacityCall.Knows.mono h hv
  | remaining current call => exact MinimumCall.Bounds.mono h hv
  | _ => exact h

/-- A cached gating value that is not exhausted leaves room. -/
lemma Safe.hasRoom (h : m.Safe values sequences) (hcache : ¬ m.CacheExhausted current n) :
    m.HasRoom values sequences (current + n) := by
  intro i hi
  have hcached := h.cached_le i hi
  simp only [CacheExhausted, not_or, not_lt, wrapPoint] at hcache
  omega

lemma Safe.cache (h : m.Safe values sequences) {g : Int}
    (hg : ∀ i, some i ∈ sequences → g ≤ values i) :
    ({ m with gatingSequenceCache := g }).Safe values sequences := ⟨h.gating, hg⟩

/-- A step of the capacity check. -/
lemma Safe.capacityStep (h : m.Safe values sequences) {call : CapacityCall ι}
    (hcall : call.Knows values sequences) {c : CapacityCall ι ⊕ Bool}
    (hs : m.capacityStep values n current call = (c, m')) :
    m'.Safe values sequences ∧ m'.cursor = m.cursor ∧ m'.bufferSize = m.bufferSize ∧
      m'.availableBuffer = m.availableBuffer ∧
      (∀ call', c = .inl call' → call'.Knows values sequences) ∧
      (c = .inr true → m'.HasRoom values sequences (current + n)) := by
  cases call with
  | readCache snap =>
    simp only [MultiProducerSequencer.capacityStep] at hs
    split_ifs at hs with hcache
    · obtain ⟨rfl, rfl⟩ := Prod.mk.inj hs
      refine ⟨h, rfl, rfl, rfl, ?_, by simp⟩
      rintro call' heq
      obtain rfl := Sum.inl.inj heq
      intro i hi
      exact Or.inl (hcall.symm ▸ hi)
    · obtain ⟨rfl, rfl⟩ := Prod.mk.inj hs
      exact ⟨h, rfl, rfl, rfl, by simp, fun _ => h.hasRoom hcache⟩
  | scan rest minSequence =>
    cases rest with
    | nil =>
      obtain ⟨rfl, rfl⟩ := Prod.mk.inj hs
      refine ⟨h, rfl, rfl, rfl, ?_, by simp⟩
      rintro call' heq
      obtain rfl := Sum.inl.inj heq
      intro i hi
      exact (hcall i hi).resolve_left (by simp)
    | cons seq rest =>
      obtain ⟨rfl, rfl⟩ := Prod.mk.inj hs
      refine ⟨h, rfl, rfl, rfl, ?_, by simp⟩
      rintro call' heq
      obtain rfl := Sum.inl.inj heq
      intro i hi
      have hstep := minimumStep_le values minSequence seq
      rcases hcall i hi with hrest | hle
      · rcases List.mem_cons.mp hrest with rfl | hrest
        · exact Or.inr (hstep.2 i rfl)
        · exact Or.inl hrest
      · exact Or.inr (hstep.1.trans hle)
  | storeCache minSequence =>
    obtain ⟨rfl, rfl⟩ := Prod.mk.inj hs
    refine ⟨h.cache hcall, rfl, rfl, rfl, by simp, ?_⟩
    intro heq
    have hwrap : m.wrapPoint current n ≤ minSequence := by simpa using heq
    intro i hi
    have := hcall i hi
    simp only [wrapPoint, getBufferSize] at hwrap ⊢
    omega

/-- A step of `minimumSequence` inside a call. -/
lemma Safe.minimumStep (h : m.Safe values sequences) {call : MinimumCall ι}
    (hcall : call.Bounds values current sequences) {c : MinimumCall ι ⊕ Int}
    (hs : m.minimumStep values current call = (c, m')) :
    m'.Safe values sequences ∧ m'.cursor = m.cursor ∧ m'.bufferSize = m.bufferSize ∧
      m'.availableBuffer = m.availableBuffer ∧
      (∀ call', c = .inl call' → call'.Bounds values current sequences) ∧
      (∀ v, c = .inr v → ∀ i, some i ∈ sequences → v ≤ values i) := by
  simp only [MultiProducerSequencer.minimumStep, Prod.mk.injEq] at hs
  obtain ⟨rfl, rfl⟩ := hs
  exact ⟨⟨MinimumCall.step_holds h.gating hcall, h.cached_le⟩, rfl, rfl, rfl,
    fun _ hm => MinimumCall.step_bounds h.gating hcall hm,
    fun _ hm => (MinimumCall.step_result hcall hm).2⟩

lemma enter_sound {op : ClaimOperation} : Sound m m values sequences none (m.enter op) := by
  cases op with
  | next n =>
    simp only [enter]
    split_ifs with hn
    · exact ⟨rfl, rfl⟩
    · have hpos : 1 ≤ n := by omega
      exact ⟨hpos, Or.inl ⟨rfl, rfl⟩⟩
  | tryNext n =>
    simp only [enter]
    split_ifs with hn
    · exact ⟨rfl, rfl⟩
    · have hpos : 1 ≤ n := by omega
      exact ⟨hpos, Or.inl ⟨rfl, rfl⟩⟩
  | hasAvailableCapacity n => exact ⟨trivial, Or.inl ⟨rfl, rfl⟩⟩
  | remainingCapacity => exact ⟨trivial, Or.inl ⟨rfl, rfl⟩⟩

/-- A step of a call keeps the sequencer safe, and takes and grants ranges in order. -/
lemma Safe.callStep (h : m.Safe values sequences) {spurious : Bool} {call : ClaimCall ι}
    (hcall : call.Knows m values sequences) (hs : m.callStep values spurious call = (r, m')) :
    m'.Safe values sequences ∧ Sound m m' values sequences call.taken r ∧
      m'.bufferSize = m.bufferSize ∧ m'.availableBuffer = m.availableBuffer := by
  cases call with
  | nextAdd n =>
    obtain ⟨rfl, rfl⟩ := Prod.mk.inj hs
    have hpos : 1 ≤ n := hcall
    exact ⟨⟨h.gating, h.cached_le⟩, ⟨hpos, Or.inr ⟨rfl, by simp only; omega, rfl⟩⟩, rfl, rfl⟩
  | nextReadCache n current =>
    have hpos : 1 ≤ n := hcall
    simp only [MultiProducerSequencer.callStep] at hs
    split_ifs at hs with hcache
    · obtain ⟨rfl, rfl⟩ := Prod.mk.inj hs
      exact ⟨h, ⟨⟨hpos, trivial⟩, Or.inl ⟨rfl, rfl⟩⟩, rfl, rfl⟩
    · obtain ⟨rfl, rfl⟩ := Prod.mk.inj hs
      exact ⟨h, ⟨by omega, h.hasRoom hcache, Or.inl ⟨rfl, rfl⟩⟩, rfl, rfl⟩
  | nextWait n current call =>
    obtain ⟨hpos, hbounds⟩ := hcall
    simp only [MultiProducerSequencer.callStep] at hs
    split at hs
    · rename_i call' m₁ hstep
      obtain ⟨rfl, rfl⟩ := Prod.mk.inj hs
      obtain ⟨hsafe, hcursor, hsize, hbuffer, hgo, -⟩ := h.minimumStep hbounds hstep
      exact ⟨hsafe, ⟨⟨hpos, hgo call' rfl⟩, Or.inl ⟨hcursor, rfl⟩⟩, hsize, hbuffer⟩
    · rename_i g m₁ hstep
      obtain ⟨hsafe, hcursor, hsize, hbuffer, -, hdone⟩ := h.minimumStep hbounds hstep
      split_ifs at hs with hwrap
      · obtain ⟨rfl, rfl⟩ := Prod.mk.inj hs
        exact ⟨hsafe, ⟨⟨hpos, trivial⟩, Or.inl ⟨hcursor, rfl⟩⟩, hsize, hbuffer⟩
      · obtain ⟨rfl, rfl⟩ := Prod.mk.inj hs
        refine ⟨hsafe, ⟨⟨hpos, ?_, hdone g rfl⟩, Or.inl ⟨hcursor, rfl⟩⟩, hsize, hbuffer⟩
        intro i hi
        have hg := hdone g rfl i hi
        simp only [wrapPoint] at hwrap
        omega
  | nextStoreCache n current g =>
    obtain ⟨hpos, hroom, hg⟩ := hcall
    obtain ⟨rfl, rfl⟩ := Prod.mk.inj hs
    exact ⟨h.cache hg, ⟨by omega, hroom, Or.inl ⟨rfl, rfl⟩⟩, rfl, rfl⟩
  | tryReadCursor n =>
    obtain ⟨rfl, rfl⟩ := Prod.mk.inj hs
    exact ⟨h, ⟨hcall, Or.inl ⟨rfl, rfl⟩⟩, rfl, rfl⟩
  | tryLoad n current =>
    obtain ⟨rfl, rfl⟩ := Prod.mk.inj hs
    exact ⟨h, ⟨⟨hcall, h.gating.current⟩, Or.inl ⟨rfl, rfl⟩⟩, rfl, rfl⟩
  | tryCapacity n current call =>
    obtain ⟨hpos, hknows⟩ := hcall
    simp only [MultiProducerSequencer.callStep] at hs
    split at hs
    · rename_i call' m₁ hstep
      obtain ⟨rfl, rfl⟩ := Prod.mk.inj hs
      obtain ⟨hsafe, hcursor, hsize, hbuffer, hgo, -⟩ := h.capacityStep hknows hstep
      exact ⟨hsafe, ⟨⟨hpos, hgo call' rfl⟩, Or.inl ⟨hcursor, rfl⟩⟩, hsize, hbuffer⟩
    · rename_i m₁ hstep
      obtain ⟨rfl, rfl⟩ := Prod.mk.inj hs
      obtain ⟨hsafe, hcursor, hsize, hbuffer, -, hdone⟩ := h.capacityStep hknows hstep
      exact ⟨hsafe, ⟨⟨hpos, hdone rfl⟩, Or.inl ⟨hcursor, rfl⟩⟩, hsize, hbuffer⟩
    · rename_i m₁ hstep
      obtain ⟨rfl, rfl⟩ := Prod.mk.inj hs
      obtain ⟨hsafe, hcursor, hsize, hbuffer, -, -⟩ := h.capacityStep hknows hstep
      exact ⟨hsafe, ⟨rfl, hcursor⟩, hsize, hbuffer⟩
  | tryCompareAndSet n current =>
    obtain ⟨hpos, hroom⟩ := hcall
    simp only [MultiProducerSequencer.callStep] at hs
    split_ifs at hs with hcas
    · obtain ⟨rfl, rfl⟩ := Prod.mk.inj hs
      obtain ⟨rfl, -⟩ := hcas
      exact ⟨⟨h.gating, h.cached_le⟩, ⟨by omega, hroom, Or.inr ⟨rfl, rfl, rfl⟩⟩, rfl, rfl⟩
    · obtain ⟨rfl, rfl⟩ := Prod.mk.inj hs
      exact ⟨h, ⟨hpos, Or.inl ⟨rfl, rfl⟩⟩, rfl, rfl⟩
  | capacityLoad n =>
    obtain ⟨rfl, rfl⟩ := Prod.mk.inj hs
    exact ⟨h, ⟨h.gating.current, Or.inl ⟨rfl, rfl⟩⟩, rfl, rfl⟩
  | capacityReadCursor n snap =>
    obtain ⟨rfl, rfl⟩ := Prod.mk.inj hs
    exact ⟨h, ⟨hcall, Or.inl ⟨rfl, rfl⟩⟩, rfl, rfl⟩
  | capacity n cursorValue call =>
    simp only [MultiProducerSequencer.callStep] at hs
    split at hs
    · rename_i call' m₁ hstep
      obtain ⟨rfl, rfl⟩ := Prod.mk.inj hs
      obtain ⟨hsafe, hcursor, hsize, hbuffer, hgo, -⟩ := h.capacityStep hcall hstep
      exact ⟨hsafe, ⟨hgo call' rfl, Or.inl ⟨hcursor, rfl⟩⟩, hsize, hbuffer⟩
    · rename_i b m₁ hstep
      obtain ⟨rfl, rfl⟩ := Prod.mk.inj hs
      obtain ⟨hsafe, hcursor, hsize, hbuffer, -, -⟩ := h.capacityStep hcall hstep
      exact ⟨hsafe, ⟨rfl, hcursor⟩, hsize, hbuffer⟩
  | remainingReadCursor =>
    obtain ⟨rfl, rfl⟩ := Prod.mk.inj hs
    exact ⟨h, ⟨trivial, Or.inl ⟨rfl, rfl⟩⟩, rfl, rfl⟩
  | remaining current call =>
    simp only [MultiProducerSequencer.callStep] at hs
    split at hs
    · rename_i call' m₁ hstep
      obtain ⟨rfl, rfl⟩ := Prod.mk.inj hs
      obtain ⟨hsafe, hcursor, hsize, hbuffer, hgo, -⟩ := h.minimumStep hcall hstep
      exact ⟨hsafe, ⟨hgo call' rfl, Or.inl ⟨hcursor, rfl⟩⟩, hsize, hbuffer⟩
    · rename_i v m₁ hstep
      obtain ⟨rfl, rfl⟩ := Prod.mk.inj hs
      obtain ⟨hsafe, hcursor, hsize, hbuffer, -, -⟩ := h.minimumStep hcall hstep
      exact ⟨hsafe, ⟨trivial, Or.inl ⟨hcursor, rfl⟩⟩, hsize, hbuffer⟩
  | remainingProduced =>
    obtain ⟨rfl, rfl⟩ := Prod.mk.inj hs
    exact ⟨h, ⟨rfl, rfl⟩, rfl, rfl⟩

end Disruptor.MultiProducerSequencer
