import Disruptor.Sequencer.ClaimCall

/-!
# What a claim of a sequencer of either type guarantees

The guarantees of the two sequencers in common terms, also while gating sequences are added and
removed by the thread that claims.
-/

namespace Disruptor

variable {ι : Type*}

namespace SingleProducerSequencer

variable {s s' : SingleProducerSequencer ι} {values : ι → Int} {sequences : List (Option ι)}
  {r : ClaimResult (ClaimCall ι)}

/-- The cursor is at most a lap behind what is claimed, and not behind what is cached. -/
structure CursorBounds (s : SingleProducerSequencer ι) : Prop where
  room : s.nextValue - s.getBufferSize ≤ s.cursor
  cached_le : s.cachedValue ≤ s.cursor
  cursor_le : s.cursor ≤ s.nextValue

/-- A call that waits for capacity has set the cursor to the claimed position. -/
def ClaimCall.Within (s : SingleProducerSequencer ι) : ClaimCall ι → Prop
  | .next _ _ | .capacity _ _ _ => s.cursor = s.nextValue
  | _ => True

lemma CursorBounds.claim (h : s.CursorBounds) {n : Int} (hn : 1 ≤ n)
    (hroom : s.wrapPoint n ≤ s.cachedValue) (hs : s.claim n = (r, s')) : s'.CursorBounds := by
  have hcached := h.cached_le
  have hcursor := h.cursor_le
  obtain ⟨-, rfl⟩ := Prod.mk.inj hs
  refine ⟨?_, hcached, ?_⟩
  · simp only [wrapPoint, getBufferSize] at hroom ⊢
    omega
  · simp only
    omega

lemma enter_cursorBounds (h : s.CursorBounds) {op : ClaimOperation} (hop : op.claims = true)
    (hs : s.enter op = (r, s')) :
    s'.CursorBounds ∧ ∀ call', r = .running call' → call'.Within s' := by
  have hroom : ∀ n, ¬ s.CacheExhausted n → s.wrapPoint n ≤ s.cachedValue := by
    intro n hn
    simp only [CacheExhausted, not_or, not_lt] at hn
    exact hn.1
  have hclaim : ∀ n, 1 ≤ n → ¬ s.CacheExhausted n → s.claim n = (r, s') →
      s'.CursorBounds ∧ ∀ call', r = .running call' → call'.Within s' := by
    intro n hn hcache heq
    have hbounds := h.claim hn (hroom n hcache) heq
    obtain ⟨rfl, -⟩ := Prod.mk.inj heq
    exact ⟨hbounds, by rintro call' ⟨⟩⟩
  cases op with
  | next n =>
    simp only [enter] at hs
    split_ifs at hs with hn hcache
    · obtain ⟨rfl, rfl⟩ := Prod.mk.inj hs
      exact ⟨h, by rintro call' ⟨⟩⟩
    · obtain ⟨rfl, rfl⟩ := Prod.mk.inj hs
      refine ⟨h, ?_⟩
      rintro call' ⟨⟩
      trivial
    · exact hclaim n (by omega) hcache hs
  | tryNext n =>
    simp only [enter] at hs
    split_ifs at hs with hn hcache
    · obtain ⟨rfl, rfl⟩ := Prod.mk.inj hs
      exact ⟨h, by rintro call' ⟨⟩⟩
    · obtain ⟨rfl, rfl⟩ := Prod.mk.inj hs
      refine ⟨h, ?_⟩
      rintro call' ⟨⟩
      trivial
    · exact hclaim n (by omega) hcache hs
  | hasAvailableCapacity n => cases hop
  | remainingCapacity => cases hop

lemma minimumStep_cursorBounds (h : s.CursorBounds) {call : MinimumCall ι}
    {m : MinimumCall ι ⊕ Int} (hs : s.minimumStep values call = (m, s')) :
    s'.CursorBounds ∧ s'.cursor = s.cursor ∧ s'.nextValue = s.nextValue := by
  obtain ⟨-, rfl⟩ := Prod.mk.inj hs
  exact ⟨⟨h.room, h.cached_le, h.cursor_le⟩, rfl, rfl⟩

lemma CursorBounds.cache (h : s.CursorBounds) {m : Int} (hm : m ≤ s.cursor) :
    ({ s with cachedValue := m }).CursorBounds :=
  ⟨h.room, hm, h.cursor_le⟩

lemma CursorBounds.fence (h : s.CursorBounds) :
    ({ s with cursor := s.nextValue }).CursorBounds := by
  have hsize := s.bufferSize.size_pos
  have hcached := h.cached_le
  have hcursor := h.cursor_le
  refine ⟨?_, ?_, le_rfl⟩
  · simp only [getBufferSize]
    omega
  · simp only
    omega

lemma callStep_cursorBounds (h : s.CursorBounds) {call : ClaimCall ι}
    (hsafe : s.Safe values sequences) (hcall : call.Knows s values sequences)
    (hwithin : call.Within s) (hs : s.callStep values call = (r, s')) :
    s'.CursorBounds ∧ ∀ call', r = .running call' → call'.Within s' := by
  cases call with
  | nextFence n | capacityFence n =>
    obtain ⟨rfl, rfl⟩ := Prod.mk.inj hs
    refine ⟨h.fence, ?_⟩
    rintro call' ⟨⟩
    rfl
  | next n call =>
    obtain ⟨hn, hbounds⟩ := hcall
    have hcursor : s.cursor = s.nextValue := hwithin
    simp only [callStep] at hs
    split at hs
    · rename_i call' s₁ hstep
      obtain ⟨hb, hc, hv⟩ := minimumStep_cursorBounds h hstep
      obtain ⟨rfl, rfl⟩ := Prod.mk.inj hs
      refine ⟨hb, ?_⟩
      rintro call'' ⟨⟩
      exact hc.trans (hcursor.trans hv.symm)
    · rename_i m s₁ hstep
      obtain ⟨hb, hc, hv⟩ := minimumStep_cursorBounds h hstep
      obtain ⟨-, -, -, -, -, hdone⟩ := hsafe.minimumStep hbounds hstep
      have hm := (hdone m rfl).1
      split_ifs at hs with hwrap
      · obtain ⟨rfl, rfl⟩ := Prod.mk.inj hs
        refine ⟨hb, ?_⟩
        rintro call'' ⟨⟩
        exact hc.trans (hcursor.trans hv.symm)
      · refine ⟨(hb.cache (by omega)).claim hn (not_lt.mp hwrap) hs, ?_⟩
        obtain ⟨rfl, -⟩ := Prod.mk.inj hs
        rintro call'' ⟨⟩
  | capacity n doStore call =>
    obtain ⟨hn, hbounds⟩ := hcall
    have hcursor : s.cursor = s.nextValue := hwithin
    simp only [callStep] at hs
    split at hs
    · rename_i call' s₁ hstep
      obtain ⟨hb, hc, hv⟩ := minimumStep_cursorBounds h hstep
      obtain ⟨rfl, rfl⟩ := Prod.mk.inj hs
      refine ⟨hb, ?_⟩
      rintro call'' ⟨⟩
      exact hc.trans (hcursor.trans hv.symm)
    · rename_i m s₁ hstep
      obtain ⟨hb, hc, hv⟩ := minimumStep_cursorBounds h hstep
      obtain ⟨-, -, -, -, -, hdone⟩ := hsafe.minimumStep hbounds hstep
      have hm := (hdone m rfl).1
      have hb' := hb.cache (m := m) (by omega)
      split_ifs at hs with hwrap hstore
      · obtain ⟨rfl, rfl⟩ := Prod.mk.inj hs
        exact ⟨hb', by rintro call'' ⟨⟩⟩
      · refine ⟨hb'.claim (hn hstore) (not_lt.mp hwrap) hs, ?_⟩
        obtain ⟨rfl, -⟩ := Prod.mk.inj hs
        rintro call'' ⟨⟩
      · obtain ⟨rfl, rfl⟩ := Prod.mk.inj hs
        exact ⟨hb', by rintro call'' ⟨⟩⟩
  | remainingCapacity call =>
    simp only [callStep] at hs
    split at hs
    · rename_i call' s₁ hstep
      obtain ⟨hb, -, -⟩ := minimumStep_cursorBounds h hstep
      obtain ⟨rfl, rfl⟩ := Prod.mk.inj hs
      refine ⟨hb, ?_⟩
      rintro call'' ⟨⟩
      trivial
    · rename_i m s₁ hstep
      obtain ⟨hb, -, -⟩ := minimumStep_cursorBounds h hstep
      obtain ⟨rfl, rfl⟩ := Prod.mk.inj hs
      exact ⟨hb, by rintro call'' ⟨⟩⟩

end SingleProducerSequencer

namespace MultiProducerSequencer

variable {m m' : MultiProducerSequencer ι} {values : ι → Int} {sequences : List (Option ι)}
  {r : ClaimResult (ClaimCall ι)}

/-- What a capacity check is about to cache is at or below the cursor that it has read. -/
def CapacityCall.Within (cursorValue : Int) : CapacityCall ι → Prop
  | .readCache _ => True
  | .scan _ minSequence | .storeCache minSequence => minSequence ≤ cursorValue

/-- What a call has taken, or is about to cache, is at or below the cursor. -/
def ClaimCall.Within (cursor : Int) : ClaimCall ι → Prop
  | .nextReadCache n current | .nextWait n current _ => current + n ≤ cursor
  | .nextStoreCache n current gatingSequence => current + n ≤ cursor ∧ gatingSequence ≤ cursor
  | .tryLoad _ current => current ≤ cursor
  | .tryCapacity _ current call => current ≤ cursor ∧ call.Within current
  | .capacity _ cursorValue call => cursorValue ≤ cursor ∧ call.Within cursorValue
  | _ => True

lemma ClaimCall.Within.mono {cursor cursor' : Int} {call : ClaimCall ι} (h : call.Within cursor)
    (hle : cursor ≤ cursor') : call.Within cursor' := by
  cases call with
  | nextReadCache n current | nextWait n current call =>
    exact le_trans (show current + n ≤ cursor from h) hle
  | nextStoreCache n current gatingSequence => exact ⟨h.1.trans hle, h.2.trans hle⟩
  | tryLoad n current => exact le_trans (show current ≤ cursor from h) hle
  | tryCapacity n current call | capacity n current call => exact ⟨h.1.trans hle, h.2⟩
  | _ => trivial

lemma ClaimCall.Within.taken_le {cursor lo hi : Int} {call : ClaimCall ι} (h : call.Within cursor)
    (htaken : call.taken = some (lo, hi)) : hi ≤ cursor := by
  cases call with
  | nextReadCache n current | nextWait n current call =>
    obtain ⟨-, rfl⟩ := Prod.mk.inj (Option.some.inj htaken)
    exact h
  | nextStoreCache n current gatingSequence =>
    obtain ⟨-, rfl⟩ := Prod.mk.inj (Option.some.inj htaken)
    exact h.1
  | _ => cases htaken

lemma minimumStep_cached {current : Int} {call : MinimumCall ι} {c : MinimumCall ι ⊕ Int}
    (hs : m.minimumStep values current call = (c, m')) :
    m'.gatingSequenceCache = m.gatingSequenceCache ∧ m'.cursor = m.cursor := by
  obtain ⟨-, rfl⟩ := Prod.mk.inj hs
  exact ⟨rfl, rfl⟩

lemma minimumStep_result {current : Int} {call : MinimumCall ι} {v : Int}
    (hcall : call.Bounds values current sequences)
    (hs : m.minimumStep values current call = (.inr v, m')) : v ≤ current := by
  obtain ⟨hv, -⟩ := Prod.mk.inj hs
  exact (MinimumCall.step_result hcall hv).1

lemma capacityStep_cached {n cursorValue : Int} {call : CapacityCall ι}
    {c : CapacityCall ι ⊕ Bool} (hcursor : cursorValue ≤ m.cursor)
    (h : m.gatingSequenceCache ≤ m.cursor) (hcall : call.Within cursorValue)
    (hs : m.capacityStep values n cursorValue call = (c, m')) :
    m'.gatingSequenceCache ≤ m'.cursor ∧ m'.cursor = m.cursor ∧
      ∀ call', c = .inl call' → call'.Within cursorValue := by
  cases call with
  | readCache snap =>
    simp only [capacityStep] at hs
    split_ifs at hs
    · obtain ⟨rfl, rfl⟩ := Prod.mk.inj hs
      refine ⟨h, rfl, ?_⟩
      rintro call' ⟨⟩
      exact le_rfl
    · obtain ⟨rfl, rfl⟩ := Prod.mk.inj hs
      exact ⟨h, rfl, by rintro call' ⟨⟩⟩
  | scan rest minSequence =>
    have hle : minSequence ≤ cursorValue := hcall
    cases rest with
    | nil =>
      obtain ⟨rfl, rfl⟩ := Prod.mk.inj hs
      refine ⟨h, rfl, ?_⟩
      rintro call' ⟨⟩
      exact hle
    | cons seq rest =>
      obtain ⟨rfl, rfl⟩ := Prod.mk.inj hs
      refine ⟨h, rfl, ?_⟩
      rintro call' ⟨⟩
      exact (minimumStep_le values _ _).1.trans hle
  | storeCache minSequence =>
    have hle : minSequence ≤ cursorValue := hcall
    obtain ⟨rfl, rfl⟩ := Prod.mk.inj hs
    exact ⟨hle.trans hcursor, rfl, by rintro call' ⟨⟩⟩

lemma enter_within (op : ClaimOperation) :
    ∀ call', m.enter op = .running call' → call'.Within m.cursor := by
  intro call' hs
  cases op with
  | next n =>
    simp only [enter] at hs
    split_ifs at hs
    obtain rfl := ClaimResult.running.inj hs
    trivial
  | tryNext n =>
    simp only [enter] at hs
    split_ifs at hs
    obtain rfl := ClaimResult.running.inj hs
    trivial
  | hasAvailableCapacity n =>
    obtain rfl := ClaimResult.running.inj hs
    trivial
  | remainingCapacity =>
    obtain rfl := ClaimResult.running.inj hs
    trivial

/-- The cached gating value stays at or below the cursor. -/
lemma callStep_cached (h : m.gatingSequenceCache ≤ m.cursor) {spurious : Bool}
    {call : ClaimCall ι} (hcall : call.Knows m values sequences) (hwithin : call.Within m.cursor)
    (hs : m.callStep values spurious call = (r, m')) :
    m'.gatingSequenceCache ≤ m'.cursor ∧
      ∀ call', r = .running call' → call'.Within m'.cursor := by
  cases call with
  | nextAdd n =>
    have hpos : 1 ≤ n := hcall
    obtain ⟨rfl, rfl⟩ := Prod.mk.inj hs
    refine ⟨by simp only; omega, ?_⟩
    rintro call' ⟨⟩
    simp only [ClaimCall.Within]
    omega
  | nextReadCache n current =>
    simp only [callStep] at hs
    split_ifs at hs
    · obtain ⟨rfl, rfl⟩ := Prod.mk.inj hs
      refine ⟨h, ?_⟩
      rintro call' ⟨⟩
      exact hwithin
    · obtain ⟨rfl, rfl⟩ := Prod.mk.inj hs
      exact ⟨h, by rintro call' ⟨⟩⟩
  | nextWait n current call =>
    have hpos := hcall.1
    have hcurrent : current + n ≤ m.cursor := hwithin
    simp only [callStep] at hs
    split at hs
    · rename_i call' m₁ hstep
      obtain ⟨hcached, hcursor⟩ := minimumStep_cached hstep
      obtain ⟨rfl, rfl⟩ := Prod.mk.inj hs
      refine ⟨by omega, ?_⟩
      rintro call'' ⟨⟩
      exact hcursor ▸ hcurrent
    · rename_i g m₁ hstep
      obtain ⟨hcached, hcursor⟩ := minimumStep_cached hstep
      have hg := minimumStep_result hcall.2 hstep
      split_ifs at hs
      · obtain ⟨rfl, rfl⟩ := Prod.mk.inj hs
        refine ⟨by omega, ?_⟩
        rintro call'' ⟨⟩
        exact hcursor ▸ hcurrent
      · obtain ⟨rfl, rfl⟩ := Prod.mk.inj hs
        refine ⟨by omega, ?_⟩
        rintro call'' ⟨⟩
        have hle : g ≤ m₁.cursor := by omega
        exact ⟨hcursor ▸ hcurrent, hle⟩
  | nextStoreCache n current g =>
    obtain ⟨rfl, rfl⟩ := Prod.mk.inj hs
    exact ⟨hwithin.2, by rintro call' ⟨⟩⟩
  | tryReadCursor n =>
    obtain ⟨rfl, rfl⟩ := Prod.mk.inj hs
    refine ⟨h, ?_⟩
    rintro call' ⟨⟩
    exact le_rfl
  | tryLoad n current =>
    obtain ⟨rfl, rfl⟩ := Prod.mk.inj hs
    refine ⟨h, ?_⟩
    rintro call' ⟨⟩
    exact ⟨hwithin, trivial⟩
  | tryCapacity n current call =>
    obtain ⟨hcurrent, hcap⟩ := hwithin
    simp only [callStep] at hs
    split at hs
    · rename_i call' m₁ hstep
      obtain ⟨hcached, hcursor, hgo⟩ := capacityStep_cached hcurrent h hcap hstep
      obtain ⟨rfl, rfl⟩ := Prod.mk.inj hs
      refine ⟨hcached, ?_⟩
      rintro call'' ⟨⟩
      exact ⟨hcursor ▸ hcurrent, hgo call' rfl⟩
    · rename_i m₁ hstep
      obtain ⟨hcached, hcursor, -⟩ := capacityStep_cached hcurrent h hcap hstep
      obtain ⟨rfl, rfl⟩ := Prod.mk.inj hs
      refine ⟨hcached, ?_⟩
      rintro call'' ⟨⟩
      trivial
    · rename_i m₁ hstep
      obtain ⟨hcached, hcursor, -⟩ := capacityStep_cached hcurrent h hcap hstep
      obtain ⟨rfl, rfl⟩ := Prod.mk.inj hs
      exact ⟨hcached, by rintro call' ⟨⟩⟩
  | tryCompareAndSet n current =>
    have hpos := hcall.1
    simp only [callStep] at hs
    split_ifs at hs with hcas
    · obtain ⟨rfl, rfl⟩ := Prod.mk.inj hs
      refine ⟨by simp only; omega, by rintro call' ⟨⟩⟩
    · obtain ⟨rfl, rfl⟩ := Prod.mk.inj hs
      refine ⟨h, ?_⟩
      rintro call' ⟨⟩
      trivial
  | capacityLoad n =>
    obtain ⟨rfl, rfl⟩ := Prod.mk.inj hs
    refine ⟨h, ?_⟩
    rintro call' ⟨⟩
    trivial
  | capacityReadCursor n snap =>
    obtain ⟨rfl, rfl⟩ := Prod.mk.inj hs
    refine ⟨h, ?_⟩
    rintro call' ⟨⟩
    exact ⟨le_rfl, trivial⟩
  | capacity n cursorValue call =>
    obtain ⟨hcurrent, hcap⟩ := hwithin
    simp only [callStep] at hs
    split at hs
    · rename_i call' m₁ hstep
      obtain ⟨hcached, hcursor, hgo⟩ := capacityStep_cached hcurrent h hcap hstep
      obtain ⟨rfl, rfl⟩ := Prod.mk.inj hs
      refine ⟨hcached, ?_⟩
      rintro call'' ⟨⟩
      exact ⟨hcursor ▸ hcurrent, hgo call' rfl⟩
    · rename_i m₁ hstep
      obtain ⟨hcached, hcursor, -⟩ := capacityStep_cached hcurrent h hcap hstep
      obtain ⟨rfl, rfl⟩ := Prod.mk.inj hs
      exact ⟨hcached, by rintro call' ⟨⟩⟩
  | remainingReadCursor =>
    obtain ⟨rfl, rfl⟩ := Prod.mk.inj hs
    refine ⟨h, ?_⟩
    rintro call' ⟨⟩
    trivial
  | remaining current call =>
    simp only [callStep] at hs
    split at hs
    · rename_i call' m₁ hstep
      obtain ⟨hcached, hcursor⟩ := minimumStep_cached hstep
      obtain ⟨rfl, rfl⟩ := Prod.mk.inj hs
      refine ⟨by omega, ?_⟩
      rintro call'' ⟨⟩
      trivial
    · rename_i v m₁ hstep
      obtain ⟨hcached, hcursor⟩ := minimumStep_cached hstep
      obtain ⟨rfl, rfl⟩ := Prod.mk.inj hs
      refine ⟨by omega, ?_⟩
      rintro call'' ⟨⟩
      trivial
  | remainingProduced =>
    obtain ⟨rfl, rfl⟩ := Prod.mk.inj hs
    exact ⟨h, by rintro call' ⟨⟩⟩

end MultiProducerSequencer

namespace Sequencer

/-- The current list of gating sequences. -/
def gatingList (q : Sequencer ι) : List (Option ι) := q.gating.gatingSequences.sequences

/-- `hi` is a claimed sequence; of a single producer it is the last one. -/
def Claimed (hi : Int) : Sequencer ι → Prop
  | .single s => hi = s.nextValue
  | .multi m => hi ≤ m.cursor

/-- Nothing that the sequencer has cached or claimed is ahead of what its gating list allows, and
nothing that it has cached is ahead of the cursor. -/
def Consistent (values : ι → Int) : Sequencer ι → Prop
  | .single s => s.Safe values s.gating.gatingSequences.sequences ∧ s.CursorBounds
  | .multi m =>
    m.Safe values m.gating.gatingSequences.sequences ∧ m.gatingSequenceCache ≤ m.cursor

/-- What a call of either sequencer knows. -/
def ClaimCall.Holds (q : Sequencer ι) (values : ι → Int) : ClaimCall ι → Prop
  | .single call =>
    ∃ s, q = .single s ∧ call.Knows s values s.gating.gatingSequences.sequences ∧ call.Within s
  | .multi call =>
    ∃ m, q = .multi m ∧ call.Knows m values m.gating.gatingSequences.sequences ∧
      call.Within m.cursor

/-- What a step of a call leaves behind: a granted claim is no lap ahead of a gating sequence. -/
def Leaves (q : Sequencer ι) (values : ι → Int) : ClaimResult (ClaimCall ι) → Prop
  | .running call => call.Holds q values
  | .claimed lo hi =>
    lo ≤ hi ∧ q.Claimed hi ∧ ∀ i, some i ∈ q.gatingList → hi - q.bufferSize.size ≤ values i
  | .ended => True

/-- What a step of a producer may do to the sequencer, as the other threads see it. -/
structure Moves (q q' : Sequencer ι) : Prop where
  bufferSize : q'.bufferSize = q.bufferSize
  gatingList : q'.gatingList = q.gatingList
  getCursor : q.getCursor ≤ q'.getCursor
  multi : ∀ m, q = .multi m → ∃ m', q' = .multi m'

variable {q q' : Sequencer ι} {values values' : ι → Int} {r : ClaimResult (ClaimCall ι)}

lemma Moves.refl (q : Sequencer ι) : q.Moves q :=
  ⟨rfl, rfl, le_rfl, fun m h => ⟨m, h⟩⟩

lemma Consistent.mono (h : q.Consistent values) (hv : ∀ i, values i ≤ values' i) :
    q.Consistent values' := by
  cases q with
  | single s => exact ⟨h.1.mono hv, h.2⟩
  | multi m => exact ⟨h.1.mono hv, h.2⟩

lemma getCursor_le_claimed (h : q.Consistent values) : q.getCursor ≤ q.claimed := by
  cases q with
  | single s => exact h.2.cursor_le
  | multi m => exact le_rfl

/-- What a call knows stays known while other threads move: consumers only, or for a
multi-producer sequencer other producers as well. -/
lemma ClaimCall.Holds.mono {call : ClaimCall ι} (h : call.Holds q values) (hmoves : q.Moves q')
    (hsingle : ∀ s, q = .single s → q' = q) (hv : ∀ i, values i ≤ values' i) :
    call.Holds q' values' := by
  cases call with
  | single call =>
    obtain ⟨s, rfl, hknows, hwithin⟩ := h
    exact ⟨s, hsingle s rfl, hknows.mono hv, hwithin⟩
  | multi call =>
    obtain ⟨m, rfl, hknows, hwithin⟩ := h
    obtain ⟨m', rfl⟩ := hmoves.multi m rfl
    have hlist : m'.gating.gatingSequences.sequences = m.gating.gatingSequences.sequences :=
      hmoves.gatingList
    refine ⟨m', rfl, ?_, hwithin.mono hmoves.getCursor⟩
    rw [hlist]
    exact hknows.mono hmoves.bufferSize hv

lemma Claimed.mono {hi : Int} (h : q.Claimed hi) (hmoves : q.Moves q')
    (hsingle : ∀ s, q = .single s → q' = q) : q'.Claimed hi := by
  cases q with
  | single s =>
    rw [hsingle s rfl]
    exact h
  | multi m =>
    obtain ⟨m', rfl⟩ := hmoves.multi m rfl
    exact le_trans (show hi ≤ m.cursor from h) hmoves.getCursor

lemma single_leaves {s s' : SingleProducerSequencer ι}
    {r : ClaimResult (SingleProducerSequencer.ClaimCall ι)}
    (hsafe : s'.Safe values s.gating.gatingSequences.sequences)
    (hlist : s'.gating.gatingSequences = s.gating.gatingSequences)
    (hsound : SingleProducerSequencer.Sound s s' values s.gating.gatingSequences.sequences r)
    (hwithin : ∀ call', r = .running call' → call'.Within s') :
    (Sequencer.single s').Leaves values (r.map .single) := by
  cases r with
  | running call =>
    refine ⟨s', rfl, ?_, hwithin call rfl⟩
    rw [hlist]
    exact hsound.2
  | claimed lo hi =>
    obtain ⟨-, rfl, hle⟩ := hsound
    refine ⟨hle, rfl, ?_⟩
    intro i hi
    refine hsafe.room i ?_
    rw [← hlist]
    exact hi
  | ended => trivial

lemma multi_leaves {m m' : MultiProducerSequencer ι} {taken : Option (Int × Int)}
    {r : ClaimResult (MultiProducerSequencer.ClaimCall ι)}
    (htaken : ∀ lo hi, taken = some (lo, hi) → hi ≤ m.cursor)
    (hlist : m'.gating.gatingSequences = m.gating.gatingSequences)
    (hsound : MultiProducerSequencer.Sound m m' values m.gating.gatingSequences.sequences taken r)
    (hwithin : ∀ call', r = .running call' → call'.Within m'.cursor) :
    (Sequencer.multi m').Leaves values (r.map .multi) := by
  cases r with
  | running call =>
    refine ⟨m', rfl, ?_, hwithin call rfl⟩
    rw [hlist]
    exact hsound.1
  | claimed lo hi =>
    obtain ⟨hle, hroom, howned⟩ := hsound
    refine ⟨hle, ?_, ?_⟩
    · rcases howned with ⟨hcursor, hown⟩ | ⟨-, -, rfl⟩
      · exact (htaken lo hi hown).trans hcursor.ge
      · exact le_rfl
    · intro i hi
      refine hroom i ?_
      rw [← hlist]
      exact hi
  | ended => trivial

/-- A producer enters an operation that claims. -/
lemma Consistent.enter (h : q.Consistent values) {op : ClaimOperation} (hop : op.claims = true)
    (hs : q.enter op = (r, q')) : q'.Consistent values ∧ q'.Leaves values r ∧ q.Moves q' := by
  have hkept := (enter_listsKept hs).1
  cases q with
  | single s =>
    obtain ⟨rfl, rfl⟩ := Prod.mk.inj hs
    obtain ⟨hsafe, hsound, hcursor, hsize⟩ := h.1.enter (Eq.refl (s.enter op))
    obtain ⟨hbounds, hwithin⟩ := SingleProducerSequencer.enter_cursorBounds h.2 hop rfl
    have hlist : (s.enter op).2.gating.gatingSequences = s.gating.gatingSequences := hkept
    refine ⟨⟨?_, hbounds⟩, single_leaves hsafe hlist hsound hwithin, ?_⟩
    · rw [hlist]
      exact hsafe
    · exact ⟨hsize, congrArg Snapshot.sequences hlist, hcursor.ge, fun _ hm => by cases hm⟩
  | multi m =>
    obtain ⟨rfl, rfl⟩ := Prod.mk.inj hs
    refine ⟨h, ?_, Moves.refl _⟩
    exact multi_leaves (by rintro lo hi ⟨⟩) rfl MultiProducerSequencer.enter_sound
      (MultiProducerSequencer.enter_within op)

/-- A producer takes a step of a call. -/
lemma Consistent.callStep (h : q.Consistent values) {call : ClaimCall ι} {spurious : Bool}
    (hcall : call.Holds q values) (hs : q.callStep values spurious call = some (r, q')) :
    q'.Consistent values ∧ q'.Leaves values r ∧ q.Moves q' := by
  have hkept := (callStep_listsKept hs).1
  cases call with
  | single call =>
    obtain ⟨s, rfl, hknows, hwithin⟩ := hcall
    obtain ⟨rfl, rfl⟩ := Prod.mk.inj (Option.some.inj hs)
    obtain ⟨hsafe, hsound, hcursor, hsize⟩ := h.1.callStep hknows rfl
    obtain ⟨hbounds, hwithin'⟩ :=
      SingleProducerSequencer.callStep_cursorBounds h.2 h.1 hknows hwithin rfl
    have hlist : (s.callStep values call).2.gating.gatingSequences = s.gating.gatingSequences :=
      hkept
    refine ⟨⟨?_, hbounds⟩, single_leaves hsafe hlist hsound hwithin', ?_⟩
    · rw [hlist]
      exact hsafe
    · refine ⟨hsize, congrArg Snapshot.sequences hlist, ?_, fun _ hm => by cases hm⟩
      rcases hcursor with hsame | ⟨hnext, -⟩
      · exact hsame.ge
      · exact h.2.cursor_le.trans hnext.ge
  | multi call =>
    obtain ⟨m, rfl, hknows, hwithin⟩ := hcall
    obtain ⟨rfl, rfl⟩ := Prod.mk.inj (Option.some.inj hs)
    have hstep : m.callStep values spurious call =
        ((m.callStep values spurious call).1, (m.callStep values spurious call).2) := rfl
    obtain ⟨hsafe, hsound, hsize, -⟩ := h.1.callStep hknows hstep
    obtain ⟨hcached, hwithin'⟩ :=
      MultiProducerSequencer.callStep_cached h.2 hknows hwithin hstep
    have hlist : (m.callStep values spurious call).2.gating.gatingSequences =
        m.gating.gatingSequences := hkept
    refine ⟨⟨?_, hcached⟩, multi_leaves (fun _ _ => hwithin.taken_le) hlist hsound hwithin', ?_⟩
    · rw [hlist]
      exact hsafe
    · exact ⟨hsize, congrArg Snapshot.sequences hlist, hsound.cursor_le, fun _ _ => ⟨_, rfl⟩⟩

lemma consistent_initial (producerType : ProducerType) (b : BufferSize) (values : ι → Int) :
    (initial producerType b {}).Consistent values := by
  have hsize := b.size_pos
  cases producerType with
  | SINGLE =>
    refine ⟨⟨⟨rfl, by rintro snap ⟨⟩⟩, by simp, by simp⟩, ?_, le_rfl, le_rfl⟩
    simp only [SingleProducerSequencer.getBufferSize]
    omega
  | MULTI => exact ⟨⟨⟨rfl, by rintro snap ⟨⟩⟩, by simp⟩, le_rfl⟩

/-! ### Publishing -/

/-- One step of `publish(lo, hi)` from `l` on: the range that it makes available, and whether the
call has returned. -/
def publishStep (q : Sequencer ι) (l hi : Int) : Sequencer ι × (Int × Int) × Bool :=
  match q with
  | .single s => (.single (s.publish hi), (l, hi), true)
  | .multi m => (.multi (m.publish l), (l, l), decide (hi < l + 1))

/-- What is published is at or below the cursor. -/
lemma Consistent.publishStep (h : q.Consistent values) {l hi : Int} (hle : l ≤ hi)
    (hclaimed : q.Claimed hi) {range : Int × Int} {returned : Bool}
    (hs : q.publishStep l hi = (q', range, returned)) :
    q'.Consistent values ∧ q.Moves q' ∧ range.2 ≤ q'.getCursor ∧
      (returned = false → q'.Claimed hi ∧ l + 1 ≤ hi) := by
  cases q with
  | single s =>
    have hsize := s.bufferSize.size_pos
    have hcached := h.2.cached_le
    have hcursor := h.2.cursor_le
    have heq : hi = s.nextValue := hclaimed
    simp only [Sequencer.publishStep, Prod.mk.injEq] at hs
    obtain ⟨rfl, rfl, rfl⟩ := hs
    refine ⟨⟨⟨h.1.gating, h.1.cached_le, h.1.room⟩, ?_, ?_, heq.le⟩, ?_, le_rfl, by simp⟩
    · simp only [SingleProducerSequencer.publish, SingleProducerSequencer.getBufferSize]
      omega
    · simp only [SingleProducerSequencer.publish]
      omega
    · exact ⟨rfl, rfl, hcursor.trans heq.ge, fun _ hm => by cases hm⟩
  | multi m =>
    have hcursor : hi ≤ m.cursor := hclaimed
    simp only [Sequencer.publishStep, Prod.mk.injEq] at hs
    obtain ⟨rfl, rfl, rfl⟩ := hs
    refine ⟨⟨⟨h.1.gating, h.1.cached_le⟩, h.2⟩, ?_, hle.trans hcursor, ?_⟩
    · exact ⟨rfl, rfl, le_rfl, fun _ _ => ⟨_, rfl⟩⟩
    · intro hreturned
      simp only [decide_eq_false_iff_not, not_lt] at hreturned
      exact ⟨hcursor, hreturned⟩

/-- What the barriers read of the flags: `isAvailable` of a multi-producer sequencer. -/
def available : Sequencer ι → Option (Int → Bool)
  | .single _ => none
  | .multi m => some m.isAvailable

/-! ### Changing the gating list -/

section

variable [DecidableEq ι]

/-- `addGatingSequences(gatingSequences, count)`. -/
def addGatingSequences (q : Sequencer ι) (values : ι → Int) (gatingSequences : List (Option ι)) :
    (ι → Int) × Sequencer ι :=
  match q with
  | .single s =>
    ((s.addGatingSequences values gatingSequences).1,
      .single (s.addGatingSequences values gatingSequences).2)
  | .multi m =>
    ((m.addGatingSequences values gatingSequences).1,
      .multi (m.addGatingSequences values gatingSequences).2)

/-- `removeGatingSequence(sequence)`. -/
def removeGatingSequence (q : Sequencer ι) (sequence : ι) : Bool × Sequencer ι :=
  match q with
  | .single s => ((s.removeGatingSequence sequence).1, .single (s.removeGatingSequence sequence).2)
  | .multi m => ((m.removeGatingSequence sequence).1, .multi (m.removeGatingSequence sequence).2)

lemma addGatingSequences_values (q : Sequencer ι) (values : ι → Int) (l : List (Option ι)) (i : ι) :
    (q.addGatingSequences values l).1 i = if some i ∈ l then q.getCursor else values i := by
  cases q with
  | single s => exact Gating.addGatingSequences_values s.gating values s.cursor l i
  | multi m => exact Gating.addGatingSequences_values m.gating values m.cursor l i

@[simp] lemma addGatingSequences_gatingList (q : Sequencer ι) (values : ι → Int)
    (l : List (Option ι)) : (q.addGatingSequences values l).2.gatingList = q.gatingList ++ l := by
  cases q <;> rfl

@[simp] lemma addGatingSequences_getCursor (q : Sequencer ι) (values : ι → Int)
    (l : List (Option ι)) : (q.addGatingSequences values l).2.getCursor = q.getCursor := by
  cases q <;> rfl

@[simp] lemma removeGatingSequence_getCursor (q : Sequencer ι) (i : ι) :
    (q.removeGatingSequence i).2.getCursor = q.getCursor := by
  cases q <;> rfl

lemma mem_removeGatingSequence {i j : ι} :
    some j ∈ (q.removeGatingSequence i).2.gatingList ↔ some j ∈ q.gatingList ∧ j ≠ i := by
  cases q with
  | single s => exact Gating.mem_removeGatingSequence (g := s.gating)
  | multi m => exact Gating.mem_removeGatingSequence (g := m.gating)

/-- Sequences that are added at the cursor are not behind what is cached or claimed. -/
lemma Consistent.addGatingSequences (h : q.Consistent values) (l : List (Option ι)) :
    (q.addGatingSequences values l).2.Consistent (q.addGatingSequences values l).1 := by
  have hvalue := q.addGatingSequences_values values l
  have hbelow : ∀ x, x ≤ q.getCursor → (∀ i, some i ∈ q.gatingList → x ≤ values i) →
      ∀ i, some i ∈ q.gatingList ++ l → x ≤ (q.addGatingSequences values l).1 i := by
    intro x hcursor hold i hi
    rw [hvalue]
    split_ifs with hnew
    · exact hcursor
    · exact hold i ((List.mem_append.mp hi).resolve_right hnew)
  cases q with
  | single s =>
    obtain ⟨hsafe, hbounds⟩ := h
    refine ⟨⟨⟨rfl, by rintro snap ⟨⟩⟩, ?_, ?_⟩,
      ⟨hbounds.room, hbounds.cached_le, hbounds.cursor_le⟩⟩
    · exact hbelow s.cachedValue hbounds.cached_le hsafe.cached_le
    · exact hbelow _ hbounds.room hsafe.room
  | multi m =>
    obtain ⟨hsafe, hcached⟩ := h
    exact ⟨⟨⟨rfl, by rintro snap ⟨⟩⟩, hbelow _ hcached hsafe.cached_le⟩, hcached⟩

lemma Consistent.removeGatingSequence (h : q.Consistent values) (i : ι) :
    (q.removeGatingSequence i).2.Consistent values := by
  have hmem := fun j => (mem_removeGatingSequence (q := q) (i := i) (j := j)).mp
  have hnone : ∀ g : Gating ι, (g.removeGatingSequence i).2.gatingSequencesCache = none := by
    intro g
    simp only [Gating.removeGatingSequence]
    split_ifs <;> rfl
  cases q with
  | single s =>
    obtain ⟨hsafe, hbounds⟩ := h
    refine ⟨⟨⟨rfl, ?_⟩, ?_, ?_⟩, ⟨hbounds.room, hbounds.cached_le, hbounds.cursor_le⟩⟩
    · intro snap hsnap
      exact absurd ((hnone s.gating).symm.trans hsnap) (by simp)
    · exact fun j hj => hsafe.cached_le j (hmem j hj).1
    · exact fun j hj => hsafe.room j (hmem j hj).1
  | multi m =>
    obtain ⟨hsafe, hcached⟩ := h
    refine ⟨⟨⟨rfl, ?_⟩, fun j hj => hsafe.cached_le j (hmem j hj).1⟩, hcached⟩
    intro snap hsnap
    exact absurd ((hnone m.gating).symm.trans hsnap) (by simp)

end

end Sequencer

end Disruptor
