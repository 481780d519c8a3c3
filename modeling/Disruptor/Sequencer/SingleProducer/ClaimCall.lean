import Disruptor.Sequencer.Calls
import Disruptor.Sequencer.SingleProducer.Basic

/-!
# `SingleProducerSequencer`, step by step

The calls of the one producer in atomic steps. `nextValue_` and `cachedValue_` belong to the
producer's thread; the cursor, the gating list and the gating sequences are shared.
-/

namespace Disruptor

namespace SingleProducerSequencer

variable {ι : Type*}

/-- Where a call is that has got as far as its first shared access. -/
inductive ClaimCall (ι : Type*) where
  /-- In `next(n)`, before `cursor_.setVolatile(nextValue)`. -/
  | nextFence (n : Int)
  /-- In the wait loop of `next(n)`. -/
  | next (n : Int) (call : MinimumCall ι)
  /-- In `hasAvailableCapacity(n, true)`, before `cursor_.setVolatile(nextValue)`. -/
  | capacityFence (n : Int)
  /-- In `hasAvailableCapacity(n, doStore)`. -/
  | capacity (n : Int) (doStore : Bool) (call : MinimumCall ι)
  | remainingCapacity (call : MinimumCall ι)

/-- The call claims when it succeeds. -/
def ClaimCall.claims : ClaimCall ι → Bool
  | .nextFence _ | .next _ _ | .capacityFence _ => true
  | .capacity _ doStore _ => doStore
  | .remainingCapacity _ => false

/-- The next step of the call is `cursor_.setVolatile(nextValue)`. -/
def ClaimCall.fences : ClaimCall ι → Bool
  | .nextFence _ | .capacityFence _ => true
  | _ => false

/-- `nextValue_ = nextValue + n`. -/
def claim (s : SingleProducerSequencer ι) (n : Int) :
    ClaimResult (ClaimCall ι) × SingleProducerSequencer ι :=
  (.claimed (s.nextValue + 1) (s.nextValue + n), { s with nextValue := s.nextValue + n })

/-- The producer calls an operation: what it does before the first shared access. -/
def enter (s : SingleProducerSequencer ι) : ClaimOperation →
    ClaimResult (ClaimCall ι) × SingleProducerSequencer ι
  | .next n =>
    if n < 1 ∨ n > s.getBufferSize then (.ended, s)
    else if s.CacheExhausted n then (.running (.nextFence n), s)
    else s.claim n
  | .tryNext n =>
    if n < 1 then (.ended, s)
    else if s.CacheExhausted n then (.running (.capacityFence n), s)
    else s.claim n
  | .hasAvailableCapacity n =>
    if s.CacheExhausted n then (.running (.capacity n false .readCache), s) else (.ended, s)
  | .remainingCapacity => (.running (.remainingCapacity .readCache), s)

/-- One atomic step of `minimumSequence(nextValue)`. -/
def minimumStep (s : SingleProducerSequencer ι) (values : ι → Int) (call : MinimumCall ι) :
    (MinimumCall ι ⊕ Int) × SingleProducerSequencer ι :=
  let r := call.step s.gating values s.nextValue
  (r.1, { s with gating := r.2 })

/-- One atomic step of a call. -/
def callStep (s : SingleProducerSequencer ι) (values : ι → Int) :
    ClaimCall ι → ClaimResult (ClaimCall ι) × SingleProducerSequencer ι
  | .nextFence n => (.running (.next n .readCache), { s with cursor := s.nextValue })
  | .next n call =>
    match s.minimumStep values call with
    | (.inl call', s) => (.running (.next n call'), s)
    | (.inr minSequence, s) =>
      if s.wrapPoint n > minSequence then (.running (.next n .readCache), s)
      else { s with cachedValue := minSequence }.claim n
  | .capacityFence n =>
    (.running (.capacity n true .readCache), { s with cursor := s.nextValue })
  | .capacity n doStore call =>
    match s.minimumStep values call with
    | (.inl call', s) => (.running (.capacity n doStore call'), s)
    | (.inr minSequence, s) =>
      let s := { s with cachedValue := minSequence }
      if s.wrapPoint n > minSequence then (.ended, s)
      else if doStore then s.claim n
      else (.ended, s)
  | .remainingCapacity call =>
    match s.minimumStep values call with
    | (.inl call', s) => (.running (.remainingCapacity call'), s)
    | (.inr _, s) => (.ended, s)

/-! ### Claims stay within the ring -/

/-- Neither the claimed position nor the cached gating value is ahead of what the gating
sequences allow. -/
structure Safe (s : SingleProducerSequencer ι) (values : ι → Int) (sequences : List (Option ι)) :
    Prop where
  gating : s.gating.Holds sequences
  cached_le : ∀ i, some i ∈ sequences → s.cachedValue ≤ values i
  room : ∀ i, some i ∈ sequences → s.nextValue - s.getBufferSize ≤ values i

/-- What a call knows at each of its places. -/
def ClaimCall.Knows (s : SingleProducerSequencer ι) (values : ι → Int)
    (sequences : List (Option ι)) : ClaimCall ι → Prop
  | .nextFence n | .capacityFence n => 1 ≤ n
  | .next n call => 1 ≤ n ∧ call.Bounds values s.nextValue sequences
  | .capacity n doStore call =>
    (doStore = true → 1 ≤ n) ∧ call.Bounds values s.nextValue sequences
  | .remainingCapacity call => call.Bounds values s.nextValue sequences

/-- What a step of a call leaves behind. -/
def Sound (s s' : SingleProducerSequencer ι) (values : ι → Int)
    (sequences : List (Option ι)) : ClaimResult (ClaimCall ι) → Prop
  | .running call => s'.nextValue = s.nextValue ∧ call.Knows s' values sequences
  | .claimed lo hi => lo = s.nextValue + 1 ∧ hi = s'.nextValue ∧ lo ≤ hi
  | .ended => s'.nextValue = s.nextValue

variable {s s' : SingleProducerSequencer ι} {values values' : ι → Int}
  {sequences : List (Option ι)} {n : Int} {r : ClaimResult (ClaimCall ι)}

lemma Sound.of_eq {s₁ : SingleProducerSequencer ι}
    (h : Sound s₁ s' values sequences r) (hnext : s₁.nextValue = s.nextValue) :
    Sound s s' values sequences r := by
  cases r with
  | running call => exact ⟨h.1.trans hnext, h.2⟩
  | claimed lo hi => exact ⟨hnext ▸ h.1, h.2⟩
  | ended => exact h.trans hnext

/-- The claimed position moves forward only. -/
lemma Sound.nextValue_le (h : Sound s s' values sequences r) : s.nextValue ≤ s'.nextValue := by
  cases r with
  | running call => exact h.1.ge
  | claimed lo hi =>
    obtain ⟨rfl, rfl, hle⟩ := h
    omega
  | ended => exact le_of_eq h.symm

lemma Safe.mono (h : s.Safe values sequences) (hv : ∀ i, values i ≤ values' i) :
    s.Safe values' sequences :=
  ⟨h.gating, fun i hi => (h.cached_le i hi).trans (hv i),
    fun i hi => (h.room i hi).trans (hv i)⟩

lemma ClaimCall.Knows.mono {call : ClaimCall ι} (h : call.Knows s values sequences)
    (hv : ∀ i, values i ≤ values' i) : call.Knows s values' sequences := by
  cases call with
  | nextFence n => exact h
  | next n call => exact ⟨h.1, h.2.mono hv⟩
  | capacityFence n => exact h
  | capacity n doStore call => exact ⟨h.1, h.2.mono hv⟩
  | remainingCapacity call => exact MinimumCall.Bounds.mono h hv

/-- The fence changes nothing but the cursor. -/
lemma Safe.fence (h : s.Safe values sequences) (cursor : Int) :
    ({ s with cursor := cursor }).Safe values sequences :=
  ⟨h.gating, h.cached_le, h.room⟩

/-- A claim is safe when the cached gating value has room for it. -/
lemma Safe.claim (h : s.Safe values sequences) (hn : 1 ≤ n) (hroom : s.wrapPoint n ≤ s.cachedValue)
    (hs : s.claim n = (r, s')) :
    s'.Safe values sequences ∧ Sound s s' values sequences r ∧ s'.cursor = s.cursor ∧
      s'.bufferSize = s.bufferSize := by
  simp only [SingleProducerSequencer.claim, Prod.mk.injEq] at hs
  obtain ⟨rfl, rfl⟩ := hs
  refine ⟨⟨h.gating, h.cached_le, ?_⟩, ⟨rfl, rfl, by omega⟩, rfl, rfl⟩
  intro i hi
  have hcached := h.cached_le i hi
  simp only [wrapPoint, getBufferSize] at hroom ⊢
  omega

/-- Entering an operation keeps the sequencer safe. -/
lemma Safe.enter (h : s.Safe values sequences) {op : ClaimOperation}
    (hs : s.enter op = (r, s')) :
    s'.Safe values sequences ∧ Sound s s' values sequences r ∧ s'.cursor = s.cursor ∧
      s'.bufferSize = s.bufferSize := by
  have hstay : ∀ r' : ClaimResult (ClaimCall ι), (r', s) = (r, s') → Sound s s values sequences r' →
      s'.Safe values sequences ∧ Sound s s' values sequences r ∧ s'.cursor = s.cursor ∧
        s'.bufferSize = s.bufferSize := by
    intro r' heq hsound
    obtain ⟨rfl, rfl⟩ := Prod.mk.inj heq
    exact ⟨h, hsound, rfl, rfl⟩
  have hroom : ∀ m, ¬ s.CacheExhausted m → s.wrapPoint m ≤ s.cachedValue := by
    intro m hm
    simp only [CacheExhausted, not_or, not_lt] at hm
    exact hm.1
  cases op with
  | next n =>
    simp only [SingleProducerSequencer.enter] at hs
    split_ifs at hs with hn hcache
    · exact hstay _ hs rfl
    · have hpos : 1 ≤ n := by omega
      exact hstay _ hs ⟨rfl, hpos⟩
    · exact h.claim (by omega) (hroom n hcache) hs
  | tryNext n =>
    simp only [SingleProducerSequencer.enter] at hs
    split_ifs at hs with hn hcache
    · exact hstay _ hs rfl
    · have hpos : 1 ≤ n := by omega
      exact hstay _ hs ⟨rfl, hpos⟩
    · exact h.claim (by omega) (hroom n hcache) hs
  | hasAvailableCapacity n =>
    simp only [SingleProducerSequencer.enter] at hs
    split_ifs at hs with hcache
    · exact hstay _ hs ⟨rfl, by simp, trivial⟩
    · exact hstay _ hs rfl
  | remainingCapacity => exact hstay _ hs ⟨rfl, trivial⟩

/-- A step of `minimumSequence` inside a call. -/
lemma Safe.minimumStep (h : s.Safe values sequences) {call : MinimumCall ι}
    (hcall : call.Bounds values s.nextValue sequences) {m : MinimumCall ι ⊕ Int}
    (hs : s.minimumStep values call = (m, s')) :
    s'.Safe values sequences ∧ s'.nextValue = s.nextValue ∧ s'.cursor = s.cursor ∧
      s'.bufferSize = s.bufferSize ∧
      (∀ call', m = .inl call' → call'.Bounds values s.nextValue sequences) ∧
      (∀ v, m = .inr v → v ≤ s.nextValue ∧ ∀ i, some i ∈ sequences → v ≤ values i) := by
  simp only [SingleProducerSequencer.minimumStep, Prod.mk.injEq] at hs
  obtain ⟨rfl, rfl⟩ := hs
  exact ⟨⟨MinimumCall.step_holds h.gating hcall, h.cached_le, h.room⟩, rfl, rfl, rfl,
    fun _ hm => MinimumCall.step_bounds h.gating hcall hm,
    fun _ hm => MinimumCall.step_result hcall hm⟩

/-- The result of `minimumSequence` may be cached. -/
lemma Safe.cache (h : s.Safe values sequences) {m : Int}
    (hm : ∀ i, some i ∈ sequences → m ≤ values i) :
    ({ s with cachedValue := m }).Safe values sequences :=
  ⟨h.gating, hm, h.room⟩

/-- A step of a call keeps the sequencer safe; the cursor stays or is set to the claimed
position. -/
lemma Safe.callStep (h : s.Safe values sequences) {call : ClaimCall ι}
    (hcall : call.Knows s values sequences) (hs : s.callStep values call = (r, s')) :
    s'.Safe values sequences ∧ Sound s s' values sequences r ∧
      (s'.cursor = s.cursor ∨ s'.cursor = s.nextValue ∧ call.claims = true) ∧
      s'.bufferSize = s.bufferSize := by
  cases call with
  | nextFence n =>
    simp only [SingleProducerSequencer.callStep, Prod.mk.injEq] at hs
    obtain ⟨rfl, rfl⟩ := hs
    exact ⟨h.fence _, ⟨rfl, hcall, trivial⟩, Or.inr ⟨rfl, rfl⟩, rfl⟩
  | next n call =>
    obtain ⟨hn, hbounds⟩ := hcall
    simp only [SingleProducerSequencer.callStep] at hs
    split at hs
    · rename_i call' s₁ hstep
      obtain ⟨rfl, rfl⟩ := Prod.mk.inj hs
      obtain ⟨hsafe, hnext, hcursor, hsize, hgo, -⟩ := h.minimumStep hbounds hstep
      exact ⟨hsafe, ⟨hnext, hn, hnext.symm ▸ hgo call' rfl⟩, Or.inl hcursor, hsize⟩
    · rename_i m s₁ hstep
      obtain ⟨hsafe, hnext, hcursor, hsize, -, hdone⟩ := h.minimumStep hbounds hstep
      split_ifs at hs with hwrap
      · obtain ⟨rfl, rfl⟩ := Prod.mk.inj hs
        exact ⟨hsafe, ⟨hnext, hn, trivial⟩, Or.inl hcursor, hsize⟩
      · obtain ⟨hsafe', hsound, hcursor', hsize'⟩ :=
          (hsafe.cache (hdone m rfl).2).claim hn (not_lt.mp hwrap) hs
        exact ⟨hsafe', hsound.of_eq hnext, Or.inl (hcursor'.trans hcursor), hsize'.trans hsize⟩
  | capacityFence n =>
    simp only [SingleProducerSequencer.callStep, Prod.mk.injEq] at hs
    obtain ⟨rfl, rfl⟩ := hs
    exact ⟨h.fence _, ⟨rfl, fun _ => hcall, trivial⟩, Or.inr ⟨rfl, rfl⟩, rfl⟩
  | capacity n doStore call =>
    obtain ⟨hn, hbounds⟩ := hcall
    simp only [SingleProducerSequencer.callStep] at hs
    split at hs
    · rename_i call' s₁ hstep
      obtain ⟨rfl, rfl⟩ := Prod.mk.inj hs
      obtain ⟨hsafe, hnext, hcursor, hsize, hgo, -⟩ := h.minimumStep hbounds hstep
      exact ⟨hsafe, ⟨hnext, hn, hnext.symm ▸ hgo call' rfl⟩, Or.inl hcursor, hsize⟩
    · rename_i m s₁ hstep
      obtain ⟨hsafe, hnext, hcursor, hsize, -, hdone⟩ := h.minimumStep hbounds hstep
      have hsafe' := hsafe.cache (hdone m rfl).2
      split_ifs at hs with hwrap hstore
      · obtain ⟨rfl, rfl⟩ := Prod.mk.inj hs
        exact ⟨hsafe', hnext, Or.inl hcursor, hsize⟩
      · obtain ⟨hclaim, hsound, hcursor', hsize'⟩ :=
          hsafe'.claim (hn hstore) (not_lt.mp hwrap) hs
        exact ⟨hclaim, hsound.of_eq hnext, Or.inl (hcursor'.trans hcursor), hsize'.trans hsize⟩
      · obtain ⟨rfl, rfl⟩ := Prod.mk.inj hs
        exact ⟨hsafe', hnext, Or.inl hcursor, hsize⟩
  | remainingCapacity call =>
    simp only [SingleProducerSequencer.callStep] at hs
    split at hs
    · rename_i call' s₁ hstep
      obtain ⟨rfl, rfl⟩ := Prod.mk.inj hs
      obtain ⟨hsafe, hnext, hcursor, hsize, hgo, -⟩ := h.minimumStep hcall hstep
      have hgo' : call'.Bounds values s₁.nextValue sequences := hnext.symm ▸ hgo call' rfl
      exact ⟨hsafe, ⟨hnext, hgo'⟩, Or.inl hcursor, hsize⟩
    · rename_i m s₁ hstep
      obtain ⟨rfl, rfl⟩ := Prod.mk.inj hs
      obtain ⟨hsafe, hnext, hcursor, hsize, -, -⟩ := h.minimumStep hcall hstep
      exact ⟨hsafe, hnext, Or.inl hcursor, hsize⟩

/-- No step but the fence stores the cursor. -/
lemma callStep_cursor {call : ClaimCall ι} :
    (s.callStep values call).2.cursor = if call.fences then s.nextValue else s.cursor := by
  cases call with
  | nextFence n | capacityFence n => rfl
  | next n call =>
    simp only [SingleProducerSequencer.callStep, SingleProducerSequencer.minimumStep,
      ClaimCall.fences, Bool.false_eq_true, if_false]
    split
    · rename_i heq
      rw [← (Prod.mk.inj heq).2]
    · rename_i heq
      rw [← (Prod.mk.inj heq).2]
      split_ifs <;> rfl
  | capacity n doStore call =>
    simp only [SingleProducerSequencer.callStep, SingleProducerSequencer.minimumStep,
      ClaimCall.fences, Bool.false_eq_true, if_false]
    split
    · rename_i heq
      rw [← (Prod.mk.inj heq).2]
    · rename_i heq
      rw [← (Prod.mk.inj heq).2]
      split_ifs <;> rfl
  | remainingCapacity call =>
    simp only [SingleProducerSequencer.callStep, SingleProducerSequencer.minimumStep,
      ClaimCall.fences, Bool.false_eq_true, if_false]
    split
    · rename_i heq
      rw [← (Prod.mk.inj heq).2]
    · rename_i heq
      rw [← (Prod.mk.inj heq).2]

/-- Only the operations that claim lead to a claim. -/
lemma enter_claims {op : ClaimOperation} (hs : s.enter op = (r, s')) :
    (∀ call, r = .running call → call.claims = op.claims) ∧
      ∀ lo hi, r = .claimed lo hi → op.claims = true := by
  cases op <;> simp only [SingleProducerSequencer.enter, SingleProducerSequencer.claim] at hs
  case remainingCapacity =>
    obtain ⟨rfl, rfl⟩ := Prod.mk.inj hs
    simp [ClaimCall.claims, ClaimOperation.claims]
  all_goals
    split_ifs at hs <;> obtain ⟨rfl, rfl⟩ := Prod.mk.inj hs <;>
      simp [ClaimCall.claims, ClaimOperation.claims]

/-- Whether a call claims does not change on its way. -/
lemma callStep_claims {call : ClaimCall ι} (hs : s.callStep values call = (r, s')) :
    (∀ call', r = .running call' → call'.claims = call.claims) ∧
      ∀ lo hi, r = .claimed lo hi → call.claims = true := by
  cases call <;> simp only [SingleProducerSequencer.callStep, SingleProducerSequencer.claim] at hs
  case nextFence | capacityFence =>
    obtain ⟨rfl, rfl⟩ := Prod.mk.inj hs
    simp [ClaimCall.claims]
  all_goals
    split at hs
    · obtain ⟨rfl, rfl⟩ := Prod.mk.inj hs
      simp [ClaimCall.claims]
    · try split_ifs at hs
      all_goals
        obtain ⟨rfl, rfl⟩ := Prod.mk.inj hs
        simp_all [ClaimCall.claims]

end SingleProducerSequencer

end Disruptor
