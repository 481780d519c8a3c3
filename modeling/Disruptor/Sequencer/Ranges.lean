import Disruptor.Sequencer.Claiming
import Disruptor.Sequencer.MultiProducer.Granting

/-!
# The ranges that claims take

A multi-producer sequencer takes a range off the cursor before it grants it, a single-producer
sequencer when it grants it. Either way the range is the next one, and no longer than the buffer.
-/

namespace Disruptor

variable {ι : Type*}

namespace SingleProducerSequencer

variable {s s' : SingleProducerSequencer ι} {values : ι → Int} {sequences : List (Option ι)}
  {lo hi : Int}

lemma claim_fits {n : Int} (hroom : s.wrapPoint n ≤ s.nextValue)
    (hs : s.claim n = (.claimed lo hi, s')) : hi - lo < s.getBufferSize := by
  obtain ⟨hrange, -⟩ := Prod.mk.inj hs
  obtain ⟨rfl, rfl⟩ := ClaimResult.claimed.inj hrange
  simp only [wrapPoint, getBufferSize] at hroom ⊢
  omega

lemma enter_claimed_fits {op : ClaimOperation} (hs : s.enter op = (.claimed lo hi, s')) :
    hi - lo < s.getBufferSize := by
  have hroom : ∀ n, ¬ s.CacheExhausted n → s.wrapPoint n ≤ s.nextValue := by
    intro n hn
    simp only [CacheExhausted, not_or, not_lt] at hn
    exact hn.1.trans hn.2
  cases op with
  | next n | tryNext n =>
    simp only [enter] at hs
    split_ifs at hs with hn hcache
    · cases hs
    · cases hs
    · exact claim_fits (hroom n hcache) hs
  | hasAvailableCapacity n =>
    simp only [enter] at hs
    split_ifs at hs <;> cases hs
  | remainingCapacity => cases hs

lemma callStep_claimed_fits {call : ClaimCall ι} (hsafe : s.Safe values sequences)
    (hknows : call.Knows s values sequences)
    (hs : s.callStep values call = (.claimed lo hi, s')) : hi - lo < s.getBufferSize := by
  cases call with
  | nextFence n | capacityFence n => cases hs
  | next n call =>
    simp only [callStep] at hs
    split at hs
    · cases hs
    · rename_i m s₁ hstep
      obtain ⟨-, hnext, -, hsize, -, hdone⟩ := hsafe.minimumStep hknows.2 hstep
      split_ifs at hs with hwrap
      · cases hs
      · have hm := (hdone m rfl).1
        have hfits := claim_fits (s := { s₁ with cachedValue := m })
          ((not_lt.mp hwrap).trans (hnext.symm ▸ hm)) hs
        simpa only [getBufferSize, hsize] using hfits
  | capacity n doStore call =>
    simp only [callStep] at hs
    split at hs
    · cases hs
    · rename_i m s₁ hstep
      obtain ⟨-, hnext, -, hsize, -, hdone⟩ := hsafe.minimumStep hknows.2 hstep
      split_ifs at hs with hwrap hstore
      · cases hs
      · have hm := (hdone m rfl).1
        have hfits := claim_fits (s := { s₁ with cachedValue := m })
          ((not_lt.mp hwrap).trans (hnext.symm ▸ hm)) hs
        simpa only [getBufferSize, hsize] using hfits
      · cases hs
  | remainingCapacity call =>
    simp only [callStep] at hs
    split at hs <;> cases hs

end SingleProducerSequencer

namespace MultiProducerSequencer

variable {m m' : MultiProducerSequencer ι} {values : ι → Int} {sequences : List (Option ι)}
  {lo hi : Int}

/-- A call that has found room asks for no more than the buffer holds. -/
def ClaimCall.FoundRoom (m : MultiProducerSequencer ι) : ClaimCall ι → Prop
  | .tryCompareAndSet n _ => n ≤ m.getBufferSize
  | _ => True

lemma ClaimCall.FoundRoom.of_bufferSize {call : ClaimCall ι} (h : call.FoundRoom m)
    (hsize : m'.bufferSize = m.bufferSize) : call.FoundRoom m' := by
  cases call with
  | tryCompareAndSet n current => simpa only [FoundRoom, getBufferSize, hsize] using h
  | _ => trivial

lemma capacityStep_foundRoom {n current : Int} {call : CapacityCall ι}
    (hwithin : call.Within current)
    (hs : m.capacityStep values n current call = (.inr true, m')) : n ≤ m.getBufferSize := by
  cases call with
  | readCache snap =>
    simp only [capacityStep] at hs
    split_ifs at hs with hcache
    · cases hs
    · simp only [CacheExhausted, not_or, not_lt, wrapPoint] at hcache
      omega
  | scan rest minSequence => cases rest <;> cases hs
  | storeCache minSequence =>
    have hle : minSequence ≤ current := hwithin
    obtain ⟨hroom, -⟩ := Prod.mk.inj hs
    have hwrap : m.wrapPoint current n ≤ minSequence := by simpa using hroom
    simp only [wrapPoint] at hwrap
    omega

lemma enter_foundRoom {op : ClaimOperation} {call : ClaimCall ι}
    (hs : m.enter op = .running call) : call.FoundRoom m := by
  cases op with
  | next n | tryNext n =>
    simp only [enter] at hs
    split_ifs at hs
    cases hs
    trivial
  | hasAvailableCapacity n | remainingCapacity =>
    cases hs
    trivial

lemma callStep_foundRoom {call call' : ClaimCall ι} {spurious : Bool}
    (hwithin : call.Within m.cursor)
    (hs : m.callStep values spurious call = (.running call', m')) : call'.FoundRoom m := by
  cases call with
  | tryCapacity n current call =>
    simp only [callStep] at hs
    split at hs
    · cases hs
      trivial
    · rename_i m₁ hstep
      cases hs
      exact capacityStep_foundRoom hwithin.2 hstep
    · cases hs
  | nextReadCache n current | tryCompareAndSet n current =>
    simp only [callStep] at hs
    split_ifs at hs <;> cases hs
    trivial
  | nextWait n current call =>
    simp only [callStep] at hs
    split at hs
    · cases hs
      trivial
    · split_ifs at hs <;> cases hs <;> trivial
  | capacity n current call | remaining current call =>
    simp only [callStep] at hs
    split at hs <;> cases hs <;> trivial
  | nextStoreCache n current g => cases hs
  | remainingProduced => cases hs
  | _ =>
    cases hs
    trivial

lemma callStep_claimed_fits {call : ClaimCall ι} {spurious : Bool} (hfits : call.Fits m)
    (hroom : call.FoundRoom m) (hs : m.callStep values spurious call = (.claimed lo hi, m')) :
    hi - lo < m.getBufferSize := by
  cases call with
  | nextReadCache n current =>
    have hn : n ≤ m.getBufferSize := hfits
    simp only [callStep] at hs
    split_ifs at hs <;> cases hs
    omega
  | nextWait n current call =>
    simp only [callStep] at hs
    split at hs
    · cases hs
    · split_ifs at hs <;> cases hs
  | nextStoreCache n current g =>
    have hn : n ≤ m.getBufferSize := hfits
    cases hs
    omega
  | tryCompareAndSet n current =>
    have hn : n ≤ m.getBufferSize := hroom
    simp only [callStep] at hs
    split_ifs at hs <;> cases hs
    omega
  | tryCapacity n current call | capacity n current call | remaining current call =>
    simp only [callStep] at hs
    split at hs <;> cases hs
  | _ => cases hs

end MultiProducerSequencer

namespace Sequencer

variable {q q' : Sequencer ι} {values : ι → Int} {r : ClaimResult (ClaimCall ι)}

/-- The range that a call has taken and not been granted yet. -/
def ClaimCall.taken : ClaimCall ι → Option (Int × Int)
  | .single _ => none
  | .multi call => call.taken

/-- A call asks for no more than the buffer holds. -/
def ClaimCall.Fits (q : Sequencer ι) : ClaimCall ι → Prop
  | .single _ => True
  | .multi call => ∀ m, q = .multi m → call.Fits m ∧ call.FoundRoom m

lemma ClaimCall.Fits.of_bufferSize {call : ClaimCall ι} (h : call.Fits q)
    (hsize : q'.bufferSize = q.bufferSize) (hmulti : ∀ m, q' = .multi m → ∃ m', q = .multi m') :
    call.Fits q' := by
  cases call with
  | single call => trivial
  | multi call =>
    intro m hm
    obtain ⟨m', rfl⟩ := hmulti m hm
    subst hm
    obtain ⟨hfits, hroom⟩ := h m' rfl
    exact ⟨hfits.of_bufferSize hsize, hroom.of_bufferSize hsize⟩

/-- A step of a call takes the next range, or grants what was taken, or does neither. -/
def Takes (q q' : Sequencer ι) (taken : Option (Int × Int)) : ClaimResult (ClaimCall ι) → Prop
  | .running call =>
    q'.claimed = q.claimed ∧ call.taken = taken ∨
      taken = none ∧ q.claimed ≤ q'.claimed ∧ call.taken = some (q.claimed + 1, q'.claimed)
  | .claimed lo hi =>
    q'.claimed = q.claimed ∧ taken = some (lo, hi) ∨
      taken = none ∧ q.claimed ≤ q'.claimed ∧ lo = q.claimed + 1 ∧ hi = q'.claimed
  | .ended => taken = none ∧ q'.claimed = q.claimed

/-- What a granted range is, or what a call that goes on has asked for. -/
def WithinBuffer (q : Sequencer ι) : ClaimResult (ClaimCall ι) → Prop
  | .running call => call.Fits q
  | .claimed lo hi => hi - lo < q.bufferSize.size
  | .ended => True

lemma single_takes {s s' : SingleProducerSequencer ι} {sequences : List (Option ι)}
    {r : ClaimResult (SingleProducerSequencer.ClaimCall ι)}
    (h : SingleProducerSequencer.Sound s s' values sequences r) :
    Takes (.single s) (.single s') none (r.map .single) := by
  have hle := h.nextValue_le
  cases r with
  | running call => exact Or.inl ⟨h.1, rfl⟩
  | claimed lo hi => exact Or.inr ⟨rfl, hle, h.1, h.2.1⟩
  | ended => exact ⟨rfl, h⟩

lemma multi_takes {m m' : MultiProducerSequencer ι} {sequences : List (Option ι)}
    {taken : Option (Int × Int)} {r : ClaimResult (MultiProducerSequencer.ClaimCall ι)}
    (h : MultiProducerSequencer.Sound m m' values sequences taken r) :
    Takes (.multi m) (.multi m') taken (r.map .multi) := by
  have hle := h.cursor_le
  cases r with
  | running call =>
    exact h.2.imp_right fun ⟨hnone, hlt, htaken⟩ => ⟨hnone, hlt.le, htaken⟩
  | claimed lo hi =>
    exact h.2.2.imp_right fun ⟨hnone, hlo, hhi⟩ => ⟨hnone, hle, hlo, hhi⟩
  | ended => exact h

/-- What readers look at stays, or the cursor of a single producer is set to what is claimed. -/
inductive Fences : Sequencer ι → Sequencer ι → Prop
  | single {s s' : SingleProducerSequencer ι}
      (hcursor : s'.cursor = s.cursor ∨ s'.cursor = s.nextValue) : Fences (.single s) (.single s')
  | multi {m m' : MultiProducerSequencer ι} (hsize : m'.bufferSize = m.bufferSize)
      (hflags : m'.availableBuffer = m.availableBuffer) : Fences (.multi m) (.multi m')

lemma Fences.exists_multi (h : q.Fences q') {m : MultiProducerSequencer ι} (hq : q' = .multi m) :
    ∃ m', q = .multi m' := by
  cases h with
  | single hcursor => cases hq
  | @multi m' => exact ⟨m', rfl⟩

lemma Takes.claimed_le {taken : Option (Int × Int)} (h : q.Takes q' taken r) :
    q.claimed ≤ q'.claimed := by
  cases r with
  | running call => exact h.elim (fun hkeep => hkeep.1.ge) fun htake => htake.2.1
  | claimed lo hi => exact h.elim (fun hkeep => hkeep.1.ge) fun htake => htake.2.1
  | ended => exact h.2.ge

lemma Claimed.le {hi : Int} (h : q.Claimed hi) : hi ≤ q.claimed := by
  cases q with
  | single s => exact le_of_eq h
  | multi m => exact h

/-- A producer enters an operation that claims. -/
lemma Consistent.enter_takes (h : q.Consistent values) {op : ClaimOperation}
    (hs : q.enter op = (r, q')) : Takes q q' none r ∧ q.WithinBuffer r ∧ q.Fences q' := by
  cases q with
  | single s =>
    obtain ⟨rfl, rfl⟩ := Prod.mk.inj hs
    obtain ⟨-, hsound, hcursor, -⟩ := h.1.enter (Eq.refl (s.enter op))
    refine ⟨single_takes hsound, ?_, .single (Or.inl hcursor)⟩
    cases hresult : s.enter op with
    | mk r s' =>
      cases r with
      | running call => trivial
      | claimed lo hi => exact SingleProducerSequencer.enter_claimed_fits hresult
      | ended => trivial
  | multi m =>
    obtain ⟨rfl, rfl⟩ := Prod.mk.inj hs
    have hsound : MultiProducerSequencer.Sound m m values m.gating.gatingSequences.sequences none
        (m.enter op) := MultiProducerSequencer.enter_sound
    refine ⟨multi_takes hsound, ?_, .multi rfl rfl⟩
    cases hresult : m.enter op with
    | running call =>
      intro m' hm
      cases hm
      exact ⟨MultiProducerSequencer.enter_fits hresult,
        MultiProducerSequencer.enter_foundRoom hresult⟩
    | claimed lo hi =>
      cases op <;> simp only [MultiProducerSequencer.enter] at hresult
      case next | tryNext => split_ifs at hresult
      all_goals cases hresult
    | ended => trivial

/-- A producer takes a step of a call. -/
lemma Consistent.callStep_takes (h : q.Consistent values) {call : ClaimCall ι} {spurious : Bool}
    (hcall : call.Holds q values) (hfits : call.Fits q)
    (hs : q.callStep values spurious call = some (r, q')) :
    Takes q q' call.taken r ∧ q.WithinBuffer r ∧ q.Fences q' := by
  cases call with
  | single call =>
    obtain ⟨s, rfl, hknows, -⟩ := hcall
    obtain ⟨rfl, rfl⟩ := Prod.mk.inj (Option.some.inj hs)
    obtain ⟨-, hsound, hcursor, -⟩ := h.1.callStep hknows (Eq.refl (s.callStep values call))
    refine ⟨single_takes hsound, ?_, .single (hcursor.imp_right And.left)⟩
    cases hresult : s.callStep values call with
    | mk r s' =>
      cases r with
      | running call => trivial
      | claimed lo hi => exact SingleProducerSequencer.callStep_claimed_fits h.1 hknows hresult
      | ended => trivial
  | multi call =>
    obtain ⟨m, rfl, hknows, hwithin⟩ := hcall
    obtain ⟨rfl, rfl⟩ := Prod.mk.inj (Option.some.inj hs)
    obtain ⟨hcallFits, hroom⟩ := hfits m rfl
    obtain ⟨-, hsound, hsize, hbuffer⟩ :=
      h.1.callStep hknows (Eq.refl (m.callStep values spurious call))
    refine ⟨multi_takes hsound, ?_, .multi hsize hbuffer⟩
    cases hresult : m.callStep values spurious call with
    | mk r m' =>
      cases r with
      | running call' =>
        intro m₁ hm
        cases hm
        exact ⟨hcallFits.callStep hresult,
          MultiProducerSequencer.callStep_foundRoom hwithin hresult⟩
      | claimed lo hi =>
        exact MultiProducerSequencer.callStep_claimed_fits hcallFits hroom hresult
      | ended => trivial

end Sequencer

end Disruptor
