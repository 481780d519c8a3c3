import Disruptor.Sequencer.MultiProducer.ClaimCall

/-!
# A claim is granted once there is room

`next(n)` of a multi-producer sequencer takes its range off the cursor before it waits for room.
A call that has taken its range and goes on alone is granted it as soon as every gating sequence
has reached the position before the range, whatever the call has read before. A call that finds room
for its range whenever it looks is granted it within one pass of the wait loop.
-/

namespace Disruptor.MultiProducerSequencer

variable {ι : Type*} {m m' : MultiProducerSequencer ι} {values : ι → Int}
  {sequences : List (Option ι)} {n current lo hi : Int} {call : ClaimCall ι}

/-- Going on alone, the call is granted the range. -/
inductive Grants (values : ι → Int) (lo hi : Int) :
    MultiProducerSequencer ι → ClaimCall ι → MultiProducerSequencer ι → Prop where
  | done {m m' : MultiProducerSequencer ι} {call : ClaimCall ι}
    (hs : m.callStep values false call = (.claimed lo hi, m')) : Grants values lo hi m call m'
  | go {m m₁ m' : MultiProducerSequencer ι} {call call' : ClaimCall ι}
    (hs : m.callStep values false call = (.running call', m₁))
    (hr : Grants values lo hi m₁ call' m') : Grants values lo hi m call m'

/-- A call of `next(n)` asks for no more than the buffer holds. -/
def ClaimCall.Fits (m : MultiProducerSequencer ι) : ClaimCall ι → Prop
  | .nextAdd n | .nextReadCache n _ | .nextWait n _ _ | .nextStoreCache n _ _ =>
    n ≤ m.getBufferSize
  | _ => True

lemma enter_fits {op : ClaimOperation} (hs : m.enter op = .running call) : call.Fits m := by
  cases op with
  | next n =>
    simp only [enter] at hs
    split_ifs at hs with hn
    cases hs
    show n ≤ m.getBufferSize
    omega
  | tryNext n =>
    simp only [enter] at hs
    split_ifs at hs
    cases hs
    trivial
  | hasAvailableCapacity n | remainingCapacity =>
    cases hs
    trivial

lemma ClaimCall.Fits.of_bufferSize (h : call.Fits m) (hsize : m'.bufferSize = m.bufferSize) :
    call.Fits m' := by
  cases call with
  | nextAdd n | nextReadCache n current | nextWait n current call | nextStoreCache n current g =>
    simpa only [Fits, getBufferSize, hsize] using h
  | _ => trivial

/-- The request stays the same while `next` goes on. -/
lemma ClaimCall.Fits.callStep (h : call.Fits m) {spurious : Bool} {call' : ClaimCall ι}
    (hs : m.callStep values spurious call = (.running call', m')) : call'.Fits m := by
  cases call with
  | nextAdd n =>
    obtain ⟨hcall, -⟩ := Prod.mk.inj hs
    cases hcall
    exact h
  | nextReadCache n current =>
    simp only [MultiProducerSequencer.callStep] at hs
    split_ifs at hs <;> cases hs
    exact h
  | nextWait n current call =>
    simp only [MultiProducerSequencer.callStep] at hs
    split at hs
    · cases hs
      exact h
    · split_ifs at hs <;> cases hs
      · exact h
      · exact h
  | nextStoreCache n current g => cases hs
  | tryCapacity n current call | capacity n current call | remaining current call =>
    simp only [MultiProducerSequencer.callStep] at hs
    split at hs <;> cases hs <;> trivial
  | tryCompareAndSet n current =>
    simp only [MultiProducerSequencer.callStep] at hs
    split_ifs at hs <;> cases hs
    trivial
  | remainingProduced => cases hs
  | _ =>
    cases hs
    trivial

/-- What a claim after `current` needs to be granted: every gating sequence is at `current`. -/
structure RoomAfter (m : MultiProducerSequencer ι) (values : ι → Int)
    (sequences : List (Option ι)) (n current : Int) : Prop where
  gating : m.gating.Holds sequences
  le_bufferSize : n ≤ m.getBufferSize
  values : ∀ i, some i ∈ sequences → current ≤ values i

/-- The call is granted what it has taken, and the cursor stays. -/
def WillGrant (values : ι → Int) (n current : Int) (m : MultiProducerSequencer ι)
    (call : ClaimCall ι) : Prop :=
  ∃ m', Grants values (current + 1) (current + n) m call m' ∧ m'.cursor = m.cursor

lemma WillGrant.of_step {m₁ : MultiProducerSequencer ι} {call' : ClaimCall ι}
    (hs : m.callStep values false call = (.running call', m₁)) (hcursor : m₁.cursor = m.cursor)
    (h : WillGrant values n current m₁ call') : WillGrant values n current m call := by
  obtain ⟨m', hgrants, hcursor'⟩ := h
  exact ⟨m', .go hs hgrants, hcursor'.trans hcursor⟩

lemma willGrant_storeCache (m : MultiProducerSequencer ι) (g : Int) :
    WillGrant values n current m (.nextStoreCache n current g) :=
  ⟨_, .done rfl, rfl⟩

/-- The sequences that are read now are not behind. -/
lemma RoomAfter.scan (h : m.RoomAfter values sequences n current) (snap : Snapshot ι)
    {rest : List (Option ι)} {minimum : Int} (hrest : ∀ i, some i ∈ rest → current ≤ values i)
    (hminimum : current ≤ minimum) :
    WillGrant values n current m (.nextWait n current (.scan snap rest minimum)) := by
  induction rest generalizing minimum with
  | nil =>
    have hroom : ¬ m.wrapPoint current n > minimum := by
      have := h.le_bufferSize
      simp only [wrapPoint]
      omega
    refine WillGrant.of_step ?_ rfl (willGrant_storeCache m minimum)
    have hroom' : ¬ minimum < m.wrapPoint current n := hroom
    simp [MultiProducerSequencer.callStep, MultiProducerSequencer.minimumStep, MinimumCall.step,
      hroom']
  | cons seq rest ih =>
    refine WillGrant.of_step rfl rfl (ih (fun i hi => hrest i (List.mem_cons_of_mem _ hi)) ?_)
    cases seq with
    | none => exact hminimum
    | some i => exact le_min hminimum (hrest i List.mem_cons_self)

/-- The pointer to a list that was loaded is stored. -/
lemma RoomAfter.storeCache (h : m.RoomAfter values sequences n current) {snap : Snapshot ι}
    (hsnap : snap.sequences = sequences) :
    WillGrant values n current m (.nextWait n current (.storeCache snap)) := by
  let m₁ := { m with gating := { m.gating with gatingSequencesCache := some snap } }
  have hm₁ : m₁.RoomAfter values sequences n current :=
    ⟨⟨h.gating.current, fun s hs => Option.some.inj hs ▸ hsnap⟩, h.le_bufferSize, h.values⟩
  have hs : m.callStep values false (.nextWait n current (.storeCache snap)) =
      (.running (.nextWait n current (.scan snap snap.sequences current)), m₁) := rfl
  refine WillGrant.of_step hs rfl (hm₁.scan snap ?_ le_rfl)
  rw [hsnap]
  exact h.values

/-- `minimumSequence` is entered. -/
lemma RoomAfter.readCache (h : m.RoomAfter values sequences n current) :
    WillGrant values n current m (.nextWait n current .readCache) := by
  cases hcache : m.gating.gatingSequencesCache with
  | some snap =>
    have hs : m.callStep values false (.nextWait n current .readCache) =
        (.running (.nextWait n current (.scan snap snap.sequences current)), m) := by
      simp [MultiProducerSequencer.callStep, MultiProducerSequencer.minimumStep, MinimumCall.step,
        hcache]
    refine WillGrant.of_step hs rfl (h.scan snap ?_ le_rfl)
    rw [h.gating.cached snap hcache]
    exact h.values
  | none =>
    have hs : m.callStep values false (.nextWait n current .readCache) =
        (.running (.nextWait n current .loadSnapshot), m) := by
      simp [MultiProducerSequencer.callStep, MultiProducerSequencer.minimumStep, MinimumCall.step,
        hcache]
    exact WillGrant.of_step hs rfl (WillGrant.of_step rfl rfl (h.storeCache h.gating.current))

/-- A minimum of values that were read before may be out of date; then the loop goes round. -/
lemma RoomAfter.scan_stale (h : m.RoomAfter values sequences n current) (snap : Snapshot ι)
    (rest : List (Option ι)) (minimum : Int) :
    WillGrant values n current m (.nextWait n current (.scan snap rest minimum)) := by
  induction rest generalizing minimum with
  | nil =>
    by_cases hwrap : minimum < m.wrapPoint current n
    · refine WillGrant.of_step ?_ rfl h.readCache
      simp [MultiProducerSequencer.callStep, MultiProducerSequencer.minimumStep, MinimumCall.step,
        hwrap]
    · refine WillGrant.of_step ?_ rfl (willGrant_storeCache m minimum)
      simp [MultiProducerSequencer.callStep, MultiProducerSequencer.minimumStep, MinimumCall.step,
        hwrap]
  | cons seq rest ih => exact WillGrant.of_step rfl rfl (ih _)

/-- Wherever a call of `next(n)` is that has taken its range, it is granted the range. -/
lemma RoomAfter.willGrant (h : m.RoomAfter values sequences n current) {call : MinimumCall ι}
    (hcall : call.Bounds values current sequences) :
    WillGrant values n current m (.nextWait n current call) := by
  cases call with
  | readCache => exact h.readCache
  | loadSnapshot =>
    exact WillGrant.of_step rfl rfl (h.storeCache h.gating.current)
  | storeCache snap => exact h.storeCache hcall
  | scan snap rest minimum => exact h.scan_stale snap rest minimum

/-- A call that has taken `lo .. hi` is granted it, once every gating sequence is at `lo - 1`. -/
theorem exists_grants (hsafe : m.gating.Holds sequences) (hknows : call.Knows m values sequences)
    (hfits : call.Fits m) (htaken : call.taken = some (lo, hi))
    (hvalues : ∀ i, some i ∈ sequences → lo - 1 ≤ values i) :
    ∃ m', Grants values lo hi m call m' ∧ m'.cursor = m.cursor := by
  cases call with
  | nextReadCache n current =>
    obtain ⟨rfl, rfl⟩ := Prod.mk.inj (Option.some.inj htaken)
    have hroom : m.RoomAfter values sequences n current :=
      ⟨hsafe, hfits, fun i hi => by have := hvalues i hi; omega⟩
    by_cases hcache : m.CacheExhausted current n
    · refine WillGrant.of_step ?_ rfl hroom.readCache
      simp [MultiProducerSequencer.callStep, hcache]
    · refine ⟨m, .done ?_, rfl⟩
      simp [MultiProducerSequencer.callStep, hcache]
  | nextWait n current call =>
    obtain ⟨rfl, rfl⟩ := Prod.mk.inj (Option.some.inj htaken)
    have hroom : m.RoomAfter values sequences n current :=
      ⟨hsafe, hfits, fun i hi => by have := hvalues i hi; omega⟩
    exact hroom.willGrant hknows.2
  | nextStoreCache n current g =>
    obtain ⟨rfl, rfl⟩ := Prod.mk.inj (Option.some.inj htaken)
    exact willGrant_storeCache m g
  | _ => cases htaken

/-! ### Without waiting -/

/-- The argument of a call of `next`. -/
def ClaimCall.request : ClaimCall ι → Option Int
  | .nextAdd n | .nextReadCache n _ | .nextWait n _ _ | .nextStoreCache n _ _ => some n
  | _ => none

/-- What the call has read in this pass of the wait loop leaves room for its claim. -/
def ClaimCall.Clear (m : MultiProducerSequencer ι) (sequences : List (Option ι)) :
    ClaimCall ι → Prop
  | .nextWait n current (.scan _ rest minimum) =>
    m.wrapPoint current n ≤ minimum ∧ rest <:+ sequences
  | _ => True

/-- How many steps a call of `next` takes until its claim is granted, when it does not have to wait
and there are `k` gating sequences. -/
def ClaimCall.stepsToGrant (k : Nat) : ClaimCall ι → Nat
  | .nextAdd _ => k + 7
  | .nextReadCache _ _ => k + 6
  | .nextWait _ _ .readCache => k + 5
  | .nextWait _ _ .loadSnapshot => k + 4
  | .nextWait _ _ (.storeCache _) => k + 3
  | .nextWait _ _ (.scan _ rest _) => rest.length + 2
  | .nextStoreCache _ _ _ => 1
  | _ => 0

/-- What a step of a call of `next(n)` leads to when there is room for the claim: the call comes
closer to the grant, or the claim is granted. -/
def ClaimCall.Nears (sequences : List (Option ι)) (n : Int) (call : ClaimCall ι)
    (m' : MultiProducerSequencer ι) : ClaimResult (ClaimCall ι) → Prop
  | .running call' => call'.request = some n ∧ call'.Clear m' sequences ∧
      call'.stepsToGrant sequences.length < call.stepsToGrant sequences.length
  | .claimed lo hi => hi + 1 - lo = n
  | .ended => False

lemma nears_scan (hle : n ≤ m.getBufferSize) {call : ClaimCall ι} {snap : Snapshot ι}
    (hsnap : snap.sequences = sequences)
    (hlt : sequences.length + 2 < call.stepsToGrant sequences.length) :
    call.Nears sequences n m
      (.running (.nextWait n current (.scan snap snap.sequences current))) := by
  refine ⟨rfl, ⟨?_, ?_⟩, ?_⟩
  · simp only [wrapPoint]
    omega
  · exact hsnap ▸ List.suffix_rfl
  · simp only [ClaimCall.stepsToGrant, hsnap]
    exact hlt

/-- A step of a call that has found room so far, while there is room for what it has taken. -/
lemma ClaimCall.Clear.callStep (hclear : call.Clear m sequences)
    (hgating : m.gating.Holds sequences) (hknows : call.Knows m values sequences)
    (hrequest : call.request = some n) (hle : n ≤ m.getBufferSize)
    (hroom : ∀ lo hi, call.taken = some (lo, hi) → m.HasRoom values sequences hi) :
    call.Nears sequences n (m.callStep values false call).2 (m.callStep values false call).1 := by
  cases call with
  | nextAdd n' => exact ⟨hrequest, trivial, Nat.lt_succ_self _⟩
  | nextReadCache n' current =>
    obtain rfl := Option.some.inj hrequest
    simp only [MultiProducerSequencer.callStep]
    split_ifs
    · exact ⟨rfl, trivial, Nat.lt_succ_self _⟩
    · show current + n' + 1 - (current + 1) = n'
      omega
  | nextWait n' current call =>
    obtain rfl := Option.some.inj hrequest
    simp only [MultiProducerSequencer.callStep, MultiProducerSequencer.minimumStep]
    cases call with
    | readCache =>
      cases hcache : m.gating.gatingSequencesCache with
      | none =>
        simp only [MinimumCall.step, hcache]
        exact ⟨rfl, trivial, Nat.lt_succ_self _⟩
      | some snap =>
        simp only [MinimumCall.step, hcache]
        exact nears_scan hle (hgating.cached snap hcache) (by simp [stepsToGrant])
    | loadSnapshot => exact ⟨rfl, trivial, Nat.lt_succ_self _⟩
    | storeCache snap => exact nears_scan hle hknows.2 (by simp [stepsToGrant])
    | scan snap rest minimum =>
      obtain ⟨hminimum, hrest⟩ := hclear
      cases rest with
      | nil =>
        -- the pass ends, and so does the loop
        have hnot : ¬ m.wrapPoint current n' > minimum := not_lt.mpr hminimum
        simp only [MinimumCall.step, hnot, if_false]
        exact ⟨rfl, trivial, Nat.lt_succ_self _⟩
      | cons seq rest =>
        refine ⟨rfl, ⟨?_, (List.suffix_cons seq rest).trans hrest⟩, ?_⟩
        · refine le_minimumStep_iff.mpr ⟨hminimum, ?_⟩
          rintro i rfl
          exact hroom _ _ rfl i (hrest.subset List.mem_cons_self)
        · simp [stepsToGrant]
  | nextStoreCache n' current g =>
    obtain rfl := Option.some.inj hrequest
    show current + n' + 1 - (current + 1) = n'
    omega
  | _ => cases hrequest

lemma ClaimCall.Clear.of_bufferSize (h : call.Clear m sequences)
    (hsize : m'.bufferSize = m.bufferSize) : call.Clear m' sequences := by
  unfold Clear at h ⊢
  split at h
  · simpa only [wrapPoint, getBufferSize, hsize] using h
  · trivial

lemma ClaimCall.Clear.stepsToGrant_le (h : call.Clear m sequences) :
    call.stepsToGrant sequences.length ≤ sequences.length + 7 := by
  cases call with
  | nextWait n current call =>
    cases call with
    | scan snap rest minimum =>
      have hle := h.2.length_le
      simp only [stepsToGrant]
      omega
    | _ =>
      simp only [stepsToGrant]
      omega
  | _ =>
    simp only [stepsToGrant]
    omega

lemma ClaimCall.stepsToGrant_pos (hrequest : call.request = some n) (k : Nat) :
    0 < call.stepsToGrant k := by
  cases call with
  | nextWait n' current call => cases call <;> exact Nat.succ_pos _
  | nextAdd n' | nextReadCache n' current | nextStoreCache n' current g => exact Nat.succ_pos _
  | _ => cases hrequest

end Disruptor.MultiProducerSequencer
