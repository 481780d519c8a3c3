import Disruptor.Sequencer.Operations

/-!
# What the cached gating value decides

With a gating list that is fixed before the first claim, the capacity checks that go by the cached
value agree with the remaining capacity. A sequence that is added later is protected as long as
the cached value is not ahead of the cursor at which it is added.
-/

namespace Disruptor

open Disruptor.Core

variable {ι : Type*}

namespace InUse

/-! ### A fixed gating list -/

/-- The gating list changes only before the first claim, and what is published was claimed. -/
def GatingFixed (u : InUse ι) : CompleteOperation ι → Prop
  | .addGatingSequences _ | .removeGatingSequence _ => u.sequencer.claimed = INITIAL_VALUE
  | .publish lo hi => 0 ≤ lo ∧ lo ≤ hi ∧ hi ≤ u.sequencer.claimed
  | _ => True

/-- The checks by the cached value, and those that claim, agree with `remainingCapacity()`. -/
structure CapacityExact (u : InUse ι) : Prop where
  hasAvailableCapacity : ∀ n, (u.sequencer.hasAvailableCapacity n u.values).1 = true ↔
    n ≤ (u.sequencer.remainingCapacity u.values).1
  tryNext_ok : ∀ n spurious, 1 ≤ n → n ≤ (u.sequencer.remainingCapacity u.values).1 →
    (u.sequencer.tryNext n u.values spurious).1 = .ok (u.sequencer.claimed + n) ∧
      (u.sequencer.tryNext n u.values spurious).2.claimed = u.sequencer.claimed + n
  tryNext_error : ∀ n spurious, ¬ (1 ≤ n ∧ n ≤ (u.sequencer.remainingCapacity u.values).1) →
    (∃ e, (u.sequencer.tryNext n u.values spurious).1 = .error e) ∧
      (u.sequencer.tryNext n u.values spurious).2.claimed = u.sequencer.claimed
  next : ∀ n, 1 ≤ n → n ≤ u.sequencer.bufferSize.size →
    ((u.sequencer.next n u.values []).isSome = true ↔
      n ≤ (u.sequencer.remainingCapacity u.values).1)

variable {u u' : InUse ι} {op : CompleteOperation ι}

/-- A sound cached value decides exactly. -/
lemma capacityExact (h : u.sequencer.CacheSound u.values) : u.CapacityExact := by
  obtain ⟨hremaining, -, -⟩ := Sequencer.remainingCapacity_spec h.coherent u.values
  have hfits : ∀ n, n ≤ (u.sequencer.remainingCapacity u.values).1 ↔
      u.sequencer.Cached n ∨ u.sequencer.wrapPoint n ≤ u.sequencer.minimum u.values := by
    intro n
    rw [hremaining, h.fits_iff, Sequencer.wrapPoint]
    constructor <;> intro hle <;> omega
  refine ⟨?_, ?_, ?_, ?_⟩
  · intro n
    rw [hfits]
    exact (Sequencer.hasAvailableCapacity_spec h.coherent n u.values).1
  · intro n spurious hpos hle
    rcases (Sequencer.tryNext_spec h.coherent n u.values spurious).1 with
      ⟨-, -, hok, hclaimed⟩ | ⟨hnot, -⟩
    · exact ⟨hok, hclaimed⟩
    · exact absurd ⟨hpos, (hfits n).mp hle⟩ hnot
  · intro n spurious hnot
    rcases (Sequencer.tryNext_spec h.coherent n u.values spurious).1 with
      ⟨hpos, hcan, -⟩ | ⟨-, herror, hclaimed⟩
    · exact absurd ⟨hpos, (hfits n).mpr hcan⟩ hnot
    · exact ⟨herror, hclaimed⟩
  · intro n hpos hsize
    rw [hfits]
    exact Sequencer.next_isSome_iff h.coherent hpos hsize u.values

variable [DecidableEq ι]

/-- Where an operation leaves the claimed position and the cursor. -/
lemma step_cursor (h : u.sequencer.gating.Coherent) (hs : u.step op = some u') :
    u.sequencer.claimed ≤ u'.sequencer.claimed ∧
      (u'.sequencer.getCursor = u.sequencer.getCursor ∨
        u'.sequencer.getCursor = u.sequencer.claimed ∨
        u'.sequencer.getCursor = u'.sequencer.claimed ∨ ∃ lo hi, op = .publish lo hi) := by
  obtain ⟨q, values⟩ := u
  cases op with
  | next n passes =>
    simp only [step, Option.map_eq_some_iff] at hs
    obtain ⟨⟨r, values', q'⟩, hnext, rfl⟩ := hs
    have hle : q.claimed ≤ q'.claimed := by
      rcases Sequencer.next_spec h hnext with ⟨-, rfl, -⟩ | ⟨-, -, -, -, -, hrefreshes, -⟩
      · exact le_rfl
      · exact hrefreshes.claimed
    refine ⟨hle, ?_⟩
    cases q with
    | single s =>
      simp only [Sequencer.next, Option.map_eq_some_iff, Prod.mk.injEq] at hnext
      obtain ⟨⟨r, v, s'⟩, hsingle, rfl, rfl, rfl⟩ := hnext
      rcases SingleProducerSequencer.next_cases hsingle with ⟨-, -, rfl⟩ | ⟨-, -, -, hcursor⟩
      · exact Or.inl rfl
      · unfold SingleProducerSequencer.fencedCursor at hcursor
        split_ifs at hcursor
        · exact Or.inr (Or.inl hcursor)
        · exact Or.inl hcursor
    | multi m =>
      simp only [Sequencer.next, Option.map_eq_some_iff, Prod.mk.injEq] at hnext
      obtain ⟨⟨r, v, m'⟩, -, rfl, rfl, rfl⟩ := hnext
      exact Or.inr (Or.inr (Or.inl rfl))
  | tryNext n spurious =>
    obtain rfl := Option.some.inj hs
    refine ⟨(Sequencer.tryNext_spec h n values spurious).2.claimed, ?_⟩
    cases q with
    | single s =>
      rcases s.tryNext_cases n values with ⟨-, heq⟩ | ⟨-, -, hcursor⟩
      · exact Or.inl (congrArg SingleProducerSequencer.cursor heq)
      · unfold SingleProducerSequencer.fencedCursor at hcursor
        split_ifs at hcursor
        · exact Or.inr (Or.inl hcursor)
        · exact Or.inl hcursor
    | multi m => exact Or.inr (Or.inr (Or.inl rfl))
  | hasAvailableCapacity n =>
    obtain rfl := Option.some.inj hs
    refine ⟨(Sequencer.hasAvailableCapacity_spec h n values).2.1.claimed, Or.inl ?_⟩
    cases q with
    | single s => exact s.hasAvailableCapacityStoring_cursor n false values
    | multi m => exact m.hasAvailableCapacityFrom_cursor _ n m.cursor values
  | remainingCapacity =>
    obtain rfl := Option.some.inj hs
    refine ⟨(Sequencer.remainingCapacity_spec h values).2.1.claimed, Or.inl ?_⟩
    cases q <;> rfl
  | publish lo hi =>
    obtain rfl := Option.some.inj hs
    exact ⟨(Sequencer.claimed_publishRange q lo hi).ge, Or.inr (Or.inr (Or.inr ⟨lo, hi, rfl⟩))⟩
  | addGatingSequences l =>
    obtain rfl := Option.some.inj hs
    cases q <;> exact ⟨le_rfl, Or.inl rfl⟩
  | removeGatingSequence i =>
    obtain rfl := Option.some.inj hs
    cases q <;> exact ⟨le_rfl, Or.inl rfl⟩
  | advance values' =>
    obtain rfl := Option.some.inj hs
    exact ⟨le_rfl, Or.inl rfl⟩

/-- The cached value is sound, and before the first claim the cursor is where it was. -/
structure FixedInv (u : InUse ι) : Prop where
  cacheSound : u.sequencer.CacheSound u.values
  initial_le : INITIAL_VALUE ≤ u.sequencer.claimed
  cursor : u.sequencer.claimed = INITIAL_VALUE → u.sequencer.getCursor = INITIAL_VALUE

lemma FixedInv.step (h : u.FixedInv) (hadvances : u.Advances op) (hfixed : u.GatingFixed op)
    (hs : u.step op = some u') : u'.FixedInv := by
  obtain ⟨hclaimed, hcursor⟩ := step_cursor h.cacheSound.coherent hs
  have hadds : u.AddsBehind op := by
    cases op with
    | addGatingSequences l =>
      intro i _
      have hstart : u.sequencer.claimed = INITIAL_VALUE := hfixed
      rw [h.cursor hstart, ← hstart]
      exact h.cacheSound.cached_le_claimed
    | _ => trivial
  refine ⟨(step_cacheSound h.cacheSound hadvances hadds hs).1, h.initial_le.trans hclaimed, ?_⟩
  intro hstart
  have hold : u.sequencer.claimed = INITIAL_VALUE :=
    le_antisymm (hclaimed.trans hstart.le) h.initial_le
  rcases hcursor with heq | heq | heq | ⟨lo, hi, rfl⟩
  · exact heq.trans (h.cursor hold)
  · exact heq.trans hold
  · exact heq.trans hstart
  · -- nothing that was claimed could be published
    obtain ⟨hlo, hle, hhi⟩ := hfixed
    rw [hold, INITIAL_VALUE] at hhi
    omega

omit [DecidableEq ι] in
lemma fixedInv_initial (producerType : ProducerType) (b : BufferSize) (values : ι → Int) :
    (initial producerType b values).FixedInv := by
  refine ⟨Sequencer.cacheSound_initial producerType b values, ?_, ?_⟩
  · cases producerType <;> exact le_rfl
  · cases producerType <;> exact fun _ => rfl

/-- After every run of complete operations in which the gating list is fixed before the first
claim and the gating sequences only advance, the capacity checks agree with the remaining
capacity. -/
theorem capacity_exact {producerType : ProducerType} {b : BufferSize} {values : ι → Int}
    {operations : List (CompleteOperation ι)}
    (hsteps : ∀ x ∈ transitions step (initial producerType b values) operations,
      x.pre.Advances x.act ∧ x.pre.GatingFixed x.act)
    (hrun : run step (initial producerType b values) operations = some u) : u.CapacityExact := by
  have hinv := run_invariant_of_forall (FixedInv (ι := ι))
    (fun x => x.pre.Advances x.act ∧ x.pre.GatingFixed x.act)
    (fun _ _ _ h hs hc => h.step hc.1 hc.2 hs) (fixedInv_initial producerType b values) hrun hsteps
  exact capacityExact hinv.cacheSound

/-- One consumer, a claim of two, and a look at the capacity. -/
def claimAndLook : List (CompleteOperation Unit) :=
  [.addGatingSequences [some ()], .next 2 [], .hasAvailableCapacity 3]

theorem capacity_exact_claimAndLook :
    ∃ u, run step (initial .SINGLE ⟨2, by decide⟩ fun _ => 0) claimAndLook = some u ∧
      u.sequencer.claimed = 1 ∧ u.CapacityExact := by
  obtain ⟨u, hrun, hclaimed⟩ : ∃ u, run step (initial .SINGLE ⟨2, by decide⟩ fun _ => 0)
      claimAndLook = some u ∧ u.sequencer.claimed = 1 := ⟨_, rfl, rfl⟩
  refine ⟨u, hrun, hclaimed, capacity_exact ?_ hrun⟩
  rw [claimAndLook, transitions_cons_of_some rfl]
  refine List.forall_mem_cons.mpr ⟨⟨trivial, rfl⟩, ?_⟩
  intro x hx
  have hact := (mem_transitions hx).1
  simp only [List.mem_cons, List.not_mem_nil, or_false] at hact
  rcases hact with hact | hact
  · rw [hact]
    exact ⟨by rintro later ⟨⟩, trivial⟩
  · rw [hact]
    exact ⟨trivial, trivial⟩

/-! ### Sequences that are added later -/

/-- If the operation claims, what it claims laps no gating sequence. -/
def LapsNone (x : Transition (InUse ι) (CompleteOperation ι)) : Prop :=
  x.pre.sequencer.claimed < x.post.sequencer.claimed →
    ∀ i, some i ∈ x.pre.sequencer.gatingList →
      x.post.sequencer.claimed ≤ x.post.values i + x.pre.sequencer.bufferSize.size

/-- In every run in which sequences are added only while the cached value is not ahead of the
cursor, no claim laps a sequence that gates the ring by then. -/
theorem added_not_lapped {producerType : ProducerType} {b : BufferSize} {values : ι → Int}
    {operations : List (CompleteOperation ι)}
    (hsteps : ∀ x ∈ transitions step (initial producerType b values) operations,
      x.pre.Advances x.act ∧ x.pre.AddsBehind x.act) :
    ∀ x ∈ transitions step (initial producerType b values) operations, LapsNone x := by
  intro x hx
  have hinv := transitions_invariant (fun u : InUse ι => u.sequencer.CacheSound u.values)
    (fun x => x.pre.Advances x.act ∧ x.pre.AddsBehind x.act)
    (fun _ _ _ h hs hc => (step_cacheSound h hc.1 hc.2 hs).1)
    (Sequencer.cacheSound_initial producerType b values) hsteps
  obtain ⟨hadvances, hadds⟩ := hsteps x hx
  obtain ⟨-, hroom⟩ := step_cacheSound (hinv x hx).1 hadvances hadds (mem_transitions hx).2
  intro hclaims i hi
  have hle := hroom hclaims i hi
  omega

/-- A consumer that is added when an event has been published. -/
def addAfterPublish : List (CompleteOperation Unit) :=
  [.next 1 [], .publish 0 0, .addGatingSequences [some ()], .next 1 []]

theorem added_not_lapped_addAfterPublish :
    ∃ x, (transitions step (initial .SINGLE ⟨1, by decide⟩ fun _ => 0) addAfterPublish)[3]? =
        some x ∧
      x.pre.sequencer.gatingList = [some ()] ∧ x.post.sequencer.claimed = 1 ∧ LapsNone x := by
  obtain ⟨x, hx, hlist, hclaimed⟩ : ∃ x, (transitions step
      (initial .SINGLE ⟨1, by decide⟩ fun _ => 0) addAfterPublish)[3]? = some x ∧
      x.pre.sequencer.gatingList = [some ()] ∧ x.post.sequencer.claimed = 1 := ⟨_, rfl, rfl, rfl⟩
  refine ⟨x, hx, hlist, hclaimed, added_not_lapped ?_ x (List.mem_of_getElem? hx)⟩
  rw [addAfterPublish, transitions_cons_of_some rfl, transitions_cons_of_some rfl,
    transitions_cons_of_some rfl]
  refine List.forall_mem_cons.mpr ⟨⟨by rintro later ⟨⟩, trivial⟩, ?_⟩
  refine List.forall_mem_cons.mpr ⟨⟨trivial, trivial⟩, ?_⟩
  refine List.forall_mem_cons.mpr ⟨⟨trivial, fun _ _ => by decide⟩, ?_⟩
  intro y hy
  obtain hact := List.mem_singleton.mp (mem_transitions hy).1
  rw [hact]
  exact ⟨by rintro later ⟨⟩, trivial⟩

/-- The cached value may be ahead of the cursor at which a sequence is added. Unless it is a whole
lap behind what is claimed, a claim up to a lap after it is then granted at once. -/
theorem addedAhead_lapped {s : SingleProducerSequencer ι} {values : ι → Int}
    {l : List (Option ι)} {i : ι} (hi : some i ∈ l) (hahead : s.cursor < s.cachedValue)
    (hle : s.cachedValue ≤ s.nextValue) (hlt : s.nextValue < s.cachedValue + s.getBufferSize) :
    ∃ s', (s.addGatingSequences values l).2.next (s.cachedValue + s.getBufferSize - s.nextValue)
        (s.addGatingSequences values l).1 [] =
          some (.ok (s.cachedValue + s.getBufferSize), (s.addGatingSequences values l).1, s') ∧
      (s.addGatingSequences values l).1 i + s.getBufferSize <
        s.cachedValue + s.getBufferSize := by
  have hvalue : (s.addGatingSequences values l).1 i = s.cursor := by
    have heq := Gating.addGatingSequences_values s.gating values s.cursor l i
    rw [if_pos hi] at heq
    exact heq
  obtain ⟨added, hadded⟩ : ∃ added, added = (s.addGatingSequences values l).2 := ⟨_, rfl⟩
  have hsize : added.getBufferSize = s.getBufferSize := by rw [hadded]; rfl
  have hnext : added.nextValue = s.nextValue := by rw [hadded]; rfl
  have hcached : added.cachedValue = s.cachedValue := by rw [hadded]; rfl
  have hvalid : ¬ (s.cachedValue + s.getBufferSize - s.nextValue < 1 ∨
      s.cachedValue + s.getBufferSize - s.nextValue > added.getBufferSize) := by
    rw [hsize]
    omega
  have hsettled : ¬ added.CacheExhausted (s.cachedValue + s.getBufferSize - s.nextValue) := by
    rw [SingleProducerSequencer.CacheExhausted, SingleProducerSequencer.wrapPoint, hsize, hnext,
      hcached]
    omega
  rw [← hadded]
  refine ⟨{ added with nextValue := s.cachedValue + s.getBufferSize }, ?_, ?_⟩
  · rw [SingleProducerSequencer.next, if_neg hvalid]
    simp only [if_neg hsettled, hnext]
    have hend : s.nextValue + (s.cachedValue + s.getBufferSize - s.nextValue) =
        s.cachedValue + s.getBufferSize := by omega
    rw [hend]
  · rw [hvalue]
    omega

/-- Four slots: all are claimed and none is published when the capacity is looked at, a consumer
is added, and four more are claimed. -/
def addWhileOutstanding : List (CompleteOperation Unit) :=
  [.next 4 [], .hasAvailableCapacity 1, .addGatingSequences [some ()], .next 4 []]

/-- The second claim ends four sequences beyond what the new consumer allows. -/
theorem addWhileOutstanding_laps :
    ∃ x, (transitions step (initial .SINGLE ⟨2, by decide⟩ fun _ => 0) addWhileOutstanding)[3]? =
        some x ∧
      (∀ y ∈ transitions step (initial .SINGLE ⟨2, by decide⟩ fun _ => 0) addWhileOutstanding,
        y.pre.Advances y.act) ∧
      x.pre.sequencer.gatingList = [some ()] ∧ x.post.values () = -1 ∧
      x.post.sequencer.claimed = 7 ∧ ¬ LapsNone x := by
  obtain ⟨x, hx, hlist, hvalue, hold, hclaimed, hsize⟩ : ∃ x, (transitions step
      (initial .SINGLE ⟨2, by decide⟩ fun _ => 0) addWhileOutstanding)[3]? = some x ∧
      x.pre.sequencer.gatingList = [some ()] ∧ x.post.values () = -1 ∧
      x.pre.sequencer.claimed = 3 ∧ x.post.sequencer.claimed = 7 ∧
      x.pre.sequencer.bufferSize.size = 4 := ⟨_, rfl, rfl, rfl, rfl, rfl, rfl⟩
  refine ⟨x, hx, ?_, hlist, hvalue, hclaimed, ?_⟩
  · intro y hy
    have hact := (mem_transitions hy).1
    simp only [addWhileOutstanding, List.mem_cons, List.not_mem_nil, or_false] at hact
    rcases hact with hact | hact | hact | hact <;> rw [hact]
    · rintro later ⟨⟩
    · trivial
    · trivial
    · rintro later ⟨⟩
  · intro hlaps
    have hle := hlaps (by rw [hold, hclaimed]; decide) () (by rw [hlist]; exact List.mem_cons_self)
    rw [hclaimed, hvalue, hsize] at hle
    exact absurd hle (by decide)

end InUse

end Disruptor
