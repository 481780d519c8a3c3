import Disruptor.Sequencer.Gating

/-!
# Calls of a sequencer, step by step

The calls that may claim, and `minimumSequence`, on which they rest. One call of
`minimumSequence(defaultMin)` in atomic steps: the read of the cached pointer, the load of the list,
the store of the pointer, and the reads of the gating sequences one after another. Between them
other threads move.
-/

namespace Disruptor

variable {ι : Type*}

/-- Where a call of `minimumSequence` is. -/
inductive MinimumCall (ι : Type*) where
  | readCache
  | loadSnapshot
  /-- The list is loaded and its pointer not yet stored in `gatingSequencesCache_`. -/
  | storeCache (snap : Snapshot ι)
  /-- In `Util::getMinimumSequence`, with the sequences still to be read. -/
  | scan (snap : Snapshot ι) (rest : List (Option ι)) (minimumSequence : Int)

namespace MinimumCall

/-- One atomic step: where the call is next, or what it returns, and the gating fields. -/
def step (g : Gating ι) (values : ι → Int) (defaultMin : Int) :
    MinimumCall ι → (MinimumCall ι ⊕ Int) × Gating ι
  | .readCache =>
    match g.gatingSequencesCache with
    | none => (.inl .loadSnapshot, g)
    | some cached => (.inl (.scan cached cached.sequences defaultMin), g)
  | .loadSnapshot => (.inl (.storeCache g.gatingSequences), g)
  | .storeCache snap =>
    (.inl (.scan snap snap.sequences defaultMin), { g with gatingSequencesCache := some snap })
  | .scan _ [] minimumSequence => (.inr minimumSequence, g)
  | .scan snap (seq :: rest) minimumSequence =>
    (.inl (.scan snap rest (minimumStep values minimumSequence seq)), g)

end MinimumCall

/-- The list is `sequences`, and so is any list that the cached pointer points to. -/
structure Gating.Holds (g : Gating ι) (sequences : List (Option ι)) : Prop where
  current : g.gatingSequences.sequences = sequences
  cached : ∀ snap, g.gatingSequencesCache = some snap → snap.sequences = sequences

/-- What a call over a fixed list knows: the minimum so far is a lower bound of the default and of
the values already read. -/
def MinimumCall.Bounds (values : ι → Int) (defaultMin : Int) (sequences : List (Option ι)) :
    MinimumCall ι → Prop
  | .storeCache snap => snap.sequences = sequences
  | .scan _ rest m => m ≤ defaultMin ∧ ∀ i, some i ∈ sequences → some i ∈ rest ∨ m ≤ values i
  | _ => True

namespace MinimumCall

variable {g : Gating ι} {values values' : ι → Int} {defaultMin : Int}
  {sequences : List (Option ι)} {c c' : MinimumCall ι} {m : Int}

/-- Gating sequences that advance keep the bound. -/
lemma Bounds.mono (h : c.Bounds values defaultMin sequences) (hv : ∀ i, values i ≤ values' i) :
    c.Bounds values' defaultMin sequences := by
  cases c with
  | scan snap rest m =>
    refine ⟨h.1, ?_⟩
    intro i hi
    rcases h.2 i hi with hrest | hle
    · exact Or.inl hrest
    · exact Or.inr (hle.trans (hv i))
  | _ => exact h

/-- A step keeps the lists. -/
lemma step_holds (hg : g.Holds sequences) (hc : c.Bounds values defaultMin sequences) :
    (c.step g values defaultMin).2.Holds sequences := by
  cases c with
  | readCache =>
    simp only [step]
    split <;> exact hg
  | loadSnapshot => exact hg
  | storeCache snap => exact ⟨hg.current, fun s hs => Option.some.inj hs ▸ hc⟩
  | scan snap rest m => cases rest <;> exact hg

/-- A step that goes on keeps the bound. -/
lemma step_bounds (hg : g.Holds sequences) (hc : c.Bounds values defaultMin sequences)
    (hs : (c.step g values defaultMin).1 = .inl c') : c'.Bounds values defaultMin sequences := by
  cases c with
  | readCache =>
    simp only [step] at hs
    split at hs
    · obtain rfl := Sum.inl.inj hs
      trivial
    · rename_i cached hcached
      obtain rfl := Sum.inl.inj hs
      rw [hg.cached cached hcached]
      exact ⟨le_rfl, fun _ hi => Or.inl hi⟩
  | loadSnapshot =>
    obtain rfl := Sum.inl.inj hs
    exact hg.current
  | storeCache snap =>
    obtain rfl := Sum.inl.inj hs
    have hsnap : snap.sequences = sequences := hc
    rw [hsnap]
    exact ⟨le_rfl, fun _ hi => Or.inl hi⟩
  | scan snap rest m =>
    cases rest with
    | nil => cases hs
    | cons seq rest =>
      obtain rfl := Sum.inl.inj hs
      obtain ⟨hdefault, hread⟩ := hc
      have hstep := minimumStep_le values m seq
      refine ⟨hstep.1.trans hdefault, ?_⟩
      intro i hi
      rcases hread i hi with hrest | hle
      · rcases List.mem_cons.mp hrest with rfl | hrest
        · exact Or.inr (hstep.2 i rfl)
        · exact Or.inl hrest
      · exact Or.inr (hstep.1.trans hle)

/-- What is returned is a lower bound of the default and of every value in the list. -/
lemma step_result (hc : c.Bounds values defaultMin sequences)
    (hs : (c.step g values defaultMin).1 = .inr m) :
    m ≤ defaultMin ∧ ∀ i, some i ∈ sequences → m ≤ values i := by
  cases c with
  | readCache =>
    simp only [step] at hs
    split at hs <;> cases hs
  | loadSnapshot => cases hs
  | storeCache snap => cases hs
  | scan snap rest n =>
    cases rest with
    | cons seq rest => cases hs
    | nil =>
      obtain rfl := Sum.inr.inj hs
      refine ⟨hc.1, ?_⟩
      intro i hi
      rcases hc.2 i hi with hrest | hle
      · cases hrest
      · exact hle

/-- The list that a call is about to cache, or reads. -/
def list : MinimumCall ι → Option (Snapshot ι)
  | .storeCache snap | .scan snap _ _ => some snap
  | _ => none

/-- A step leaves the list alone; every list that is cached or in use afterwards was so before, or
is the current one. -/
lemma step_lists {r : MinimumCall ι ⊕ Int} {g' : Gating ι}
    (hs : c.step g values defaultMin = (r, g')) :
    g'.gatingSequences = g.gatingSequences ∧
      ∀ snap, (g'.gatingSequencesCache = some snap ∨ ∃ c', r = .inl c' ∧ c'.list = some snap) →
        g.gatingSequencesCache = some snap ∨ c.list = some snap ∨ snap = g.gatingSequences := by
  cases c with
  | readCache =>
    simp only [step] at hs
    split at hs
    · obtain ⟨rfl, rfl⟩ := Prod.mk.inj hs
      refine ⟨rfl, ?_⟩
      rintro snap (hcache | ⟨c', ⟨⟩, ⟨⟩⟩)
      exact Or.inl hcache
    · rename_i cached hcached
      obtain ⟨rfl, rfl⟩ := Prod.mk.inj hs
      refine ⟨rfl, ?_⟩
      rintro snap (hcache | ⟨c', ⟨⟩, ⟨⟩⟩)
      · exact Or.inl hcache
      · exact Or.inl hcached
  | loadSnapshot =>
    obtain ⟨rfl, rfl⟩ := Prod.mk.inj hs
    refine ⟨rfl, ?_⟩
    rintro snap (hcache | ⟨c', ⟨⟩, ⟨⟩⟩)
    · exact Or.inl hcache
    · exact Or.inr (Or.inr rfl)
  | storeCache snap =>
    obtain ⟨rfl, rfl⟩ := Prod.mk.inj hs
    refine ⟨rfl, ?_⟩
    rintro snap' (hcache | ⟨c', ⟨⟩, hlist⟩)
    · exact Or.inr (Or.inl hcache)
    · exact Or.inr (Or.inl hlist)
  | scan snap rest m =>
    cases rest with
    | nil =>
      obtain ⟨rfl, rfl⟩ := Prod.mk.inj hs
      refine ⟨rfl, ?_⟩
      rintro snap' (hcache | ⟨c', ⟨⟩, -⟩)
      exact Or.inl hcache
    | cons seq rest =>
      obtain ⟨rfl, rfl⟩ := Prod.mk.inj hs
      refine ⟨rfl, ?_⟩
      rintro snap' (hcache | ⟨c', ⟨⟩, hlist⟩)
      · exact Or.inl hcache
      · exact Or.inr (Or.inl hlist)

end MinimumCall

/-! ### Calls that may claim -/

/-- A call that may claim. -/
inductive ClaimOperation where
  | next (n : Int)
  | tryNext (n : Int)
  | hasAvailableCapacity (n : Int)
  | remainingCapacity
  deriving DecidableEq, Repr

/-- The operation claims when it succeeds. -/
def ClaimOperation.claims : ClaimOperation → Bool
  | .next _ | .tryNext _ => true
  | _ => false

/-- How a step leaves a call: it goes on at `call`, it claims a range, or it ends without a
claim. -/
inductive ClaimResult (K : Type*) where
  | running (call : K)
  | claimed (lo hi : Int)
  | ended

end Disruptor
