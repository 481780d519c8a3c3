import Mathlib.Data.List.Basic
import Mathlib.Logic.Function.Basic
import Mathlib.Order.Lattice
import Mathlib.Algebra.Order.Group.Unbundled.Int
import Mathlib.Tactic.Common

/-!
# Gating sequences

`Sequence` objects are identified by an index type `ι` and their values are a function
`ι → Int`. A `std::vector<Sequence*>` is a list of `Option ι`: pointers may be null, and
`Util::getMinimumSequence` skips those.

A sequencer keeps the current list in `gatingSequences_` and a raw pointer to a list in
`gatingSequencesCache_`. Lists are immutable once stored, and compared by identity: a
`Snapshot` carries the number of updates that were made before it was stored.
-/

namespace Disruptor

variable {ι : Type*}

/-- `Sequence::INITIAL_VALUE` and `Sequencer::INITIAL_CURSOR_VALUE`. -/
def INITIAL_VALUE : Int := -1

/-- `std::numeric_limits<int64_t>::max()`. -/
def INT64_MAX : Int := 2 ^ 63 - 1

/-! ### `Util::getMinimumSequence` -/

/-- One turn of the loop: null pointers are skipped. -/
def minimumStep (values : ι → Int) (minimumSequence : Int) : Option ι → Int
  | none => minimumSequence
  | some seq => min minimumSequence (values seq)

/-- `Util::getMinimumSequence(sequences, minimum)`. -/
def getMinimumSequence (values : ι → Int) (sequences : List (Option ι)) (minimum : Int) : Int :=
  sequences.foldl (minimumStep values) minimum

@[simp] lemma getMinimumSequence_nil (values : ι → Int) (minimum : Int) :
    getMinimumSequence values [] minimum = minimum := rfl

lemma getMinimumSequence_cons (values : ι → Int) (seq : Option ι) (sequences : List (Option ι))
    (minimum : Int) :
    getMinimumSequence values (seq :: sequences) minimum =
      getMinimumSequence values sequences (minimumStep values minimum seq) := rfl

lemma le_minimumStep_iff {values : ι → Int} {m x : Int} {seq : Option ι} :
    x ≤ minimumStep values m seq ↔ x ≤ m ∧ ∀ i, seq = some i → x ≤ values i := by
  cases seq <;> simp [minimumStep]

lemma minimumStep_le (values : ι → Int) (m : Int) (seq : Option ι) :
    minimumStep values m seq ≤ m ∧ ∀ i, seq = some i → minimumStep values m seq ≤ values i :=
  le_minimumStep_iff.mp le_rfl

/-- The minimum is the greatest lower bound of the default and the values in the list. -/
theorem le_getMinimumSequence_iff {values : ι → Int} {sequences : List (Option ι)}
    {minimum x : Int} :
    x ≤ getMinimumSequence values sequences minimum ↔
      x ≤ minimum ∧ ∀ i, some i ∈ sequences → x ≤ values i := by
  induction sequences generalizing minimum with
  | nil => simp
  | cons seq sequences ih =>
    rw [getMinimumSequence_cons, ih, le_minimumStep_iff]
    constructor
    · rintro ⟨⟨hmin, hseq⟩, hall⟩
      refine ⟨hmin, ?_⟩
      intro i hi
      rcases List.mem_cons.mp hi with rfl | hi
      · exact hseq i rfl
      · exact hall i hi
    · rintro ⟨hmin, hall⟩
      exact ⟨⟨hmin, fun i hi => hall i (hi ▸ List.mem_cons_self)⟩,
        fun i hi => hall i (List.mem_cons_of_mem _ hi)⟩

lemma getMinimumSequence_le_default (values : ι → Int) (sequences : List (Option ι))
    (minimum : Int) : getMinimumSequence values sequences minimum ≤ minimum :=
  (le_getMinimumSequence_iff.mp le_rfl).1

/-! ### The list and the cached pointer -/

/-- A list of gating sequences as an object: `id` counts the updates made before it. -/
structure Snapshot (ι : Type*) where
  id : Nat
  sequences : List (Option ι)

/-- `gatingSequences_` and `gatingSequencesCache_` of a sequencer. The constructor installs an
empty list and every update installs a list, so the tests of the source for a null
`gatingSequences_` never succeed. -/
structure Gating (ι : Type*) where
  gatingSequences : Snapshot ι := ⟨0, []⟩
  gatingSequencesCache : Option (Snapshot ι) := none

namespace Gating

/-- `minimumSequence(defaultMin)` of both sequencers: through the cached pointer if there is
one, else through a fresh load, which is then cached. -/
def minimumSequence (g : Gating ι) (values : ι → Int) (defaultMin : Int) : Int × Gating ι :=
  match g.gatingSequencesCache with
  | none =>
    (getMinimumSequence values g.gatingSequences.sequences defaultMin,
      { g with gatingSequencesCache := some g.gatingSequences })
  | some cached => (getMinimumSequence values cached.sequences defaultMin, g)

/-- The cached pointer is null or points to the current list. -/
def Coherent (g : Gating ι) : Prop :=
  g.gatingSequencesCache = none ∨ g.gatingSequencesCache = some g.gatingSequences

lemma coherent_default : Coherent ({} : Gating ι) := Or.inl rfl

@[simp] lemma minimumSequence_gatingSequences (g : Gating ι) (values : ι → Int) (d : Int) :
    (g.minimumSequence values d).2.gatingSequences = g.gatingSequences := by
  unfold minimumSequence
  split <;> rfl

/-- Through a coherent pointer the minimum is the one over the current list. -/
lemma Coherent.minimumSequence_fst {g : Gating ι} (h : g.Coherent) (values : ι → Int) (d : Int) :
    (g.minimumSequence values d).1 = getMinimumSequence values g.gatingSequences.sequences d := by
  unfold minimumSequence
  rcases h with h | h <;> rw [h]

lemma Coherent.minimumSequence {g : Gating ι} (h : g.Coherent) (values : ι → Int) (d : Int) :
    (g.minimumSequence values d).2.Coherent := by
  unfold Gating.minimumSequence
  rcases h with h | h
  · rw [h]
    exact Or.inr rfl
  · rw [h]
    exact Or.inr h

/-- `while (wrapPoint > (minSequence = minimumSequence(defaultMin))) onSpinWait();` of both
`next(n)`. The first pass sees `values`, the later ones what the other threads have made of
them (`passes`); `none` when the producer still waits after those passes. -/
def waitMinimumSequence (g : Gating ι) (wrapPoint defaultMin : Int) (values : ι → Int) :
    List (ι → Int) → Option (Int × (ι → Int) × Gating ι)
  | [] =>
    let r := g.minimumSequence values defaultMin
    if wrapPoint > r.1 then none else some (r.1, values, r.2)
  | later :: passes =>
    let r := g.minimumSequence values defaultMin
    if wrapPoint > r.1 then r.2.waitMinimumSequence wrapPoint defaultMin later passes
    else some (r.1, values, r.2)

/-- What the loop ends with: a minimum, at or above the wrap point, over the list at the values
of the last pass. -/
lemma Coherent.waitMinimumSequence {g g' : Gating ι} (h : g.Coherent)
    {wrapPoint d m : Int} {values values' : ι → Int} {passes : List (ι → Int)}
    (hw : g.waitMinimumSequence wrapPoint d values passes = some (m, values', g')) :
    m = getMinimumSequence values' g.gatingSequences.sequences d ∧ wrapPoint ≤ m ∧
      g'.gatingSequences = g.gatingSequences ∧ g'.Coherent := by
  induction passes generalizing g values with
  | nil =>
    simp only [Gating.waitMinimumSequence] at hw
    split_ifs at hw with hlt
    simp only [Option.some.injEq, Prod.mk.injEq] at hw
    obtain ⟨rfl, rfl, rfl⟩ := hw
    exact ⟨h.minimumSequence_fst _ _, by omega, by simp, h.minimumSequence _ _⟩
  | cons later passes ih =>
    simp only [Gating.waitMinimumSequence] at hw
    split_ifs at hw with hlt
    · simpa using ih (h.minimumSequence _ _) hw
    · simp only [Option.some.injEq, Prod.mk.injEq] at hw
      obtain ⟨rfl, rfl, rfl⟩ := hw
      exact ⟨h.minimumSequence_fst _ _, by omega, by simp, h.minimumSequence _ _⟩

/-- The loop ends at the values of one of its passes. -/
lemma waitMinimumSequence_mem {g g' : Gating ι} {wrapPoint d m : Int} {values values' : ι → Int}
    {passes : List (ι → Int)}
    (hw : g.waitMinimumSequence wrapPoint d values passes = some (m, values', g')) :
    values' ∈ values :: passes := by
  induction passes generalizing g values with
  | nil =>
    simp only [Gating.waitMinimumSequence] at hw
    split_ifs at hw
    simp only [Option.some.injEq, Prod.mk.injEq] at hw
    exact hw.2.1 ▸ List.mem_cons_self
  | cons later passes ih =>
    simp only [Gating.waitMinimumSequence] at hw
    split_ifs at hw
    · exact List.mem_cons_of_mem _ (ih hw)
    · simp only [Option.some.injEq, Prod.mk.injEq] at hw
      exact hw.2.1 ▸ List.mem_cons_self

/-- Over the same list the loop takes the same passes to the same minimum, whichever of two
coherent cached pointers it goes through. -/
lemma Coherent.waitMinimumSequence_congr {g g' : Gating ι} (h : g.Coherent) (h' : g'.Coherent)
    (heq : g'.gatingSequences = g.gatingSequences) (wrapPoint d : Int) (values : ι → Int)
    (passes : List (ι → Int)) :
    (g'.waitMinimumSequence wrapPoint d values passes).map (fun r => (r.1, r.2.1)) =
      (g.waitMinimumSequence wrapPoint d values passes).map fun r => (r.1, r.2.1) := by
  have hfst : (g'.minimumSequence values d).1 = (g.minimumSequence values d).1 := by
    rw [h'.minimumSequence_fst, h.minimumSequence_fst, heq]
  induction passes generalizing g g' values with
  | nil =>
    simp only [Gating.waitMinimumSequence, hfst]
    split_ifs <;> simp
  | cons later passes ih =>
    simp only [Gating.waitMinimumSequence, hfst]
    split_ifs
    · refine ih (h.minimumSequence _ _) (h'.minimumSequence _ _) (by simp [heq]) later ?_
      rw [(h'.minimumSequence _ _).minimumSequence_fst, (h.minimumSequence _ _).minimumSequence_fst]
      simp [heq]
    · simp

/-! ### `SequenceGroups`, run by one thread -/

variable [DecidableEq ι]

/-- Set every non-null sequence of a list to one value. -/
def setAll (values : ι → Int) (sequences : List (Option ι)) (value : Int) : ι → Int :=
  sequences.foldl (fun vs seq => seq.elim vs fun i => Function.update vs i value) values

lemma setAll_apply (values : ι → Int) (sequences : List (Option ι)) (value : Int) (i : ι) :
    setAll values sequences value i = if some i ∈ sequences then value else values i := by
  induction sequences generalizing values with
  | nil => simp [setAll]
  | cons seq sequences ih =>
    rw [setAll, List.foldl_cons, ← setAll, ih]
    cases seq with
    | none => simp
    | some j =>
      by_cases hij : i = j
      · simp [hij]
      · simp [hij]

/-- `addGatingSequences`: the new sequences are set to the cursor and appended to the list (an
uncontended compare-exchange succeeds at once), and the cached pointer is dropped. -/
def addGatingSequences (g : Gating ι) (values : ι → Int) (cursor : Int)
    (sequencesToAdd : List (Option ι)) : (ι → Int) × Gating ι :=
  (setAll (setAll values sequencesToAdd cursor) sequencesToAdd cursor,
    { gatingSequences :=
        ⟨g.gatingSequences.id + 1, g.gatingSequences.sequences ++ sequencesToAdd⟩
      gatingSequencesCache := none })

/-- `removeGatingSequence`: every copy of the sequence is removed, if there is one, and the
cached pointer is dropped either way. The result tells whether there was one. -/
def removeGatingSequence (g : Gating ι) (sequence : ι) : Bool × Gating ι :=
  let numToRemove := g.gatingSequences.sequences.count (some sequence)
  if numToRemove = 0 then (false, { g with gatingSequencesCache := none })
  else
    (true,
      { gatingSequences :=
          ⟨g.gatingSequences.id + 1, g.gatingSequences.sequences.filter (· ≠ some sequence)⟩
        gatingSequencesCache := none })

lemma coherent_addGatingSequences (g : Gating ι) (values : ι → Int) (cursor : Int)
    (l : List (Option ι)) : (g.addGatingSequences values cursor l).2.Coherent := Or.inl rfl

lemma coherent_removeGatingSequence (g : Gating ι) (i : ι) :
    (g.removeGatingSequence i).2.Coherent := by
  unfold removeGatingSequence
  dsimp only
  split <;> exact Or.inl rfl

/-- Every added sequence is at the cursor; the others keep their value. -/
lemma addGatingSequences_values (g : Gating ι) (values : ι → Int) (cursor : Int)
    (l : List (Option ι)) (i : ι) :
    (g.addGatingSequences values cursor l).1 i = if some i ∈ l then cursor else values i := by
  simp only [addGatingSequences, setAll_apply]
  split <;> rfl

lemma mem_removeGatingSequence {g : Gating ι} {i j : ι} :
    some j ∈ (g.removeGatingSequence i).2.gatingSequences.sequences ↔
      some j ∈ g.gatingSequences.sequences ∧ j ≠ i := by
  unfold removeGatingSequence
  dsimp only
  split
  · rename_i hcount
    have hnot : some i ∉ g.gatingSequences.sequences := List.count_eq_zero.mp hcount
    constructor
    · intro hj
      refine ⟨hj, ?_⟩
      rintro rfl
      exact hnot hj
    · exact fun hj => hj.1
  · simp

end Gating

end Disruptor
