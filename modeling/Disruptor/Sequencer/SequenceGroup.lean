import Disruptor.Core.Run
import Disruptor.Sequencer.SequenceGroups
import Mathlib.Order.Bounds.Basic

/-!
# `SequenceGroup`

Several groups over the same `Sequence` objects, used by one thread. `add` goes through the same
`SequenceGroups::addSequences` as `addWhileRunning`, with the group itself for a cursor.
-/

namespace Disruptor.SequenceGroup

open Disruptor.Core

variable {G ι : Type*}

/-- The groups, and the sequences with their values. -/
structure State (G ι : Type*) where
  sequences : G → List (Option ι) := fun _ => []
  values : ι → Int
  /-- History: what was last written to each sequence by its owner, by the `set` of a group or by
  the `addWhileRunning` that added it. -/
  written : ι → Int

/-- What is passed as a `Cursored`: a group, or an object whose `getCursor()` returns `first` before
the new list is installed and `second` after it. -/
inductive Cursored (G : Type*) where
  | group (g : G)
  | other (first second : Int)

inductive Operation (G ι : Type*) where
  /-- The owner of the sequence sets it. -/
  | setSequence (sequence : ι) (value : Int)
  | get (g : G)
  | set (g : G) (value : Int)
  | add (g : G) (sequence : ι)
  | remove (g : G) (sequence : ι)
  | addWhileRunning (g : G) (cursored : Cursored G) (sequence : ι)

namespace State

/-- `get()` and `getCursor()` of a group. -/
def get (s : State G ι) (g : G) : Int := getMinimumSequence s.values (s.sequences g) INT64_MAX

/-- The first `cursor.getCursor()` of `addSequences`. -/
def firstCursor (s : State G ι) : Cursored G → Int
  | .group g => s.get g
  | .other first _ => first

/-- The second one. -/
def secondCursor (s : State G ι) : Cursored G → Int
  | .group g => s.get g
  | .other _ second => second

variable [DecidableEq G] [DecidableEq ι]

/-- The loop of `addSequences`, which installs the new list. -/
def install (s : State G ι) (g : G) (cursor : Cursored G) (sequence : ι) : State G ι :=
  { s with
    values := Function.update s.values sequence (s.firstCursor cursor)
    sequences := Function.update s.sequences g
      ((SequenceGroups.group ι).apply (s.sequences g) (.addSequences [some sequence])) }

/-- `SequenceGroups::addSequences(holder, updater, cursor, &sequence, 1)`. -/
def addSequences (s : State G ι) (g : G) (cursor : Cursored G) (sequence : ι) : State G ι :=
  let s' := s.install g cursor sequence
  { s' with values := Function.update s'.values sequence (s'.secondCursor cursor) }

/-- `add(sequence)`. -/
def add (s : State G ι) (g : G) (sequence : ι) : State G ι :=
  s.addSequences g (.group g) sequence

/-- `remove(sequence)`. -/
def remove (s : State G ι) (g : G) (sequence : ι) : State G ι :=
  { s with
    sequences := Function.update s.sequences g
      ((SequenceGroups.group ι).apply (s.sequences g) (.removeSequence sequence)) }

/-- An operation, with its history. -/
def perform (s : State G ι) : Operation G ι → State G ι
  | .setSequence sequence value =>
    { s with
      values := Function.update s.values sequence value
      written := Function.update s.written sequence value }
  | .get _ => s
  | .set g value =>
    { s with
      values := Gating.setAll s.values (s.sequences g) value
      written := Gating.setAll s.written (s.sequences g) value }
  | .add g sequence => s.add g sequence
  | .remove g sequence => s.remove g sequence
  | .addWhileRunning g cursored sequence =>
    let s' := s.addSequences g cursored sequence
    { s' with written := Function.update s'.written sequence (s'.values sequence) }

def step (s : State G ι) (operation : Operation G ι) : Option (State G ι) :=
  some (s.perform operation)

omit [DecidableEq G] [DecidableEq ι] in
/-- The groups are new. -/
def initial (values : ι → Int) : State G ι where
  values := values
  written := values

end State

/-! ### Adding a sequence -/

variable [DecidableEq G] [DecidableEq ι] {s s' : State G ι} {g : G} {i : ι}

/-- `addSequences` does what the call does step by step, when no other thread interferes. -/
theorem addSequences_alone (s : State G ι) (g : G) (cursor : Cursored G) (i : ι) :
    ∃ c, run (SequenceGroups.pool Unit ι).next
        (SequenceGroups.initial (some (s.sequences g)) s.values)
        [⟨(), .invoke (.addSequences [some i])⟩, ⟨(), .proceed⟩, ⟨(), .proceed⟩,
          ⟨(), .cursor (s.firstCursor cursor)⟩, ⟨(), .proceed⟩, ⟨(), .proceed⟩, ⟨(), .proceed⟩,
          ⟨(), .cursor ((s.install g cursor i).secondCursor cursor)⟩, ⟨(), .proceed⟩,
          ⟨(), .proceed⟩, ⟨(), .proceed⟩] = some c ∧
      c.shared.sequences = (s.addSequences g cursor i).sequences g ∧
      c.shared.values = (s.addSequences g cursor i).values := by
  refine ⟨_, rfl, ?_, rfl⟩
  simp only [State.addSequences, State.install, Function.update_self]
  rfl

@[simp] lemma addSequences_sequences (s : State G ι) (g : G) (cursor : Cursored G) (i : ι) :
    (s.addSequences g cursor i).sequences =
      Function.update s.sequences g (s.sequences g ++ [some i]) := rfl

/-- Only the sequence that is added is written. -/
lemma addSequences_values_of_ne (s : State G ι) (g : G) (cursor : Cursored G) {j : ι}
    (hj : j ≠ i) : (s.addSequences g cursor i).values j = s.values j := by
  simp [State.addSequences, State.install, Function.update_of_ne hj]

omit [DecidableEq G] [DecidableEq ι] in
lemma le_get_iff {x : Int} :
    x ≤ s.get g ↔ x ≤ INT64_MAX ∧ ∀ i, some i ∈ s.sequences g → x ≤ s.values i :=
  le_getMinimumSequence_iff

/-- With the new member at the old minimum, the minimum stays as it was. -/
lemma get_install_group (s : State G ι) (g : G) (i : ι) :
    (s.install g (.group g) i).get g = s.get g := by
  apply eq_of_forall_le_iff
  intro x
  rw [le_get_iff]
  simp only [State.install, State.firstCursor, SequenceGroups.group, Function.update_self,
    List.mem_append, List.mem_singleton, Option.some.injEq]
  constructor
  · rintro ⟨-, hall⟩
    simpa using hall i (Or.inr rfl)
  · intro hx
    obtain ⟨hmax, hall⟩ := le_get_iff.mp hx
    refine ⟨hmax, ?_⟩
    intro j hj
    by_cases heq : j = i
    · subst heq
      simpa using hx
    · rw [Function.update_of_ne heq]
      exact hall j (hj.resolve_right heq)

/-- `add` sets the sequence to the minimum that the group had. -/
lemma add_values (s : State G ι) (g : G) (i : ι) :
    (s.add g i).values = Function.update s.values i (s.get g) := by
  show Function.update (s.install g (.group g) i).values i
    ((s.install g (.group g) i).get g) = _
  rw [get_install_group]
  exact Function.update_idem _ _ _

/-! ### What is written, and what is read -/

/-- The groups are as the last writes have made the values. -/
def State.Inv (s : State G ι) : Prop := s.values = s.written

/-- An operation that writes no more than it is to write, after which `get()` of each group is the
minimum of what was last written to its members, or `INT64_MAX` if it has none. -/
structure Undisturbed (x : Transition (State G ι) (Operation G ι)) : Prop where
  add : ∀ g i, x.act = .add g i → x.post.values = x.pre.values
  remove : ∀ g i, x.act = .remove g i → x.post.values = x.pre.values
  get : ∀ g, x.act = .get g → x.post.values = x.pre.values
  set : ∀ g value, x.act = .set g value →
    ∀ j, some j ∉ x.pre.sequences g → x.post.values j = x.pre.values j
  addWhileRunning : ∀ g cursored i, x.act = .addWhileRunning g cursored i →
    ∀ j, j ≠ i → x.post.values j = x.pre.values j
  minimum : ∀ g, IsGLB (insert INT64_MAX (x.post.written '' {i | some i ∈ x.post.sequences g}))
    (x.post.get g)

omit [DecidableEq G] [DecidableEq ι] in
lemma State.Inv.minimum (h : s.Inv) (g : G) :
    IsGLB (insert INT64_MAX (s.written '' {i | some i ∈ s.sequences g})) (s.get g) := by
  rw [isGLB_iff_le_iff]
  intro x
  rw [le_get_iff, h, mem_lowerBounds]
  simp

/-- A sequence that is at the minimum of the group stays there. -/
lemma add_values_of_eq (h : s.values i = s.get g) : (s.add g i).values = s.values := by
  rw [add_values, ← h]
  exact Function.update_eq_self i s.values

lemma State.Inv.perform (h : s.Inv) {operation : Operation G ι}
    (hadd : ∀ g i, operation = .add g i → s.values i = s.get g) : (s.perform operation).Inv := by
  unfold State.Inv at h ⊢
  cases operation with
  | setSequence sequence value => simp [State.perform, h]
  | get g => exact h
  | set g value => simp [State.perform, h]
  | add g sequence => exact (add_values_of_eq (hadd g sequence rfl)).trans h
  | remove g sequence => exact h
  | addWhileRunning g cursored sequence =>
    funext j
    by_cases hj : j = sequence
    · subst hj
      simp [State.perform]
    · simp only [State.perform, Function.update_of_ne hj]
      exact (addSequences_values_of_ne s g cursored hj).trans (congrFun h j)

/-- Where `add` is called with a sequence at the minimum of the group, nothing is disturbed. -/
lemma State.Inv.step (h : s.Inv) {operation : Operation G ι} (hs : s.step operation = some s')
    (hadd : ∀ g i, operation = .add g i → s.values i = s.get g) :
    s'.Inv ∧ Undisturbed ⟨s, operation, s'⟩ := by
  obtain rfl := Option.some.inj hs
  have hinv := h.perform hadd
  refine ⟨hinv, ?_⟩
  constructor
  · rintro g i rfl
    exact add_values_of_eq (hadd g i rfl)
  · rintro g i rfl
    rfl
  · rintro g rfl
    rfl
  · rintro g value rfl j hj
    simp only [State.perform, Gating.setAll_apply, if_neg hj]
  · rintro g cursored i rfl j hj
    exact addSequences_values_of_ne s g cursored hj
  · exact hinv.minimum

/-- No operation disturbs the sequences or the groups just when each `add` is called with a sequence
whose value is the minimum of the group, which is `INT64_MAX` for an empty one. -/
theorem undisturbed_iff {values : ι → Int} {operations : List (Operation G ι)} :
    (∀ x ∈ transitions State.step (State.initial values) operations, Undisturbed x) ↔
      ∀ x ∈ transitions State.step (State.initial values) operations,
        ∀ g i, x.act = .add g i → x.pre.values i = x.pre.get g := by
  apply transitions_forall_iff State.Inv
  · intro s operation s' h hs hadd
    exact h.step hs hadd
  · rintro s operation s' h hs hundisturbed g i rfl
    obtain rfl := Option.some.inj hs
    have hsame := hundisturbed.add g i rfl
    simp only [State.perform, add_values] at hsame
    have hi := congrFun hsame i
    rw [Function.update_self] at hi
    exact hi.symm
  · rfl

/-- A sequence that its owner has set to 7 is added to an empty group. -/
theorem addToEmpty_disturbed :
    ∃ s, run State.step (State.initial fun _ : Unit => 7) [.add () ()] = some s ∧
      s.values () = INT64_MAX ∧ s.written () = 7 ∧ s.get () = INT64_MAX :=
  ⟨_, rfl, rfl, rfl, rfl⟩

end Disruptor.SequenceGroup
