import Disruptor.Core.Linearizability
import Disruptor.Core.ThreadPool
import Disruptor.Sequencer.Gating

/-!
# `SequenceGroups`

Any number of threads call `addSequences` and `removeSequence` on one list, which is held by an
atomic pointer to an immutable vector. Each load, each copy and each compare-exchange is a step, and
so is each access to a sequence. A list gets its identity when it is installed: before that no other
thread sees it.
-/

namespace Disruptor.SequenceGroups

open Disruptor.Core

variable {ι T : Type*}

/-- A call. -/
inductive Update (ι : Type*) where
  | addSequences (sequencesToAdd : List (Option ι))
  | removeSequence (sequence : ι)

/-- Where a call is. `current` is what `updater.load()` has returned; it is `none` when that was a
null pointer, and `addSequences` goes on with a new empty list that nobody else knows. -/
inductive Pc (ι : Type*) where
  | load (numToRemove : Nat)
  /-- Before the new list is made from `current`. -/
  | copy (current : Option (Snapshot ι)) (numToRemove : Nat)
  /-- Before `cursor.getCursor()`. -/
  | getCursor (current : Option (Snapshot ι)) (updated : List (Option ι))
  /-- In the loop that sets and appends the sequences to add, of which `rest` are left. -/
  | add (current : Option (Snapshot ι)) (cursorSequence : Int) (rest updated : List (Option ι))
  | compareExchange (current : Option (Snapshot ι)) (updated : List (Option ι)) (numToRemove : Nat)
  /-- The list was installed, as the effect number `effectAt`. -/
  | getCursorAgain (effectAt : Nat)
  | setAgain (effectAt : Nat) (cursorSequence : Int) (rest : List (Option ι))
  /-- Before the call returns. -/
  | return (effectAt : Nat) (result : Option Bool)

/-- A call in progress, and the number of effects at its invocation. -/
structure Call (ι : Type*) where
  update : Update ι
  invokedAt : Nat
  pc : Pc ι

inductive Action (ι : Type*) where
  | invoke (u : Update ι)
  | proceed
  /-- `getCursor()` returns. -/
  | cursor (value : Int)

/-- What the threads share: the pointer to the list, the values of the sequences, the number of
lists that were installed, and the history. -/
structure Shared (T ι : Type*) where
  updater : Option (Snapshot ι)
  values : ι → Int
  installed : Nat := 1
  history : History T (Update ι) (Option Bool) := {}

section

variable [DecidableEq ι]

/-- What a call makes of a list, and what it returns; `addSequences` returns nothing. -/
def group (ι : Type*) [DecidableEq ι] :
    SequentialObject (List (Option ι)) (Update ι) (Option Bool) where
  apply sequences
    | .addSequences sequencesToAdd => sequences ++ sequencesToAdd
    | .removeSequence sequence => sequences.filter (· ≠ some sequence)
  returns sequences
    | .addSequences _ => none
    | .removeSequence sequence => some (decide (some sequence ∈ sequences))

namespace Shared

/-- The list. -/
def sequences (s : Shared T ι) : List (Option ι) := s.updater.elim [] Snapshot.sequences

/-- `seq->set(cursorSequence)`, if `seq` is not null. -/
def setSequence (s : Shared T ι) (seq : Option ι) (cursorSequence : Int) : Shared T ι :=
  { s with values := Gating.setAll s.values [seq] cursorSequence }

def commit (s : Shared T ι) (e : Effect T (Update ι) (Option Bool)) : Shared T ι :=
  { s with history := s.history.commit e }

/-- A compare-exchange that succeeds. -/
def install (s : Shared T ι) (updated : List (Option ι)) : Shared T ι :=
  { s with updater := some ⟨s.installed, updated⟩, installed := s.installed + 1 }

def complete (s : Shared T ι) (e : Effect T (Update ι) (Option Bool)) (invokedAt effectAt : Nat) :
    Shared T ι :=
  { s with history := s.history.complete e invokedAt effectAt }

end Shared

/-- `ptr_ == expected`. -/
def samePointer : Option (Snapshot ι) → Option (Snapshot ι) → Bool
  | some stored, some expected => stored.id == expected.id
  | _, _ => false

/-- One step of `addSequences`. -/
def addStep (s : Shared T ι) (t : T) (c : Call ι) (sequencesToAdd : List (Option ι)) :
    Pc ι → Action ι → Option (Shared T ι × Option (Call ι))
  | .load n, .proceed => some (s, some { c with pc := .copy s.updater n })
  | .copy current _, .proceed =>
    some (s, some { c with pc := .getCursor current (current.elim [] Snapshot.sequences) })
  | .getCursor current updated, .cursor value =>
    some (s, some { c with pc := .add current value sequencesToAdd updated })
  | .add current cursorSequence (seq :: rest) updated, .proceed =>
    some (s.setSequence seq cursorSequence,
      some { c with pc := .add current cursorSequence rest (updated ++ [seq]) })
  | .add current _ [] updated, .proceed =>
    some (s, some { c with pc := .compareExchange current updated 0 })
  | .compareExchange current updated _, .proceed =>
    if samePointer s.updater current then
      some ((s.install updated).commit ⟨t, c.update, none⟩,
        some { c with pc := .getCursorAgain s.history.effects.length })
    else some (s, some { c with pc := .load 0 })
  | .getCursorAgain effectAt, .cursor value =>
    some (s, some { c with pc := .setAgain effectAt value sequencesToAdd })
  | .setAgain effectAt cursorSequence (seq :: rest), .proceed =>
    some (s.setSequence seq cursorSequence,
      some { c with pc := .setAgain effectAt cursorSequence rest })
  | .setAgain effectAt _ [], .proceed => some (s, some { c with pc := .return effectAt none })
  | _, _ => none

/-- One step of `removeSequence`. -/
def removeStep (s : Shared T ι) (t : T) (c : Call ι) (sequence : ι) :
    Pc ι → Action ι → Option (Shared T ι × Option (Call ι))
  | .load numToRemove, .proceed =>
    match s.updater with
    | none =>
      let result := some (decide (numToRemove ≠ 0))
      some (s.commit ⟨t, c.update, result⟩,
        some { c with pc := .return s.history.effects.length result })
    | some oldSequences =>
      let numToRemove := oldSequences.sequences.count (some sequence)
      if numToRemove = 0 then
        some (s.commit ⟨t, c.update, some false⟩,
          some { c with pc := .return s.history.effects.length (some false) })
      else some (s, some { c with pc := .copy (some oldSequences) numToRemove })
  | .copy current numToRemove, .proceed =>
    let newSequences := (current.elim [] Snapshot.sequences).filter (· ≠ some sequence)
    some (s, some { c with pc := .compareExchange current newSequences numToRemove })
  | .compareExchange current updated numToRemove, .proceed =>
    if samePointer s.updater current then
      let result := some (decide (numToRemove ≠ 0))
      some ((s.install updated).commit ⟨t, c.update, result⟩,
        some { c with pc := .return s.history.effects.length result })
    else some (s, some { c with pc := .load numToRemove })
  | _, _ => none

/-- One step of a thread. -/
def step (t : T) (s : Shared T ι) (l : Option (Call ι)) (a : Action ι) :
    Option (Shared T ι × Option (Call ι)) :=
  match l, a with
  | none, .invoke u => some (s, some ⟨u, s.history.effects.length, .load 0⟩)
  | none, _ => none
  | some c, a =>
    match c.pc, a with
    | .return effectAt result, .proceed =>
      some (s.complete ⟨t, c.update, result⟩ c.invokedAt effectAt, none)
    | pc, a =>
      match c.update with
      | .addSequences sequencesToAdd => addStep s t c sequencesToAdd pc a
      | .removeSequence sequence => removeStep s t c sequence pc a

/-- The threads. -/
def pool (T ι : Type*) [DecidableEq ι] :
    ThreadPool T (Shared T ι) (fun _ => Option (Call ι)) (fun _ => Action ι) where
  step := step

/-- No thread is in a call; the pointer is null or points to a list. -/
def initial (updater : Option (List (Option ι))) (values : ι → Int) :
    ThreadPool.Config (Shared T ι) fun _ : T => Option (Call ι) where
  shared := { updater := updater.map fun sequences => ⟨0, sequences⟩, values := values }
  threads _ := none

end

/-! ### What the threads know -/

section

variable [DecidableEq ι] [DecidableEq T]

/-- The list is what the calls have made of it, one after another. -/
structure Shared.Inv (initialSequences : List (Option ι)) (s : Shared T ι) : Prop where
  sequences_eq : s.sequences = s.history.final (group ι) initialSequences
  legal : s.history.Legal (group ι) initialSequences
  id_lt : ∀ snap, s.updater = some snap → snap.id < s.installed

/-- What a call returns that has counted `numToRemove` sequences. -/
def Update.result (numToRemove : Nat) : Update ι → Option Bool
  | .addSequences _ => none
  | .removeSequence _ => some (decide (numToRemove ≠ 0))

/-- A list that was loaded. It is not null then, and no other list gets its identity. -/
def Shared.Loaded (s : Shared T ι) (current : Option (Snapshot ι)) : Prop :=
  ∀ snap, current = some snap → snap.id < s.installed ∧ s.updater ≠ none ∧
    ∀ stored, s.updater = some stored → stored.id = snap.id → stored = snap

/-- The list that a call goes on with. -/
def sequencesOf (current : Option (Snapshot ι)) : List (Option ι) :=
  current.elim [] Snapshot.sequences

/-- No call of the thread has taken effect without having returned. -/
def Shared.Settled (s : Shared T ι) (t : T) : Prop :=
  s.history.effectsOf t = s.history.completedOf t

/-- The call in progress has taken effect. -/
structure Shared.Committed (s : Shared T ι) (e : Effect T (Update ι) (Option Bool))
    (invokedAt effectAt : Nat) : Prop where
  effects : s.history.effectsOf e.thread = s.history.completedOf e.thread ++ [e]
  took : s.history.Took e invokedAt effectAt

/-- What a thread knows in a call. -/
def Pc.Knows (s : Shared T ι) (t : T) (u : Update ι) (invokedAt : Nat) : Pc ι → Prop
  | .load numToRemove => s.Settled t ∧ (s.updater = none → numToRemove = 0)
  | .copy current numToRemove =>
    s.Settled t ∧ s.Loaded current ∧
      u.result numToRemove = (group ι).returns (sequencesOf current) u
  | .getCursor current updated =>
    s.Settled t ∧ s.Loaded current ∧ updated = sequencesOf current
  | .add current _ rest updated =>
    s.Settled t ∧ s.Loaded current ∧
      updated ++ rest = (group ι).apply (sequencesOf current) u
  | .compareExchange current updated numToRemove =>
    s.Settled t ∧ s.Loaded current ∧ updated = (group ι).apply (sequencesOf current) u ∧
      u.result numToRemove = (group ι).returns (sequencesOf current) u
  | .getCursorAgain effectAt | .setAgain effectAt _ _ =>
    s.Committed ⟨t, u, u.result 0⟩ invokedAt effectAt
  | .return effectAt result => s.Committed ⟨t, u, result⟩ invokedAt effectAt

/-- What a thread knows. -/
def Knows (t : T) (l : Option (Call ι)) (s : Shared T ι) : Prop :=
  match l with
  | none => s.Settled t
  | some c => c.invokedAt ≤ s.history.effects.length ∧ c.pc.Knows s t c.update c.invokedAt

/-- What a thread relies on when another thread moves: a list that is installed has a new
identity. -/
structure Rely (t : T) (s s' : Shared T ι) : Prop where
  installed_le : s.installed ≤ s'.installed
  updater : ∀ snap, s'.updater = some snap → s.updater = some snap ∨ s.installed ≤ snap.id
  not_null : s'.updater = none → s.updater = none
  history : History.Grows t s.history s'.history

variable {s s' : Shared T ι} {t : T} {l l' : Option (Call ι)} {a : Action ι} {c : Call ι}
  {u : Update ι} {current : Option (Snapshot ι)} {e : Effect T (Update ι) (Option Bool)}
  {updated initialSequences : List (Option ι)} {invokedAt effectAt : Nat} {pc : Pc ι}
  {result : Option Bool}

/-! ### Stability -/

omit [DecidableEq ι] in
lemma Shared.Loaded.stable (h : s.Loaded current) (hrely : Rely t s s') : s'.Loaded current := by
  intro snap hsnap
  obtain ⟨hlt, hne, hsame⟩ := h snap hsnap
  refine ⟨hlt.trans_le hrely.installed_le, fun hnull => hne (hrely.not_null hnull), ?_⟩
  intro stored hstored hid
  rcases hrely.updater stored hstored with hold | hnew
  · exact hsame stored hold hid
  · omega

omit [DecidableEq ι] in
lemma Shared.Settled.stable (h : s.Settled t) (hrely : Rely t s s') : s'.Settled t := by
  unfold Shared.Settled
  rw [hrely.history.effectsOf_eq, hrely.history.completedOf_eq]
  exact h

omit [DecidableEq ι] in
lemma Shared.Committed.stable (h : s.Committed e invokedAt effectAt)
    (hrely : Rely e.thread s s') : s'.Committed e invokedAt effectAt := by
  refine ⟨?_, h.took.mono hrely.history.prefix_effects⟩
  rw [hrely.history.effectsOf_eq, hrely.history.completedOf_eq]
  exact h.effects

lemma Pc.Knows.stable (h : pc.Knows s t u invokedAt) (hrely : Rely t s s') :
    pc.Knows s' t u invokedAt := by
  cases pc with
  | load n => exact ⟨h.1.stable hrely, fun hnull => h.2 (hrely.not_null hnull)⟩
  | copy current n => exact ⟨h.1.stable hrely, h.2.1.stable hrely, h.2.2⟩
  | getCursor current updated => exact ⟨h.1.stable hrely, h.2.1.stable hrely, h.2.2⟩
  | add current v rest updated => exact ⟨h.1.stable hrely, h.2.1.stable hrely, h.2.2⟩
  | compareExchange current updated n => exact ⟨h.1.stable hrely, h.2.1.stable hrely, h.2.2⟩
  | getCursorAgain k | setAgain k v rest | «return» k r => exact Shared.Committed.stable h hrely

lemma Knows.stable (h : Knows t l s) (hrely : Rely t s s') : Knows t l s' := by
  cases l with
  | none => exact Shared.Settled.stable h hrely
  | some c =>
    exact ⟨h.1.trans hrely.history.prefix_effects.length_le, h.2.stable hrely⟩

/-! ### Steps -/

/-- What a step of the thread `t` leaves. -/
structure StepSound (initialSequences : List (Option ι)) (t : T) (s s' : Shared T ι)
    (l' : Option (Call ι)) : Prop where
  inv : s'.Inv initialSequences
  knows : Knows t l' s'
  rely : ∀ v, v ≠ t → Rely v s s'

/-- A step that touches neither the list nor the history. -/
lemma StepSound.of_eq (h : s.Inv initialSequences) (hl : Knows t l' s)
    (hupdater : s'.updater = s.updater) (hinstalled : s'.installed = s.installed)
    (hhistory : s'.history = s.history) : StepSound initialSequences t s s' l' := by
  have hrely : ∀ v, Rely v s s' := by
    intro v
    refine ⟨hinstalled.ge, ?_, fun hnull => hupdater ▸ hnull, hhistory ▸ History.Grows.refl _ _⟩
    intro snap hsnap
    exact Or.inl (hupdater ▸ hsnap)
  refine ⟨⟨?_, ?_, ?_⟩, hl.stable (hrely t), fun v _ => hrely v⟩
  · rw [hhistory, ← h.sequences_eq]
    simp only [Shared.sequences, hupdater]
  · rw [hhistory]
    exact h.legal
  · rw [hupdater, hinstalled]
    exact h.id_lt

omit [DecidableEq ι] in
/-- A thread that was settled has committed. -/
lemma Shared.Settled.commit (h : s.Settled t) (hs : s'.history = s.history.commit ⟨t, u, result⟩)
    (hinvoked : invokedAt ≤ s.history.effects.length) :
    s'.Committed ⟨t, u, result⟩ invokedAt s.history.effects.length := by
  constructor
  · rw [hs, History.effectsOf_commit_self, History.completedOf_commit, h]
  · rw [hs]
    exact History.took_commit _ _ hinvoked

/-- A removal that finds nothing takes effect on the list as it is. -/
lemma StepSound.commit (h : s.Inv initialSequences) (hsettled : s.Settled t)
    (hinvoked : invokedAt ≤ s.history.effects.length)
    (happly : (group ι).apply s.sequences u = s.sequences)
    (hreturns : result = (group ι).returns s.sequences u) :
    StepSound initialSequences t s (s.commit ⟨t, u, result⟩)
      (some ⟨u, invokedAt, .return s.history.effects.length result⟩) := by
  refine ⟨⟨?_, ?_, h.id_lt⟩, ⟨?_, hsettled.commit rfl hinvoked⟩, ?_⟩
  · simp only [Shared.commit, History.final_commit]
    rw [← h.sequences_eq, happly]
    rfl
  · apply h.legal.commit
    rw [← h.sequences_eq]
    exact hreturns
  · simp only [Shared.commit, History.commit, List.length_append]
    omega
  · intro v hv
    exact ⟨le_rfl, fun _ => Or.inl, id, History.grows_commit _ hv.symm⟩

omit [DecidableEq ι] [DecidableEq T] in
/-- When the pointer is still the one that was loaded, so is the list. -/
lemma Shared.Loaded.sequences_eq (h : s.Loaded current)
    (hsame : samePointer s.updater current = true) : s.sequences = sequencesOf current := by
  unfold samePointer at hsame
  split at hsame
  · rename_i stored expected hupdater
    have hid : stored.id = expected.id := by simpa using hsame
    obtain ⟨-, -, hstored⟩ := h expected rfl
    obtain rfl := hstored stored hupdater hid
    simp only [Shared.sequences, hupdater, sequencesOf]
  · cases hsame

/-- A compare-exchange that succeeds makes the call take effect. -/
lemma StepSound.install (h : s.Inv initialSequences) (hsettled : s.Settled t)
    (hinvoked : invokedAt ≤ s.history.effects.length) (hloaded : s.Loaded current)
    (hsame : samePointer s.updater current = true)
    (hupdated : updated = (group ι).apply (sequencesOf current) u)
    (hreturns : result = (group ι).returns (sequencesOf current) u)
    (hpc : ∀ s' : Shared T ι, s'.Committed ⟨t, u, result⟩ invokedAt s.history.effects.length →
      pc.Knows s' t u invokedAt) :
    StepSound initialSequences t s ((s.install updated).commit ⟨t, u, result⟩)
      (some ⟨u, invokedAt, pc⟩) := by
  rw [← hloaded.sequences_eq hsame] at hupdated hreturns
  refine ⟨⟨?_, ?_, ?_⟩, ⟨?_, hpc _ (hsettled.commit rfl hinvoked)⟩, ?_⟩
  · simp only [Shared.commit, Shared.install, History.final_commit]
    rw [← h.sequences_eq, ← hupdated]
    rfl
  · apply h.legal.commit
    rw [← h.sequences_eq]
    exact hreturns
  · intro snap hsnap
    obtain rfl := Option.some.inj hsnap
    exact Nat.lt_succ_self _
  · simp only [Shared.commit, Shared.install, History.commit, List.length_append]
    omega
  · intro v hv
    refine ⟨Nat.le_succ _, ?_, by rintro ⟨⟩, History.grows_commit _ hv.symm⟩
    intro snap hsnap
    obtain rfl := Option.some.inj hsnap
    exact Or.inr le_rfl

/-- The return of a call. -/
lemma StepSound.complete (h : s.Inv initialSequences)
    (hcommitted : s.Committed ⟨t, u, result⟩ invokedAt effectAt) :
    StepSound initialSequences t s (s.complete ⟨t, u, result⟩ invokedAt effectAt) none := by
  refine ⟨⟨h.sequences_eq, h.legal.complete hcommitted.took, h.id_lt⟩, ?_, ?_⟩
  · show History.effectsOf _ t = History.completedOf _ t
    have heffects := hcommitted.effects
    have hcompleted := History.completedOf_complete_self s.history
      (⟨t, u, result⟩ : Effect T (Update ι) (Option Bool)) invokedAt effectAt
    simp only [Shared.complete] at hcompleted ⊢
    rw [hcompleted, History.effectsOf_complete]
    exact heffects
  · intro v hv
    exact ⟨le_rfl, fun _ => Or.inl, id, History.grows_complete _ hv.symm _ _⟩

omit [DecidableEq T] in
/-- The list that is loaded. -/
lemma Shared.Inv.loaded (h : s.Inv initialSequences) : s.Loaded s.updater := by
  intro snap hsnap
  refine ⟨h.id_lt snap hsnap, ?_, ?_⟩
  · rw [hsnap]
    exact Option.some_ne_none snap
  intro stored hstored _
  exact Option.some.inj (hstored.symm.trans hsnap)

lemma addStep_sound {sequencesToAdd : List (Option ι)} (h : s.Inv initialSequences)
    (hu : c.update = .addSequences sequencesToAdd) (hl : Knows t (some { c with pc := pc }) s)
    (hs : addStep s t c sequencesToAdd pc a = some (s', l')) :
    StepSound initialSequences t s s' l' := by
  obtain ⟨hinvoked, hknows⟩ := hl
  simp only at hinvoked hknows
  unfold addStep at hs
  split at hs
  · obtain ⟨rfl, rfl⟩ := Prod.mk.inj (Option.some.inj hs)
    refine .of_eq h ⟨hinvoked, hknows.1, h.loaded, ?_⟩ rfl rfl rfl
    simp only [hu]
    rfl
  · obtain ⟨rfl, rfl⟩ := Prod.mk.inj (Option.some.inj hs)
    exact .of_eq h ⟨hinvoked, hknows.1, hknows.2.1, rfl⟩ rfl rfl rfl
  · obtain ⟨rfl, rfl⟩ := Prod.mk.inj (Option.some.inj hs)
    refine .of_eq h ⟨hinvoked, hknows.1, hknows.2.1, ?_⟩ rfl rfl rfl
    simp only [hu, hknows.2.2]
    rfl
  · obtain ⟨rfl, rfl⟩ := Prod.mk.inj (Option.some.inj hs)
    refine .of_eq h ⟨hinvoked, hknows.1, hknows.2.1, ?_⟩ rfl rfl rfl
    rw [List.append_assoc]
    exact hknows.2.2
  · obtain ⟨rfl, rfl⟩ := Prod.mk.inj (Option.some.inj hs)
    refine .of_eq h ⟨hinvoked, hknows.1, hknows.2.1, ?_, ?_⟩ rfl rfl rfl
    · simpa using hknows.2.2
    · simp only [hu]
      rfl
  · split_ifs at hs with hsame
    · obtain ⟨rfl, rfl⟩ := Prod.mk.inj (Option.some.inj hs)
      obtain ⟨hsettled, hloaded, hupdated, -⟩ := hknows
      refine .install h hsettled hinvoked hloaded hsame hupdated ?_ ?_
      · simp only [hu]
        rfl
      · intro s₁ hcommitted
        simp only [hu] at hcommitted ⊢
        exact hcommitted
    · obtain ⟨rfl, rfl⟩ := Prod.mk.inj (Option.some.inj hs)
      exact .of_eq h ⟨hinvoked, hknows.1, fun _ => rfl⟩ rfl rfl rfl
  · obtain ⟨rfl, rfl⟩ := Prod.mk.inj (Option.some.inj hs)
    exact .of_eq h ⟨hinvoked, hknows⟩ rfl rfl rfl
  · obtain ⟨rfl, rfl⟩ := Prod.mk.inj (Option.some.inj hs)
    exact .of_eq h ⟨hinvoked, hknows⟩ rfl rfl rfl
  · obtain ⟨rfl, rfl⟩ := Prod.mk.inj (Option.some.inj hs)
    refine .of_eq h ⟨hinvoked, ?_⟩ rfl rfl rfl
    simp only [hu] at hknows ⊢
    exact hknows
  · cases hs

lemma removeStep_sound {sequence : ι} (h : s.Inv initialSequences)
    (hu : c.update = .removeSequence sequence) (hl : Knows t (some { c with pc := pc }) s)
    (hs : removeStep s t c sequence pc a = some (s', l')) :
    StepSound initialSequences t s s' l' := by
  obtain ⟨hinvoked, hknows⟩ := hl
  simp only at hinvoked hknows
  unfold removeStep at hs
  split at hs
  · split at hs
    · rename_i hnull
      obtain ⟨rfl, rfl⟩ := Prod.mk.inj (Option.some.inj hs)
      have hempty : s.sequences = [] := by simp only [Shared.sequences, hnull, Option.elim_none]
      refine .commit h hknows.1 hinvoked ?_ ?_
      · rw [hu, hempty]
        rfl
      · rw [hu, hempty, hknows.2 hnull]
        rfl
    · rename_i old hold
      have hsequences : s.sequences = old.sequences := by
        simp only [Shared.sequences, hold, Option.elim_some]
      dsimp only at hs
      split_ifs at hs with hcount
      · obtain ⟨rfl, rfl⟩ := Prod.mk.inj (Option.some.inj hs)
        have habsent : some sequence ∉ s.sequences := by
          rw [hsequences]
          exact List.count_eq_zero.mp hcount
        refine .commit h hknows.1 hinvoked ?_ ?_
        · rw [hu]
          apply List.filter_eq_self.mpr
          intro seq hseq
          exact decide_eq_true fun heq => habsent (heq ▸ hseq)
        · rw [hu]
          simp [group, habsent]
      · obtain ⟨rfl, rfl⟩ := Prod.mk.inj (Option.some.inj hs)
        refine .of_eq h ⟨hinvoked, hknows.1, hold ▸ h.loaded, ?_⟩ rfl rfl rfl
        have hmem : some sequence ∈ old.sequences :=
          List.count_pos_iff.mp (Nat.pos_of_ne_zero hcount)
        simp [hu, Update.result, group, sequencesOf, hmem, hcount]
  · obtain ⟨rfl, rfl⟩ := Prod.mk.inj (Option.some.inj hs)
    refine .of_eq h ⟨hinvoked, hknows.1, hknows.2.1, ?_, hknows.2.2⟩ rfl rfl rfl
    rw [hu]
    rfl
  · split_ifs at hs with hsame
    · obtain ⟨rfl, rfl⟩ := Prod.mk.inj (Option.some.inj hs)
      obtain ⟨hsettled, hloaded, hupdated, hreturns⟩ := hknows
      refine .install h hsettled hinvoked hloaded hsame hupdated ?_ fun _ => id
      rw [← hreturns, hu]
      rfl
    · rename_i current updated numToRemove
      obtain ⟨rfl, rfl⟩ := Prod.mk.inj (Option.some.inj hs)
      refine .of_eq h ⟨hinvoked, hknows.1, ?_⟩ rfl rfl rfl
      intro hnull
      obtain ⟨-, hloaded, -, hreturns⟩ := hknows
      cases current with
      | none =>
        rw [hu] at hreturns
        simpa [Update.result, group, sequencesOf] using hreturns
      | some snap => exact absurd hnull (hloaded snap rfl).2.1
  · cases hs

/-- A step keeps what is known, and does to the others what they rely on. -/
theorem step_sound (h : s.Inv initialSequences) (hl : Knows t l s)
    (hs : step t s l a = some (s', l')) : StepSound initialSequences t s s' l' := by
  cases l with
  | none =>
    cases a with
    | invoke u =>
      obtain ⟨rfl, rfl⟩ := Prod.mk.inj (Option.some.inj hs)
      exact .of_eq h ⟨le_rfl, hl, fun _ => rfl⟩ rfl rfl rfl
    | proceed | cursor value => cases hs
  | some c =>
    obtain ⟨u, invokedAt, pc⟩ := c
    have hcall : ∀ s₁, (match u with
        | .addSequences sequencesToAdd => addStep s t ⟨u, invokedAt, pc⟩ sequencesToAdd pc a
        | .removeSequence sequence => removeStep s t ⟨u, invokedAt, pc⟩ sequence pc a) = some s₁ →
        StepSound initialSequences t s s₁.1 s₁.2 := by
      intro s₁ hs₁
      cases u with
      | addSequences sequencesToAdd => exact addStep_sound h rfl hl hs₁
      | removeSequence sequence => exact removeStep_sound h rfl hl hs₁
    simp only [step] at hs
    split at hs
    · rename_i effectAt result hpc
      obtain ⟨rfl, rfl⟩ := Prod.mk.inj (Option.some.inj hs)
      obtain ⟨-, hcommitted⟩ := hl
      exact .complete h hcommitted
    · exact hcall _ hs

/-- The proof outline. -/
def outline (T ι : Type*) [DecidableEq T] [DecidableEq ι] (initialSequences : List (Option ι)) :
    (pool T ι).Outline where
  inv := Shared.Inv initialSequences
  assertion := Knows
  rely := Rely
  step_inv h hl hs := (step_sound h hl hs).inv
  step_assertion h hl hs := (step_sound h hl hs).knows
  step_rely h hl hs v hv := (step_sound h hl hs).rely v hv
  stable _ _ hl hrely := hl.stable hrely

lemma outline_initial (updater : Option (List (Option ι))) (values : ι → Int) :
    (outline T ι (updater.getD [])).Holds (initial updater values) := by
  refine ⟨⟨?_, ?_, ?_⟩, fun _ => rfl⟩
  · cases updater <;> rfl
  · refine ⟨?_, ?_, ?_, ?_⟩
    · intro n e he
      simp [initial] at he
    all_goals
      intro c hc
      cases hc
  · intro snap hsnap
    obtain ⟨sequences, -, rfl⟩ := Option.map_eq_some_iff.mp hsnap
    exact Nat.zero_lt_one

/-- The effect of a call that has not returned yet. -/
def Call.effect (t : T) (c : Call ι) : List (Effect T (Update ι) (Option Bool)) :=
  match c.pc with
  | .getCursorAgain _ | .setAgain _ _ _ => [⟨t, c.update, c.update.result 0⟩]
  | .return _ result => [⟨t, c.update, result⟩]
  | _ => []

/-- A call has done to the list what it should, and has returned whether it did. -/
def Completed.DidItsWork (c : Completed T (Update ι) (Option Bool))
    (before after : List (Option ι)) : Prop :=
  match c.op with
  | .addSequences sequencesToAdd => after = before ++ sequencesToAdd
  | .removeSequence sequence =>
    (c.result = some true ∧ some sequence ∈ before ∧
      after = before.filter (· ≠ some sequence)) ∨
    (c.result = some false ∧ some sequence ∉ before ∧ after = before)

/-- The calls have worked on the list as if they had been made one after another. -/
structure Linearized (initialSequences : List (Option ι)) (threads : T → Option (Call ι))
    (s : Shared T ι) : Prop where
  /-- The list is the one that the effects leave, in their order. -/
  sequences_eq : s.sequences = s.history.final (group ι) initialSequences
  legal : s.history.Legal (group ι) initialSequences
  /-- The effects of a thread are its calls: those that have returned, and at most the one in
  progress. -/
  program_order : ∀ t, s.history.effectsOf t =
    s.history.completedOf t ++ ((threads t).map (Call.effect t)).getD []
  /-- Calls that do not overlap took effect in their order. -/
  real_time : ∀ c ∈ s.history.completed, ∀ c' ∈ s.history.completed,
    c.returnedAt ≤ c'.invokedAt → c.effectAt < c'.effectAt
  /-- What a call has done to the list at the moment of its effect, which lies within the call. -/
  work : ∀ c ∈ s.history.completed, c.invokedAt ≤ c.effectAt ∧ c.effectAt < c.returnedAt ∧
    Completed.DidItsWork c (s.history.stateAt (group ι) initialSequences c.effectAt)
      (s.history.stateAt (group ι) initialSequences (c.effectAt + 1))

lemma Pc.Knows.effectsOf_eq (h : pc.Knows s t u invokedAt) :
    s.history.effectsOf t = s.history.completedOf t ++ Call.effect t ⟨u, invokedAt, pc⟩ := by
  cases pc with
  | load n | copy current n | getCursor current updated | add current v rest updated
  | compareExchange current updated n =>
    rw [Call.effect, List.append_nil]
    exact h.1
  | getCursorAgain k | setAgain k v rest | «return» k r => exact h.effects

omit [DecidableEq T] in
lemma didItsWork {initialSequences : List (Option ι)}
    {h : History T (Update ι) (Option Bool)} (hl : h.Legal (group ι) initialSequences)
    {c : Completed T (Update ι) (Option Bool)} (hc : c ∈ h.completed) :
    Completed.DidItsWork c (h.stateAt (group ι) initialSequences c.effectAt)
      (h.stateAt (group ι) initialSequences (c.effectAt + 1)) := by
  have heffect := (hl.took c hc).effect
  have hresult := hl.results _ _ heffect
  rw [History.stateAt_succ heffect]
  unfold Completed.DidItsWork
  cases hop : c.op with
  | addSequences sequencesToAdd => rfl
  | removeSequence sequence =>
    rw [hop] at hresult
    have hreturns : c.result =
        some (decide (some sequence ∈ h.stateAt (group ι) initialSequences c.effectAt)) := hresult
    by_cases hmem : some sequence ∈ h.stateAt (group ι) initialSequences c.effectAt
    · refine Or.inl ⟨?_, hmem, rfl⟩
      rw [hreturns, decide_eq_true hmem]
    · refine Or.inr ⟨?_, hmem, ?_⟩
      · rw [hreturns, decide_eq_false hmem]
      · apply List.filter_eq_self.mpr
        intro seq hseq
        exact decide_eq_true fun heq => hmem (heq ▸ hseq)

/-- However the steps of `addSequences` and `removeSequence` are interleaved, the calls are
linearizable: they take effect in the order of their compare-exchanges that succeed, and a removal
that finds nothing when it loads the list. -/
theorem updates_linearizable {updater : Option (List (Option ι))} {values : ι → Int}
    {as : List (T × Action ι)}
    {cfg : ThreadPool.Config (Shared T ι) fun _ => Option (Call ι)}
    (hr : run (pool T ι).next (initial updater values) (as.map fun a => ⟨a.1, a.2⟩) = some cfg) :
    Linearized (updater.getD []) cfg.threads cfg.shared := by
  have hholds := (outline_initial updater values).run hr
  obtain ⟨hsequences, hlegal, -⟩ := hholds.shared
  refine ⟨hsequences, hlegal, ?_, fun c hc c' hc' => hlegal.effectAt_lt hc hc', ?_⟩
  · intro t
    have hknows := hholds.threads t
    cases hcall : cfg.threads t with
    | none =>
      rw [hcall] at hknows
      simp only [Option.map_none, Option.getD_none, List.append_nil]
      exact hknows
    | some c =>
      rw [hcall] at hknows
      exact hknows.2.effectsOf_eq
  · intro c hc
    exact ⟨(hlegal.took c hc).invoked_le, hlegal.effect_lt c hc, didItsWork hlegal hc⟩

/-- While one thread removes a sequence that is in the list twice, another one appends to the list,
so that the first compare-exchange fails. -/
def removeWhileAdding : List (Bool × Action Nat) :=
  [(false, .invoke (.removeSequence 0)), (false, .proceed), (false, .proceed),
    (true, .invoke (.addSequences [some 2])), (true, .proceed), (true, .proceed),
    (true, .cursor 5), (true, .proceed), (true, .proceed), (true, .proceed)] ++
  List.replicate 5 (false, .proceed) ++
  [(true, .cursor 6), (true, .proceed), (true, .proceed), (true, .proceed)]

theorem updates_linearizable_removeWhileAdding :
    ∃ cfg : ThreadPool.Config (Shared Bool Nat) fun _ => Option (Call Nat),
      run (pool Bool Nat).next (initial (some [some 0, some 1, some 0]) fun _ => 0)
        (removeWhileAdding.map fun a => ⟨a.1, a.2⟩) = some cfg ∧
      cfg.shared.sequences = [some 1, some 2] ∧
      cfg.shared.history.completed.map (fun c => c.result) = [some true, none] ∧
      Linearized [some 0, some 1, some 0] cfg.threads cfg.shared := by
  obtain ⟨cfg, hr, hsequences, hresults⟩ :
      ∃ cfg : ThreadPool.Config (Shared Bool Nat) fun _ => Option (Call Nat),
        run (pool Bool Nat).next (initial (some [some 0, some 1, some 0]) fun _ => 0)
          (removeWhileAdding.map fun a => ⟨a.1, a.2⟩) = some cfg ∧
        cfg.shared.sequences = [some 1, some 2] ∧
        cfg.shared.history.completed.map (fun c => c.result) = [some true, none] :=
    ⟨_, rfl, rfl, rfl⟩
  exact ⟨cfg, hr, hsequences, hresults, updates_linearizable hr⟩

end

end Disruptor.SequenceGroups
