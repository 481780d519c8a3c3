import Disruptor.Barrier.Alert

/-!
# `waitFor` returns

Once the sequence that it waits for is there and nobody alerts the barrier, a call of `waitFor`
that goes on alone returns with it, whatever the wait strategy and wherever the call is: what it
has read before may be out of date.
-/

namespace Disruptor.WaitCall

variable {ι : Type*}

/-- Going on alone, the call returns `h`. -/
inductive Returns (b : Barrier ι) (view : WaitView ι) (sequence h : Int) : WaitCall ι → Prop where
  | done {c : WaitCall ι} (hs : c.step b view sequence .proceed = some (.inr (.ok h))) :
    Returns b view sequence h c
  | go {c c' : WaitCall ι} (hs : c.step b view sequence .proceed = some (.inl c'))
    (hr : Returns b view sequence h c') : Returns b view sequence h c

/-- What `waitFor(sequence)` waits for is there. -/
structure Ready (b : Barrier ι) (view : WaitView ι) (sequence : Int) : Prop where
  alerted : view.alerted = false
  cursor : sequence ≤ view.cursor
  values : ∀ i ∈ b.dependentSequences, sequence ≤ view.values i
  available : ∀ isAvailable, view.available = some isAvailable → isAvailable sequence = true
  le_max : sequence ≤ INT64_MAX

/-- The call is at a place that it can be at: flags are read from `sequence` on, and of a
multi-producer sequencer only. -/
def Placed (view : WaitView ι) (sequence : Int) : WaitCall ι → Prop
  | .readFlag a s => view.available.isSome = true ∧ sequence ≤ a ∧ sequence ≤ s
  | _ => True

variable {b : Barrier ι} {view : WaitView ι} {sequence : Int} {strategy : WaitStrategy}

lemma Placed.suits {c : WaitCall ι} (h : c.Placed view sequence) : c.Suits view := by
  cases c with
  | readFlag a s => exact h.1
  | _ => trivial

/-- A step that does not end the call. -/
lemma returns_of_step {c c' : WaitCall ι} (hs : c.step b view sequence .proceed = some (.inl c'))
    (h : ∃ h, sequence ≤ h ∧ Returns b view sequence h c') :
    ∃ h, sequence ≤ h ∧ Returns b view sequence h c := by
  obtain ⟨h, hle, hr⟩ := h
  exact ⟨h, hle, .go hs hr⟩

lemma Ready.readFlag (hr : Ready b view sequence) {a s : Int}
    (h : (readFlag a s).Placed view sequence) :
    ∃ h, sequence ≤ h ∧ Returns b view sequence h (readFlag a s) := by
  obtain ⟨hsome, ha, hs⟩ := h
  obtain ⟨isAvailable, havailable⟩ := Option.isSome_iff_exists.mp hsome
  induction hn : (a + 1 - s).toNat generalizing s with
  | zero =>
    refine ⟨a, ha, .done ?_⟩
    have hlt : ¬ s ≤ a := by omega
    simp [step, havailable, hlt]
  | succ n ih =>
    have hle : s ≤ a := by omega
    cases hflag : isAvailable s with
    | true =>
      refine returns_of_step ?_ (ih (s := s + 1) (by omega) (by omega))
      simp [step, havailable, hle, hflag]
    | false =>
      -- the flag of `sequence` itself is set
      have hne : s ≠ sequence := by
        intro heq
        simp [heq, hr.available isAvailable havailable] at hflag
      refine ⟨s - 1, by omega, .done ?_⟩
      simp [step, havailable, hle, hflag]

/-- A value that is read off the dependent sequence and is not behind. -/
lemma Ready.found (hr : Ready b view sequence) (strategy : WaitStrategy) {c : WaitCall ι} {a : Int}
    (ha : sequence ≤ a)
    (hs : c.step b view sequence .proceed = some (found view sequence strategy a)) :
    ∃ h, sequence ≤ h ∧ Returns b view sequence h c := by
  have hlt : ¬ a < sequence := by omega
  cases havailable : view.available with
  | none =>
    refine ⟨a, ha, .done ?_⟩
    rw [hs]
    simp [WaitCall.found, havailable, hlt]
  | some isAvailable =>
    refine returns_of_step ?_ (hr.readFlag (a := a) (s := sequence) ⟨?_, ha, le_rfl⟩)
    · rw [hs]
      simp [WaitCall.found, havailable, hlt]
    · simp [havailable]

/-- Members of the group that are read now are not behind. -/
lemma Ready.scan (hr : Ready b view sequence) {rest : List ι} {m : Int}
    (hrest : ∀ i ∈ rest, i ∈ b.dependentSequences) (hm : sequence ≤ m) :
    ∃ h, sequence ≤ h ∧ Returns b view sequence h (scan strategy rest m) := by
  induction rest generalizing m with
  | nil => exact hr.found strategy hm rfl
  | cons i rest ih =>
    obtain ⟨hi, hrest⟩ := List.forall_mem_cons.mp hrest
    exact returns_of_step rfl (ih hrest (le_min hm (hr.values i hi)))

/-- The strategy turns to the dependent sequence. -/
lemma Ready.dependent (hr : Ready b view sequence) (strategy : WaitStrategy) :
    ∃ h, sequence ≤ h ∧ Returns b view sequence h (dependent b strategy) := by
  unfold WaitCall.dependent
  split_ifs with hb
  · exact hr.found strategy hr.cursor rfl
  · exact hr.scan (fun i hi => hi) hr.le_max

lemma Ready.dependentBehind (hr : Ready b view sequence) (strategy : WaitStrategy) :
    ∃ h, sequence ≤ h ∧ Returns b view sequence h (dependentBehind strategy) := by
  refine returns_of_step ?_ (hr.dependent strategy)
  simp [step, hr.alerted]

/-- Members of the group that were read before may have been behind; then the group is read
again. -/
lemma Ready.scan_stale (hr : Ready b view sequence) (strategy : WaitStrategy) (rest : List ι)
    (m : Int) : ∃ h, sequence ≤ h ∧ Returns b view sequence h (WaitCall.scan strategy rest m) := by
  induction rest generalizing m with
  | nil =>
    by_cases hm : m < sequence
    · refine returns_of_step ?_ (hr.dependentBehind strategy)
      simp [step, WaitCall.found, hm]
    · exact hr.found strategy (not_lt.mp hm) rfl
  | cons i rest ih => exact returns_of_step rfl (ih _)

lemma Ready.readCursor (hr : Ready b view sequence) (strategy : WaitStrategy) :
    ∃ h, sequence ≤ h ∧ Returns b view sequence h (readCursor strategy) := by
  refine returns_of_step ?_ (hr.dependent strategy)
  have hcursor : ¬ view.cursor < sequence := not_lt.mpr hr.cursor
  simp [step, hcursor]

lemma Ready.enter (hr : Ready b view sequence) (strategy : WaitStrategy) :
    ∃ h, sequence ≤ h ∧ Returns b view sequence h (enter b strategy) := by
  unfold WaitCall.enter
  split_ifs
  · exact hr.readCursor strategy
  · exact hr.dependent strategy

/-- For every wait strategy, and from wherever the call is: when the cursor and the dependent
sequences have reached the sequence, its flag is set and nobody alerts the barrier, `waitFor`
returns, and not with less than was asked for. -/
theorem Ready.returns (hr : Ready b view sequence) {c : WaitCall ι}
    (hc : c.Placed view sequence) : ∃ h, sequence ≤ h ∧ Returns b view sequence h c := by
  cases c with
  | checkAlert =>
    refine returns_of_step ?_ (hr.enter b.waitStrategy)
    simp [step, hr.alerted]
  | readCursor strategy => exact hr.readCursor strategy
  | cursorBehind strategy =>
    refine returns_of_step ?_ (hr.readCursor strategy)
    simp [step, hr.alerted]
  | readDependent strategy => exact hr.found strategy hr.cursor rfl
  | scan strategy rest m => exact hr.scan_stale strategy rest m
  | dependentBehind strategy => exact hr.dependentBehind strategy
  | readFlag a s => exact hr.readFlag hc

end Disruptor.WaitCall
