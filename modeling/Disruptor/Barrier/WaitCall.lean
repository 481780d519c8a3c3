import Disruptor.EventProcessor.BatchEventProcessor
import Disruptor.Sequencer.Gating

/-!
# `ProcessingSequenceBarrier::waitFor`, step by step

One call of `waitFor(sequence)` in atomic steps: the alert check, the wait strategy with its
reads of the cursor and of the dependent sequences (a `FixedSequenceGroup` reads its members one
after another), and the flags read by `getHighestPublishedSequence`. How a strategy pauses
between its reads (spinning, yielding, parking, a condition variable) is left to the schedule.
-/

namespace Disruptor

variable {ι : Type*}

/-- The wait strategies. -/
inductive WaitStrategy where
  | BusySpin
  | Yielding
  | Sleeping
  | Blocking
  | LiteBlocking
  | TimeoutBlocking
  | LiteTimeoutBlocking
  | PhasedBackoff (fallback : WaitStrategy)
  deriving DecidableEq, Repr

namespace WaitStrategy

/-- The strategy waits for the cursor before it looks at the dependent sequence. -/
def waitsForCursor : WaitStrategy → Bool
  | Blocking | LiteBlocking | TimeoutBlocking | LiteTimeoutBlocking => true
  | _ => false

/-- The strategy may throw a `TimeoutException` while it waits for the cursor. -/
def timesOut : WaitStrategy → Bool
  | TimeoutBlocking | LiteTimeoutBlocking => true
  | _ => false

/-- The strategy checks the alert each time it finds the dependent sequence behind. -/
def checksAlert : WaitStrategy → Bool
  | PhasedBackoff _ => false
  | _ => true

end WaitStrategy

/-- A barrier: its strategy and its dependent sequences. Without any the dependent sequence is
the cursor, else it is the `FixedSequenceGroup` of them. -/
structure Barrier (ι : Type*) where
  waitStrategy : WaitStrategy
  dependentSequences : List ι

/-- Where a call of `waitFor` is. -/
inductive WaitCall (ι : Type*) where
  /-- Before `checkAlert()` at the start of the call. -/
  | checkAlert
  /-- In a strategy that waits for the cursor, before it reads it. -/
  | readCursor (strategy : WaitStrategy)
  /-- The cursor was behind. -/
  | cursorBehind (strategy : WaitStrategy)
  /-- Before the cursor is read as the dependent sequence. -/
  | readDependent (strategy : WaitStrategy)
  /-- In `FixedSequenceGroup::get`, with the members still to be read. -/
  | scan (strategy : WaitStrategy) (rest : List ι) (minimumSequence : Int)
  /-- The dependent sequence was behind. -/
  | dependentBehind (strategy : WaitStrategy)
  /-- In `getHighestPublishedSequence`, before the flag of `sequence` is read. -/
  | readFlag (availableSequence sequence : Int)

/-- What the schedule decides. -/
inductive WaitChoice where
  /-- Go on: read, check the alert, or read again. -/
  | proceed
  /-- Read the cursor once more without an alert check (`LiteBlockingWaitStrategy`). -/
  | recheck
  | timeout
  /-- `PhasedBackoffWaitStrategy` turns to its fallback strategy. -/
  | fallback
  deriving DecidableEq, Repr

/-- What a call of `waitFor` reads of the state that it shares with other threads. `available` is
`isAvailable` of a multi-producer sequencer; a single-producer sequencer reads no flags. -/
structure WaitView (ι : Type*) where
  cursor : Int
  values : ι → Int
  alerted : Bool := false
  available : Option (Int → Bool)

namespace WaitCall

/-- The strategy turns to the dependent sequence. -/
def dependent (b : Barrier ι) (strategy : WaitStrategy) : WaitCall ι :=
  if b.dependentSequences.isEmpty then .readDependent strategy
  else .scan strategy b.dependentSequences INT64_MAX

/-- The strategy is entered. -/
def enter (b : Barrier ι) (strategy : WaitStrategy) : WaitCall ι :=
  if strategy.waitsForCursor then .readCursor strategy else dependent b strategy

/-- The strategy has read `availableSequence` off the dependent sequence. -/
def found (view : WaitView ι) (sequence : Int) (strategy : WaitStrategy) (availableSequence : Int) :
    WaitCall ι ⊕ Except Exception Int :=
  if availableSequence < sequence then .inl (.dependentBehind strategy)
  else
    match view.available with
    | none => .inr (.ok availableSequence)
    | some _ => .inl (.readFlag availableSequence sequence)

/-- One atomic step of `waitFor(sequence)`: where the call is next, or how it ends. -/
def step (b : Barrier ι) (view : WaitView ι) (sequence : Int) :
    WaitCall ι → WaitChoice → Option (WaitCall ι ⊕ Except Exception Int)
  | .checkAlert, .proceed =>
    if view.alerted then some (.inr (.error .AlertException))
    else some (.inl (enter b b.waitStrategy))
  | .readCursor strategy, .proceed =>
    if view.cursor < sequence then some (.inl (.cursorBehind strategy))
    else some (.inl (dependent b strategy))
  | .cursorBehind strategy, .proceed =>
    if view.alerted then some (.inr (.error .AlertException))
    else some (.inl (.readCursor strategy))
  | .cursorBehind .LiteBlocking, .recheck => some (.inl (.readCursor .LiteBlocking))
  | .cursorBehind strategy, .timeout =>
    if strategy.timesOut then some (.inr (.error .TimeoutException)) else none
  | .readDependent strategy, .proceed => some (found view sequence strategy view.cursor)
  | .scan strategy [] minimumSequence, .proceed =>
    some (found view sequence strategy minimumSequence)
  | .scan strategy (i :: rest) minimumSequence, .proceed =>
    some (.inl (.scan strategy rest (min minimumSequence (view.values i))))
  | .dependentBehind strategy, .proceed =>
    if strategy.checksAlert && view.alerted then some (.inr (.error .AlertException))
    else some (.inl (dependent b strategy))
  | .dependentBehind (.PhasedBackoff fallback), .fallback => some (.inl (enter b fallback))
  | .readFlag availableSequence s, .proceed =>
    match view.available with
    | none => none
    | some isAvailable =>
      if s ≤ availableSequence then
        if isAvailable s then some (.inl (.readFlag availableSequence (s + 1)))
        else some (.inr (.ok (s - 1)))
      else some (.inr (.ok availableSequence))
  | _, _ => none

/-- What the strategy has established of the value it takes off the dependent sequence, where
`Reached` is what is known of a value of the cursor. -/
def Below (b : Barrier ι) (Reached : Int → Prop) (values : ι → Int) (a : Int) : Prop :=
  (b.dependentSequences = [] → Reached a) ∧ ∀ i ∈ b.dependentSequences, a ≤ values i

/-- What a call of `waitFor` knows at each of its places, where `Seen` is what is known of a
sequence whose flag was found set. -/
def Knows (b : Barrier ι) (Reached Seen : Int → Prop) (values : ι → Int) (sequence : Int) :
    WaitCall ι → Prop
  | .readDependent _ => b.dependentSequences = []
  | .scan _ rest m =>
    b.dependentSequences ≠ [] ∧ ∀ i ∈ b.dependentSequences, i ∈ rest ∨ m ≤ values i
  | .readFlag a s =>
    sequence ≤ a ∧ sequence ≤ s ∧ s ≤ a + 1 ∧ Below b Reached values a ∧
      ∀ t, sequence ≤ t → t < s → Seen t
  | _ => True

variable {b : Barrier ι} {view : WaitView ι} {sequence h : Int} {c c' : WaitCall ι}
  {choice : WaitChoice} {Reached Reached' Seen Seen' : Int → Prop} {values values' : ι → Int}

lemma Below.mono {a : Int} (ha : Below b Reached values a) (hr : ∀ a, Reached a → Reached' a)
    (hv : ∀ i ∈ b.dependentSequences, values i ≤ values' i) : Below b Reached' values' a :=
  ⟨fun hb => hr a (ha.1 hb), fun i hi => (ha.2 i hi).trans (hv i hi)⟩

/-- What a call knows stays known when the sequences that it depends on advance. -/
lemma Knows.mono (hc : c.Knows b Reached Seen values sequence)
    (hr : ∀ a, Reached a → Reached' a) (hs : ∀ s, Seen s → Seen' s)
    (hv : ∀ i ∈ b.dependentSequences, values i ≤ values' i) :
    c.Knows b Reached' Seen' values' sequence := by
  cases c with
  | scan strategy rest m =>
    refine ⟨hc.1, ?_⟩
    intro i hi
    rcases hc.2 i hi with hrest | hle
    · exact Or.inl hrest
    · exact Or.inr (hle.trans (hv i hi))
  | readFlag a s =>
    obtain ⟨ha, hs', hle, hbelow, hseen⟩ := hc
    exact ⟨ha, hs', hle, hbelow.mono hr hv, fun t ht ht' => hs t (hseen t ht ht')⟩
  | _ => exact hc

lemma knows_dependent (strategy : WaitStrategy) :
    (dependent b strategy).Knows b Reached Seen values sequence := by
  unfold dependent
  split_ifs with hb
  · exact List.isEmpty_iff.mp hb
  · exact ⟨fun h => hb (List.isEmpty_iff.mpr h), fun _ hi => Or.inl hi⟩

lemma knows_enter (strategy : WaitStrategy) :
    (enter b strategy).Knows b Reached Seen values sequence := by
  unfold enter
  split_ifs
  · trivial
  · exact knows_dependent strategy

/-- How `waitFor` may end with an answer. -/
structure Answers (b : Barrier ι) (Reached Seen : Int → Prop) (view : WaitView ι)
    (sequence h : Int) : Prop where
  /-- Only the flags of a multi-producer sequencer make the answer fall short of the request. -/
  sequence_le : sequence - 1 ≤ h
  sequence_le_of_single : view.available = none → sequence ≤ h
  below : sequence ≤ h → Below b Reached view.values h
  seen : view.available.isSome = true → ∀ s, sequence ≤ s → s ≤ h → Seen s

lemma found_knows {a : Int} {strategy : WaitStrategy}
    (ha : sequence ≤ a → Below b Reached values a)
    (hs : found view sequence strategy a = .inl c') :
    c'.Knows b Reached Seen values sequence := by
  unfold found at hs
  split_ifs at hs with hlt
  · obtain rfl := Sum.inl.inj hs
    trivial
  · split at hs
    · cases hs
    · obtain rfl := Sum.inl.inj hs
      have hle : sequence ≤ a := by omega
      refine ⟨hle, le_rfl, by omega, ha hle, ?_⟩
      intro t ht ht'
      omega

lemma found_answers {a : Int} {strategy : WaitStrategy}
    (ha : Below b Reached view.values a)
    (hs : found view sequence strategy a = .inr (.ok h)) :
    Answers b Reached Seen view sequence h := by
  unfold found at hs
  split_ifs at hs with hlt
  split at hs
  · rename_i hnone
    obtain rfl : a = h := by simpa using hs
    refine ⟨by omega, fun _ => by omega, fun _ => ha, ?_⟩
    simp [hnone]
  · cases hs

/-- A step that goes on: what the call knows afterwards. -/
lemma step_knows (hc : c.Knows b Reached Seen view.values sequence)
    (hr : Reached view.cursor)
    (hflag : ∀ isAvailable s, view.available = some isAvailable → sequence ≤ s →
      (∀ t, sequence ≤ t → t < s → Seen t) → isAvailable s = true → Seen s)
    (hs : c.step b view sequence choice = some (.inl c')) :
    c'.Knows b Reached Seen view.values sequence := by
  unfold step at hs
  split at hs
  · split_ifs at hs
    · cases hs
    · obtain rfl := Sum.inl.inj (Option.some.inj hs)
      exact knows_enter _
  · split_ifs at hs
    · obtain rfl := Sum.inl.inj (Option.some.inj hs)
      trivial
    · obtain rfl := Sum.inl.inj (Option.some.inj hs)
      exact knows_dependent _
  · split_ifs at hs
    · cases hs
    · obtain rfl := Sum.inl.inj (Option.some.inj hs)
      trivial
  · obtain rfl := Sum.inl.inj (Option.some.inj hs)
    trivial
  · split_ifs at hs
    cases hs
  · have hnil : b.dependentSequences = [] := hc
    refine found_knows ?_ (Option.some.inj hs)
    exact fun _ => ⟨fun _ => hr, by simp [hnil]⟩
  · obtain ⟨hne, hread⟩ := hc
    refine found_knows ?_ (Option.some.inj hs)
    refine fun _ => ⟨fun hnil => absurd hnil hne, ?_⟩
    intro i hi
    exact (hread i hi).resolve_left (by simp)
  · rename_i i rest m
    obtain rfl := Sum.inl.inj (Option.some.inj hs)
    refine ⟨hc.1, ?_⟩
    intro j hj
    rcases hc.2 j hj with hrest | hle
    · rcases List.mem_cons.mp hrest with rfl | hrest
      · exact Or.inr (min_le_right _ _)
      · exact Or.inl hrest
    · exact Or.inr ((min_le_left _ _).trans hle)
  · split_ifs at hs
    · cases hs
    · obtain rfl := Sum.inl.inj (Option.some.inj hs)
      exact knows_dependent _
  · obtain rfl := Sum.inl.inj (Option.some.inj hs)
    exact knows_enter _
  · rename_i a s
    obtain ⟨ha, hle, hend, hbelow, hseen⟩ := hc
    split at hs
    · cases hs
    · rename_i isAvailable havailable
      split_ifs at hs with hmore hset
      · obtain rfl := Sum.inl.inj (Option.some.inj hs)
        refine ⟨ha, by omega, by omega, hbelow, ?_⟩
        intro t ht ht'
        by_cases heq : t = s
        · exact heq ▸ hflag isAvailable s havailable hle hseen hset
        · exact hseen t ht (by omega)
      · cases hs
      · cases hs
  · cases hs

/-- A step that ends the call with an answer. -/
lemma step_answers (hc : c.Knows b Reached Seen view.values sequence)
    (hr : Reached view.cursor) (hdown : ∀ a a', Reached a → a' ≤ a → Reached a')
    (hs : c.step b view sequence choice = some (.inr (.ok h))) :
    Answers b Reached Seen view sequence h := by
  unfold step at hs
  split at hs
  · split_ifs at hs <;> cases hs
  · split_ifs at hs <;> cases hs
  · split_ifs at hs <;> cases hs
  · cases hs
  · split_ifs at hs
    cases hs
  · have hnil : b.dependentSequences = [] := hc
    exact found_answers ⟨fun _ => hr, by simp [hnil]⟩ (Option.some.inj hs)
  · obtain ⟨hne, hread⟩ := hc
    refine found_answers ⟨fun hnil => absurd hnil hne, ?_⟩ (Option.some.inj hs)
    intro i hi
    exact (hread i hi).resolve_left (by simp)
  · cases hs
  · split_ifs at hs <;> cases hs
  · cases hs
  · obtain ⟨ha, hle, hend, hbelow, hseen⟩ := hc
    split at hs
    · cases hs
    · rename_i isAvailable havailable
      split_ifs at hs with hmore hset
      · cases hs
      · obtain rfl := Except.ok.inj (Sum.inr.inj (Option.some.inj hs))
        refine ⟨by omega, by simp [havailable], fun _ => ?_,
          fun _ t ht ht' => hseen t ht (by omega)⟩
        exact ⟨fun hnil => hdown _ _ (hbelow.1 hnil) (by omega),
          fun i hi => le_trans (by omega) (hbelow.2 i hi)⟩
      · obtain rfl := Except.ok.inj (Sum.inr.inj (Option.some.inj hs))
        exact ⟨by omega, by simp [havailable], fun _ => hbelow,
          fun _ t ht ht' => hseen t ht (by omega)⟩
  · cases hs

/-- A step that ends the call with an exception: a timeout, or an alert that was found. -/
lemma step_error {e : Exception} (hs : c.step b view sequence choice = some (.inr (.error e))) :
    e = .TimeoutException ∨ e = .AlertException ∧ view.alerted = true := by
  have hfound : ∀ strategy a, found view sequence strategy a ≠ .inr (.error e) := by
    intro strategy a
    unfold found
    split_ifs
    · simp
    · split <;> simp
  unfold step at hs
  split at hs
  · split_ifs at hs with halerted
    · simp only [Option.some.injEq, Sum.inr.injEq, Except.error.injEq] at hs
      exact Or.inr ⟨hs.symm, halerted⟩
    · cases hs
  · split_ifs at hs <;> cases hs
  · split_ifs at hs with halerted
    · simp only [Option.some.injEq, Sum.inr.injEq, Except.error.injEq] at hs
      exact Or.inr ⟨hs.symm, halerted⟩
    · cases hs
  · cases hs
  · split_ifs at hs
    simp only [Option.some.injEq, Sum.inr.injEq, Except.error.injEq] at hs
    exact Or.inl hs.symm
  · exact absurd (Option.some.inj hs) (hfound _ _)
  · exact absurd (Option.some.inj hs) (hfound _ _)
  · cases hs
  · split_ifs at hs with halerted
    · simp only [Option.some.injEq, Sum.inr.injEq, Except.error.injEq] at hs
      exact Or.inr ⟨hs.symm, (Bool.and_eq_true_iff.mp halerted).2⟩
    · cases hs
  · cases hs
  · split at hs
    · cases hs
    · split_ifs at hs <;> cases hs
  · cases hs

end WaitCall

end Disruptor
