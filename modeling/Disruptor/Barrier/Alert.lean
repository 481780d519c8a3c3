import Disruptor.Barrier.WaitCall

/-!
# `waitFor` and the alert

What a call of `waitFor` makes of an alert: it throws an `AlertException` if it finds one, and from
wherever it is it comes to an end, whatever the sequences show.
-/

namespace Disruptor.WaitCall

variable {ι : Type*} {b : Barrier ι} {view : WaitView ι} {sequence : Int} {call : WaitCall ι}
  {choice : WaitChoice} {strategy : WaitStrategy}

/-- A call that reads flags reads those of a multi-producer sequencer. -/
def Suits (view : WaitView ι) : WaitCall ι → Prop
  | .readFlag _ _ => view.available.isSome = true
  | _ => True

/-- A call of `waitFor` can always go on. -/
lemma proceeds (h : call.Suits view) (sequence : Int) :
    ∃ r, call.step b view sequence .proceed = some r := by
  apply Option.isSome_iff_exists.mp
  cases call with
  | scan strategy rest m => cases rest <;> rfl
  | readDependent strategy => rfl
  | readFlag availableSequence s =>
    obtain ⟨isAvailable, havailable⟩ := Option.isSome_iff_exists.mp h
    simp only [step, havailable]
    split_ifs <;> rfl
  | checkAlert | readCursor strategy | cursorBehind strategy | dependentBehind strategy =>
    simp only [step]
    split_ifs <;> rfl

/-- With the alert set, the first step of a call is its last. -/
lemma checkAlert_step {alerted : Bool} {choice : WaitChoice} {r : WaitCall ι ⊕ Except Exception Int}
    (halerted : alerted = true)
    (hs : WaitCall.checkAlert.step b { view with alerted := alerted } sequence choice = some r) :
    r = .inr (.error .AlertException) := by
  cases choice with
  | proceed =>
    simp only [step, halerted, if_true] at hs
    exact (Option.some.inj hs).symm
  | _ => cases hs

/-- A call of `waitFor` does not end in an `AlertException` unless it finds the alert. -/
lemma alerted_of_throws {alerted : Bool}
    (hs : call.step b { view with alerted := alerted } sequence choice =
      some (.inr (.error .AlertException))) : alerted = true := by
  rcases step_error hs with htimeout | ⟨-, halerted⟩
  · cases htimeout
  · exact halerted

/-- Going on alone, the call ends. -/
inductive Ends (b : Barrier ι) (view : WaitView ι) (sequence : Int) : WaitCall ι → Prop where
  | done {c : WaitCall ι} {answer : Except Exception Int} (choice : WaitChoice)
    (hs : c.step b view sequence choice = some (.inr answer)) : Ends b view sequence c
  | go {c c' : WaitCall ι} (choice : WaitChoice)
    (hs : c.step b view sequence choice = some (.inl c')) (he : Ends b view sequence c') :
    Ends b view sequence c

lemma ends_readFlag {isAvailable : Int → Bool} (h : view.available = some isAvailable) (a s : Int) :
    Ends b view sequence (.readFlag a s) := by
  induction hn : (a + 1 - s).toNat generalizing s with
  | zero =>
    have hlt : ¬ s ≤ a := by omega
    exact .done .proceed (by simp only [step, h, hlt, if_false]; rfl)
  | succ n ih =>
    have hle : s ≤ a := by omega
    cases hflag : isAvailable s with
    | true =>
      refine .go .proceed ?_ (ih (s + 1) (by omega))
      simp only [step, h, hle, hflag, if_true]
    | false =>
      exact .done .proceed (by
        simp only [step, h, hle, hflag, if_true, Bool.false_eq_true, if_false]
        rfl)

/-- A value that is read off the dependent sequence ends the call, or it is behind. -/
lemma ends_found (hbehind : Ends b view sequence (.dependentBehind strategy)) {c : WaitCall ι}
    {a : Int} (hs : c.step b view sequence .proceed = some (found view sequence strategy a)) :
    Ends b view sequence c := by
  unfold found at hs
  split_ifs at hs
  · exact .go .proceed hs hbehind
  · split at hs
    · exact .done .proceed hs
    · rename_i isAvailable havailable
      exact .go .proceed hs (ends_readFlag havailable _ _)

lemma ends_scan (hbehind : Ends b view sequence (.dependentBehind strategy)) (rest : List ι)
    (m : Int) : Ends b view sequence (.scan strategy rest m) := by
  induction rest generalizing m with
  | nil => exact ends_found hbehind rfl
  | cons i rest ih => exact .go .proceed rfl (ih _)

lemma ends_dependent (hbehind : Ends b view sequence (.dependentBehind strategy)) :
    Ends b view sequence (dependent b strategy) := by
  unfold dependent
  split_ifs
  · exact ends_found hbehind rfl
  · exact ends_scan hbehind _ _

lemma ends_cursorBehind (halerted : view.alerted = true) (strategy : WaitStrategy) :
    Ends b view sequence (.cursorBehind strategy) := by
  apply Ends.done .proceed
  simp only [step, halerted, if_true]
  rfl

lemma ends_readCursor (halerted : view.alerted = true)
    (hbehind : Ends b view sequence (.dependentBehind strategy)) :
    Ends b view sequence (.readCursor strategy) := by
  by_cases hlt : view.cursor < sequence
  · apply Ends.go .proceed ?_ (ends_cursorBehind halerted strategy)
    simp [step, hlt]
  · apply Ends.go .proceed ?_ (ends_dependent hbehind)
    simp [step, hlt]

lemma ends_enter (halerted : view.alerted = true)
    (hbehind : Ends b view sequence (.dependentBehind strategy)) :
    Ends b view sequence (enter b strategy) := by
  unfold enter
  split_ifs
  · exact ends_readCursor halerted hbehind
  · exact ends_dependent hbehind

/-- `PhasedBackoffWaitStrategy` has to turn to its fallback strategy before it finds the alert. -/
lemma ends_dependentBehind (halerted : view.alerted = true) (strategy : WaitStrategy) :
    Ends b view sequence (.dependentBehind strategy) := by
  induction strategy with
  | PhasedBackoff fallback ih =>
    exact .go .fallback rfl (ends_enter halerted ih)
  | _ =>
    apply Ends.done .proceed
    simp only [step, WaitStrategy.checksAlert, halerted, Bool.and_self, if_true]
    rfl

/-- For every wait strategy, and from wherever the call is: when the barrier is alerted, the call
can end, whatever the cursor and the dependent sequences show. -/
theorem ends_of_alerted (halerted : view.alerted = true) {c : WaitCall ι}
    (hc : c.Suits view) : Ends b view sequence c := by
  cases c with
  | checkAlert =>
    apply Ends.done .proceed
    simp only [step, halerted, if_true]
    rfl
  | readCursor strategy => exact ends_readCursor halerted (ends_dependentBehind halerted strategy)
  | cursorBehind strategy => exact ends_cursorBehind halerted strategy
  | readDependent strategy => exact ends_found (ends_dependentBehind halerted strategy) rfl
  | scan strategy rest m => exact ends_scan (ends_dependentBehind halerted strategy) rest m
  | dependentBehind strategy => exact ends_dependentBehind halerted strategy
  | readFlag a s =>
    obtain ⟨isAvailable, havailable⟩ := Option.isSome_iff_exists.mp hc
    exact ends_readFlag havailable a s

end Disruptor.WaitCall
