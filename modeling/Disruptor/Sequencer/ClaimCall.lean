import Disruptor.Sequencer.Basic
import Disruptor.Sequencer.SingleProducer.ClaimCall
import Disruptor.Sequencer.MultiProducer.ClaimCall

/-!
# The calls of a sequencer of either producer type

What the steps of either sequencer do to the gating list and to the cached pointer.
-/

namespace Disruptor

variable {ι : Type*}

namespace SingleProducerSequencer

/-- The list that a call of `minimumSequence` inside the call is about to cache, or reads. -/
def ClaimCall.list : ClaimCall ι → Option (Snapshot ι)
  | .next _ call | .capacity _ _ call | .remainingCapacity call => call.list
  | _ => none

end SingleProducerSequencer

namespace MultiProducerSequencer

/-- The list that a call of `minimumSequence` inside the call is about to cache, or reads. -/
def ClaimCall.list : ClaimCall ι → Option (Snapshot ι)
  | .nextWait _ _ call | .remaining _ call => call.list
  | _ => none

end MultiProducerSequencer

namespace Sequencer

/-- Where a call of either sequencer is. -/
inductive ClaimCall (ι : Type*) where
  | single (call : SingleProducerSequencer.ClaimCall ι)
  | multi (call : MultiProducerSequencer.ClaimCall ι)

def ClaimCall.list : ClaimCall ι → Option (Snapshot ι)
  | .single call => call.list
  | .multi call => call.list

/-- The fields that hold the gating list and the cached pointer. -/
def gating : Sequencer ι → Gating ι
  | .single s => s.gating
  | .multi m => m.gating

def setGating (q : Sequencer ι) (g : Gating ι) : Sequencer ι :=
  match q with
  | .single s => .single { s with gating := g }
  | .multi m => .multi { m with gating := g }

@[simp] lemma gating_setGating (q : Sequencer ι) (g : Gating ι) : (q.setGating g).gating = g := by
  cases q <;> rfl

end Sequencer

/-- The result of a step, as a result of the calls of a sequencer of either type. -/
def ClaimResult.map {K K' : Type*} (f : K → K') : ClaimResult K → ClaimResult K'
  | .running call => .running (f call)
  | .claimed lo hi => .claimed lo hi
  | .ended => .ended

/-- The list that a call uses after a step. -/
def ClaimResult.list {K : Type*} (list : K → Option (Snapshot ι)) :
    ClaimResult K → Option (Snapshot ι)
  | .running call => list call
  | _ => none

namespace Sequencer

def enter (q : Sequencer ι) (op : ClaimOperation) : ClaimResult (ClaimCall ι) × Sequencer ι :=
  match q with
  | .single s => ((s.enter op).1.map .single, .single (s.enter op).2)
  | .multi m => ((m.enter op).map .multi, .multi m)

/-- One atomic step of a call; `none` when the call is one of the other sequencer type. -/
def callStep (q : Sequencer ι) (values : ι → Int) (spurious : Bool) :
    ClaimCall ι → Option (ClaimResult (ClaimCall ι) × Sequencer ι)
  | .single call =>
    match q with
    | .single s =>
      some ((s.callStep values call).1.map .single, .single (s.callStep values call).2)
    | .multi _ => none
  | .multi call =>
    match q with
    | .single _ => none
    | .multi m =>
      some ((m.callStep values spurious call).1.map .multi,
        .multi (m.callStep values spurious call).2)

end Sequencer

/-! ### Lists in use -/

/-- The list that a call of `minimumSequence` uses after a step. -/
def MinimumCall.listAfter : MinimumCall ι ⊕ Int → Option (Snapshot ι)
  | .inl call => call.list
  | .inr _ => none

/-- What a step may do to the lists: the current one stays, and every list that is cached or in
use afterwards was so before, or is the current one. -/
def ListsKept (g g' : Gating ι) (before after : Option (Snapshot ι)) : Prop :=
  g'.gatingSequences = g.gatingSequences ∧
    ∀ snap, (g'.gatingSequencesCache = some snap ∨ after = some snap) →
      g.gatingSequencesCache = some snap ∨ before = some snap ∨ snap = g.gatingSequences

section

variable {g g' : Gating ι} {values : ι → Int} {before : Option (Snapshot ι)}

lemma listsKept_none : ListsKept g g before none :=
  ⟨rfl, fun _ h => Or.inl (h.resolve_right (by simp))⟩

lemma ListsKept.none {after : Option (Snapshot ι)} (h : ListsKept g g' before after) :
    ListsKept g g' before none :=
  ⟨h.1, fun snap hs => h.2 snap (Or.inl (hs.resolve_right (by simp)))⟩

lemma listsKept_minimumStep {v : ι → Int} {d : Int} {c : MinimumCall ι} {r : MinimumCall ι ⊕ Int}
    (hs : c.step g v d = (r, g')) :
    ListsKept g g' c.list (MinimumCall.listAfter r) := by
  obtain ⟨hcurrent, hlists⟩ := MinimumCall.step_lists hs
  refine ⟨hcurrent, ?_⟩
  rintro snap (hcache | hlist)
  · exact hlists snap (Or.inl hcache)
  · cases r with
    | inl c' => exact hlists snap (Or.inr ⟨c', rfl, hlist⟩)
    | inr m => cases hlist

end

namespace SingleProducerSequencer

variable {s s' : SingleProducerSequencer ι} {values : ι → Int} {r : ClaimResult (ClaimCall ι)}

lemma minimumStep_listsKept {call : MinimumCall ι} {m : MinimumCall ι ⊕ Int}
    (hs : s.minimumStep values call = (m, s')) :
    ListsKept s.gating s'.gating call.list (MinimumCall.listAfter m) := by
  obtain ⟨rfl, rfl⟩ := Prod.mk.inj hs
  exact listsKept_minimumStep (c := call) (v := values) (d := s.nextValue) rfl

lemma enter_listsKept (op : ClaimOperation) :
    ListsKept s.gating (s.enter op).2.gating none ((s.enter op).1.list ClaimCall.list) := by
  cases op <;> simp only [enter, claim]
  case remainingCapacity => exact listsKept_none
  all_goals split_ifs <;> exact listsKept_none

lemma callStep_listsKept {call : ClaimCall ι} (hs : s.callStep values call = (r, s')) :
    ListsKept s.gating s'.gating call.list (r.list ClaimCall.list) := by
  cases call with
  | nextFence n | capacityFence n =>
    obtain ⟨rfl, rfl⟩ := Prod.mk.inj hs
    exact listsKept_none
  | next n call =>
    simp only [callStep, claim] at hs
    split at hs
    · rename_i call' s₁ hstep
      obtain ⟨rfl, rfl⟩ := Prod.mk.inj hs
      exact minimumStep_listsKept hstep
    · rename_i m s₁ hstep
      have hkept := (minimumStep_listsKept hstep).none
      split_ifs at hs <;> obtain ⟨rfl, rfl⟩ := Prod.mk.inj hs <;> exact hkept
  | capacity n doStore call =>
    simp only [callStep, claim] at hs
    split at hs
    · rename_i call' s₁ hstep
      obtain ⟨rfl, rfl⟩ := Prod.mk.inj hs
      exact minimumStep_listsKept hstep
    · rename_i m s₁ hstep
      have hkept := (minimumStep_listsKept hstep).none
      split_ifs at hs <;> obtain ⟨rfl, rfl⟩ := Prod.mk.inj hs <;> exact hkept
  | remainingCapacity call =>
    simp only [callStep] at hs
    split at hs
    · rename_i call' s₁ hstep
      obtain ⟨rfl, rfl⟩ := Prod.mk.inj hs
      exact minimumStep_listsKept hstep
    · rename_i m s₁ hstep
      obtain ⟨rfl, rfl⟩ := Prod.mk.inj hs
      exact (minimumStep_listsKept hstep).none

end SingleProducerSequencer

namespace MultiProducerSequencer

variable {m m' : MultiProducerSequencer ι} {values : ι → Int} {r : ClaimResult (ClaimCall ι)}

lemma minimumStep_listsKept {current : Int} {call : MinimumCall ι} {c : MinimumCall ι ⊕ Int}
    (hs : m.minimumStep values current call = (c, m')) :
    ListsKept m.gating m'.gating call.list (MinimumCall.listAfter c) := by
  obtain ⟨rfl, rfl⟩ := Prod.mk.inj hs
  exact listsKept_minimumStep (c := call) (v := values) (d := current) rfl

lemma enter_list (op : ClaimOperation) : (m.enter op).list ClaimCall.list = none := by
  cases op with
  | next n =>
    simp only [enter]
    split_ifs <;> rfl
  | tryNext n =>
    simp only [enter]
    split_ifs <;> rfl
  | hasAvailableCapacity n => rfl
  | remainingCapacity => rfl

lemma capacityStep_gating {n cursorValue : Int} {call : CapacityCall ι}
    {c : CapacityCall ι ⊕ Bool} (hs : m.capacityStep values n cursorValue call = (c, m')) :
    m'.gating = m.gating := by
  cases call with
  | readCache snap =>
    simp only [capacityStep] at hs
    split_ifs at hs <;> obtain ⟨-, rfl⟩ := Prod.mk.inj hs <;> rfl
  | scan rest minSequence => cases rest <;> obtain ⟨-, rfl⟩ := Prod.mk.inj hs <;> rfl
  | storeCache minSequence =>
    obtain ⟨-, rfl⟩ := Prod.mk.inj hs
    rfl

lemma callStep_listsKept {spurious : Bool} {call : ClaimCall ι}
    (hs : m.callStep values spurious call = (r, m')) :
    ListsKept m.gating m'.gating call.list (r.list ClaimCall.list) := by
  cases call with
  | nextWait n current call =>
    simp only [callStep] at hs
    split at hs
    · rename_i call' m₁ hstep
      obtain ⟨rfl, rfl⟩ := Prod.mk.inj hs
      exact minimumStep_listsKept hstep
    · rename_i g m₁ hstep
      have hkept := (minimumStep_listsKept hstep).none
      split_ifs at hs <;> obtain ⟨rfl, rfl⟩ := Prod.mk.inj hs <;> exact hkept
  | remaining current call =>
    simp only [callStep] at hs
    split at hs
    · rename_i call' m₁ hstep
      obtain ⟨rfl, rfl⟩ := Prod.mk.inj hs
      exact minimumStep_listsKept hstep
    · rename_i v m₁ hstep
      obtain ⟨rfl, rfl⟩ := Prod.mk.inj hs
      exact (minimumStep_listsKept hstep).none
  | tryCapacity n current call | capacity n current call =>
    simp only [callStep] at hs
    split at hs <;>
    · rename_i hstep
      obtain ⟨rfl, rfl⟩ := Prod.mk.inj hs
      rw [capacityStep_gating hstep]
      exact listsKept_none
  | nextReadCache n current | tryCompareAndSet n current =>
    simp only [callStep] at hs
    split_ifs at hs <;> obtain ⟨rfl, rfl⟩ := Prod.mk.inj hs <;> exact listsKept_none
  | _ =>
    obtain ⟨rfl, rfl⟩ := Prod.mk.inj hs
    exact listsKept_none

end MultiProducerSequencer

namespace Sequencer

variable {q q' : Sequencer ι} {values : ι → Int} {r : ClaimResult (ClaimCall ι)}

lemma enter_listsKept {op : ClaimOperation} (hs : q.enter op = (r, q')) :
    ListsKept q.gating q'.gating none (r.list ClaimCall.list) := by
  cases q with
  | single s =>
    obtain ⟨rfl, rfl⟩ := Prod.mk.inj hs
    have hkept := s.enter_listsKept op
    cases hr : (s.enter op).1 <;> rw [hr] at hkept <;> exact hkept
  | multi m =>
    obtain ⟨rfl, rfl⟩ := Prod.mk.inj hs
    have hnone := m.enter_list op
    cases hr : m.enter op with
    | running call =>
      rw [hr] at hnone
      show ListsKept m.gating m.gating none call.list
      rw [show call.list = none from hnone]
      exact listsKept_none
    | claimed lo hi => exact listsKept_none
    | ended => exact listsKept_none

lemma callStep_listsKept {spurious : Bool} {call : ClaimCall ι}
    (hs : q.callStep values spurious call = some (r, q')) :
    ListsKept q.gating q'.gating call.list (r.list ClaimCall.list) := by
  cases call with
  | single call =>
    cases q with
    | single s =>
      obtain ⟨rfl, rfl⟩ := Prod.mk.inj (Option.some.inj hs)
      cases hstep : s.callStep values call with
      | mk r₁ s₁ =>
        have hkept := SingleProducerSequencer.callStep_listsKept hstep
        cases r₁ <;> exact hkept
    | multi m => cases hs
  | multi call =>
    cases q with
    | single s => cases hs
    | multi m =>
      obtain ⟨rfl, rfl⟩ := Prod.mk.inj (Option.some.inj hs)
      cases hstep : m.callStep values spurious call with
      | mk r₁ m₁ =>
        have hkept := MultiProducerSequencer.callStep_listsKept hstep
        cases r₁ <;> exact hkept

end Sequencer

end Disruptor
