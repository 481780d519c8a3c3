import Disruptor.Barrier.Consumer
import Disruptor.Core.ThreadPool
import Disruptor.Sequencer.MultiProducer.ClaimCall

/-!
# A ring with any number of producers

Every producer claims a range, writes its slots and publishes it; each consumer waits at its
barrier, reads, and moves its own sequence, which gates the ring. Further gating sequences are
moved by other threads. Each load, store, fetch-add and compare-exchange is a step, and the
threads interleave in any way.
-/

namespace Disruptor.MultiProducerRing

open Disruptor.Core MultiProducerSequencer

variable {P C X V : Type}

/-- A range that was handed out. -/
structure Claim (P : Type) where
  producer : P
  lo : Int
  hi : Int

def Claim.Covers (g : Claim P) (s : Int) : Prop := g.lo ≤ s ∧ s ≤ g.hi

/-- What the threads share. A gating sequence is the own sequence of a consumer or another one.
The last four fields are history: who moved the cursor over a sequence, which ranges were handed
out, which sequences had their flag stored, and what was last written for a sequence by whom. -/
structure Ring (P C X V : Type) where
  sequencer : MultiProducerSequencer (C ⊕ X)
  values : C ⊕ X → Int
  entries : Int → V
  owner : Int → Option P := fun _ => none
  granted : List (Claim P) := []
  published : Int → Bool := fun _ => false
  log : Int → Option (P × V) := fun _ => none

namespace Ring

/-- `get(sequence)`. -/
def get (r : Ring P C X V) (sequence : Int) : V :=
  r.entries (elementAt r.sequencer.bufferSize sequence)

/-- A write of `p` through `get(sequence)`. -/
def write (r : Ring P C X V) (p : P) (sequence : Int) (v : V) : Ring P C X V :=
  { r with
    entries := Function.update r.entries (elementAt r.sequencer.bufferSize sequence) v
    log := Function.update r.log sequence (some (p, v)) }

/-- The store of one flag by `publish(lo, hi)`. -/
def setAvailable (r : Ring P C X V) (sequence : Int) : Ring P C X V :=
  { r with
    sequencer := r.sequencer.setAvailable sequence
    published := Function.update r.published sequence true }

/-- What a barrier reads. Nobody alerts it. -/
def view (r : Ring P C X V) : WaitView (C ⊕ X) :=
  { cursor := r.sequencer.cursor, values := r.values, available := some r.sequencer.isAvailable }

/-- The values that were last written. -/
def recorded (r : Ring P C X V) : Int → Option V := Option.map Prod.snd ∘ r.log

/-- A range that covers the sequence was handed out. -/
def IsGranted (r : Ring P C X V) (s : Int) : Prop := ∃ g ∈ r.granted, g.Covers s

/-- Every sequence from `lo` to `hi` has been written. -/
def Written (r : Ring P C X V) (lo hi : Int) : Prop :=
  ∀ i ∈ List.range (hi + 1 - lo).toNat, (r.log (lo + i)).isSome = true

instance (r : Ring P C X V) (lo hi : Int) : Decidable (r.Written lo hi) :=
  inferInstanceAs (Decidable (∀ i ∈ List.range _, _))

/-- The ring after a step of `p` that leaves the sequencer at `s'`. -/
def after (r : Ring P C X V) (p : P) (s' : MultiProducerSequencer (C ⊕ X))
    (result : ClaimResult (ClaimCall (C ⊕ X))) : Ring P C X V :=
  { r with
    sequencer := s'
    owner := fun s => if r.sequencer.cursor < s ∧ s ≤ s'.cursor then some p else r.owner s
    granted :=
      match result with
      | .claimed lo hi => ⟨p, lo, hi⟩ :: r.granted
      | _ => r.granted }

end Ring

/-- Where a producer is. -/
inductive Producer (ι : Type) where
  | idle
  | calling (call : ClaimCall ι)
  /-- It has been handed `lo .. hi` and is writing. -/
  | holding (lo hi : Int)
  /-- In the loop of `publish(lo, hi)`, before the flag of `l`, if that is at or below `hi`. -/
  | publishing (l hi : Int)

inductive ProducerAction (V : Type) where
  | call (op : ClaimOperation)
  /-- The next step of a call; a weak compare-exchange may fail spuriously. -/
  | proceed (spurious : Bool)
  | write (sequence : Int) (v : V)
  | publish

/-- The producer after a step of a call. -/
def Producer.after {ι : Type} : ClaimResult (ClaimCall ι) → Producer ι
  | .running call => .calling call
  | .claimed lo hi => .holding lo hi
  | .ended => .idle

/-- One step of the producer `p`. It publishes when every slot of its range is written. -/
def producerStep (p : P) (r : Ring P C X V) (l : Producer (C ⊕ X)) (a : ProducerAction V) :
    Option (Ring P C X V × Producer (C ⊕ X)) :=
  match l, a with
  | .idle, .call op => some (r, .after (r.sequencer.enter op))
  | .calling call, .proceed spurious =>
    let result := r.sequencer.callStep r.values spurious call
    some (r.after p result.2 result.1, .after result.1)
  | .holding lo hi, .write sequence v =>
    if lo ≤ sequence ∧ sequence ≤ hi then some (r.write p sequence v, .holding lo hi) else none
  | .holding lo hi, .publish => if r.Written lo hi then some (r, .publishing lo hi) else none
  | .publishing l hi, .publish =>
    if l ≤ hi then some (r.setAvailable l, .publishing (l + 1) hi) else some (r, .idle)
  | _, _ => none

section

variable [DecidableEq C] [DecidableEq X]

/-- One step of a consumer. -/
def consumerStep (barriers : C → Barrier (C ⊕ X)) (c : C) (r : Ring P C X V)
    (l : Consumer (C ⊕ X) V) (choice : WaitChoice) :
    Option (Ring P C X V × Consumer (C ⊕ X) V) :=
  (l.step (barriers c) r.view r.get (r.values (.inl c)) choice).map fun
    | (l', none) => (r, l')
    | (l', some h) => ({ r with values := Function.update r.values (.inl c) h }, l')

/-- Another thread moves its sequence forward. -/
def advanceStep (x : X) (r : Ring P C X V) (v : Int) : Option (Ring P C X V × Unit) :=
  if r.values (.inr x) ≤ v then
    some ({ r with values := Function.update r.values (.inr x) v }, ())
  else none

/-- The threads of a ring. -/
inductive Thread (P C X : Type) where
  | producer (p : P)
  | consumer (c : C)
  | other (x : X)
  deriving DecidableEq

/-- The local state of a thread. -/
abbrev Local (P C X V : Type) : Thread P C X → Type
  | .producer _ => Producer (C ⊕ X)
  | .consumer _ => Consumer (C ⊕ X) V
  | .other _ => Unit

abbrev Action (P C X V : Type) : Thread P C X → Type
  | .producer _ => ProducerAction V
  | .consumer _ => WaitChoice
  | .other _ => Int

def pool (barriers : C → Barrier (C ⊕ X)) :
    ThreadPool (Thread P C X) (Ring P C X V) (Local P C X V) (Action P C X V) where
  step
    | .producer p => producerStep p
    | .consumer c => consumerStep barriers c
    | .other x => fun r _ v => advanceStep x r v

/-- A new ring to which the gating sequences have been added. -/
def initialRing (b : BufferSize) (entries : Int → V) (values : C ⊕ X → Int)
    (sequences : List (Option (C ⊕ X))) : Ring P C X V :=
  let s : MultiProducerSequencer (C ⊕ X) := { bufferSize := b }
  let r := s.addGatingSequences values sequences
  { sequencer := r.2, values := r.1, entries := entries }

def initialLocal : ∀ t, Local P C X V t
  | .producer _ => .idle
  | .consumer _ => {}
  | .other _ => ()

/-- No thread has done anything. -/
def initial (b : BufferSize) (entries : Int → V) (values : C ⊕ X → Int)
    (sequences : List (Option (C ⊕ X))) :
    ThreadPool.Config (Ring P C X V) (Local P C X V) :=
  ⟨initialRing b entries values sequences, initialLocal⟩

end

/-! ### The kinds of step -/

variable {p : P} {r r' : Ring P C X V} {l l' : Producer (C ⊕ X)} {a : ProducerAction V}

/-- The kinds of step that a producer takes. -/
lemma producerStep_cases (h : producerStep p r l a = some (r', l')) :
    (∃ op, l = .idle ∧ r' = r ∧ l' = .after (r.sequencer.enter op)) ∨
    (∃ call spurious result s', l = .calling call ∧
      r.sequencer.callStep r.values spurious call = (result, s') ∧ r' = r.after p s' result ∧
      l' = .after result) ∨
    (∃ lo hi s v, l = .holding lo hi ∧ lo ≤ s ∧ s ≤ hi ∧ r' = r.write p s v ∧ l' = l) ∨
    (∃ lo hi, l = .holding lo hi ∧ r.Written lo hi ∧ r' = r ∧ l' = .publishing lo hi) ∨
    (∃ n hi, l = .publishing n hi ∧ n ≤ hi ∧ r' = r.setAvailable n ∧
      l' = .publishing (n + 1) hi) ∨
    (∃ n hi, l = .publishing n hi ∧ hi < n ∧ r' = r ∧ l' = .idle) := by
  unfold producerStep at h
  split at h
  · rename_i op
    obtain ⟨rfl, rfl⟩ := Prod.mk.inj (Option.some.inj h)
    exact Or.inl ⟨op, rfl, rfl, rfl⟩
  · rename_i call spurious
    obtain ⟨rfl, rfl⟩ := Prod.mk.inj (Option.some.inj h)
    exact Or.inr (Or.inl ⟨call, spurious, _, _, rfl, rfl, rfl, rfl⟩)
  · rename_i lo hi s v
    split_ifs at h with hs
    obtain ⟨rfl, rfl⟩ := Prod.mk.inj (Option.some.inj h)
    exact Or.inr (Or.inr (Or.inl ⟨lo, hi, s, v, rfl, hs.1, hs.2, rfl, rfl⟩))
  · rename_i lo hi
    split_ifs at h with hwritten
    obtain ⟨rfl, rfl⟩ := Prod.mk.inj (Option.some.inj h)
    exact Or.inr (Or.inr (Or.inr (Or.inl ⟨lo, hi, rfl, hwritten, rfl, rfl⟩)))
  · rename_i n hi
    split_ifs at h with hle
    · obtain ⟨rfl, rfl⟩ := Prod.mk.inj (Option.some.inj h)
      exact Or.inr (Or.inr (Or.inr (Or.inr (Or.inl ⟨n, hi, rfl, hle, rfl, rfl⟩))))
    · obtain ⟨rfl, rfl⟩ := Prod.mk.inj (Option.some.inj h)
      exact Or.inr (Or.inr (Or.inr (Or.inr (Or.inr ⟨n, hi, rfl, by omega, rfl, rfl⟩))))
  · cases h

lemma Ring.Written.exists {lo hi s : Int} (h : r.Written lo hi) (hlo : lo ≤ s) (hhi : s ≤ hi) :
    ∃ w, r.log s = some w := by
  have hs := h (s - lo).toNat (List.mem_range.mpr (by omega))
  have heq : lo + ((s - lo).toNat : Int) = s := by omega
  rw [heq] at hs
  exact Option.isSome_iff_exists.mp hs

/-- Recording a write. -/
lemma Ring.recorded_write (s : Int) (v : V) :
    (r.write p s v).recorded = Function.update r.recorded s (some v) := by
  funext t
  by_cases ht : t = s
  · subst ht
    simp [Ring.recorded, Ring.write]
  · simp [Ring.recorded, Ring.write, Function.update_of_ne ht]

section

variable [DecidableEq C] [DecidableEq X] {barriers : C → Barrier (C ⊕ X)} {c : C}
  {l l' : Consumer (C ⊕ X) V} {choice : WaitChoice}

/-- The two kinds of step that a consumer takes. -/
lemma consumerStep_cases (hs : consumerStep barriers c r l choice = some (r', l')) :
    (l.step (barriers c) r.view r.get (r.values (.inl c)) choice = some (l', none) ∧ r' = r) ∨
      ∃ h, l.step (barriers c) r.view r.get (r.values (.inl c)) choice = some (l', some h) ∧
        r' = { r with values := Function.update r.values (.inl c) h } := by
  simp only [consumerStep, Option.map_eq_some_iff] at hs
  obtain ⟨⟨l₁, set⟩, hstep, heq⟩ := hs
  cases set with
  | none =>
    obtain ⟨rfl, rfl⟩ := Prod.mk.inj heq
    exact Or.inl ⟨hstep, rfl⟩
  | some h =>
    obtain ⟨rfl, rfl⟩ := Prod.mk.inj heq
    exact Or.inr ⟨h, hstep, rfl⟩

lemma le_update_values {i : C ⊕ X} {h : Int} (hle : r.values i ≤ h) (j : C ⊕ X) :
    r.values j ≤ Function.update r.values i h j := by
  by_cases hj : j = i
  · subst hj
    simpa using hle
  · simp [Function.update_of_ne hj]

end

end Disruptor.MultiProducerRing
