import Disruptor.Barrier.Consumer
import Disruptor.Core.BroadcastLog
import Disruptor.Core.ThreadPool
import Disruptor.Core.Window
import Disruptor.Sequencer.SingleProducer.ClaimCall

/-!
# The single-producer ring refines an unbounded log

One producer claims, writes and publishes; each consumer waits at its barrier, reads, and moves
its own sequence, which gates the ring. Every load and store is a step, and the threads interleave
in any way.
-/

namespace Disruptor.SingleProducerRing

open Disruptor.Core SingleProducerSequencer

variable {C V : Type} [DecidableEq C]

/-- What the threads share, with the history of what was written for each sequence. -/
structure Ring (C V : Type) where
  sequencer : SingleProducerSequencer C
  values : C → Int
  entries : Int → V
  log : Int → Option V := fun _ => none

namespace Ring

/-- `get(sequence)`. -/
def get (r : Ring C V) (sequence : Int) : V :=
  r.entries (elementAt r.sequencer.bufferSize sequence)

/-- A write through `get(sequence)`. -/
def write (r : Ring C V) (sequence : Int) (v : V) : Ring C V :=
  { r with
    entries := Function.update r.entries (elementAt r.sequencer.bufferSize sequence) v
    log := Function.update r.log sequence (some v) }

/-- What a barrier reads. Nobody alerts it, and there are no flags. -/
def view (r : Ring C V) : WaitView C :=
  { cursor := r.sequencer.cursor, values := r.values, available := none }

end Ring

/-- The producer: the call that it is in, and the range that it has claimed. -/
structure Producer (C : Type) where
  call : Option (ClaimCall C) := none
  claim : Option (Int × Int) := none

inductive ProducerAction (V : Type) where
  | call (op : ClaimOperation)
  | proceed
  | write (sequence : Int) (v : V)
  | publish

/-- The producer after a step of a call. -/
def Producer.after (p : Producer C) : ClaimResult (ClaimCall C) → Producer C
  | .running call => { p with call := some call }
  | .claimed lo hi => { call := none, claim := some (lo, hi) }
  | .ended => { p with call := none }

/-- Every sequence from `lo` to `hi` has been written. -/
def Ring.Written (r : Ring C V) (lo hi : Int) : Prop :=
  ∀ i ∈ List.range (hi + 1 - lo).toNat, (r.log (lo + i)).isSome = true

instance (r : Ring C V) (lo hi : Int) : Decidable (r.Written lo hi) :=
  inferInstanceAs (Decidable (∀ i ∈ List.range _, _))

/-- One step of the producer. It claims only when the last claim is published, and publishes
when every claimed slot is written. -/
def producerStep (r : Ring C V) (p : Producer C) (a : ProducerAction V) :
    Option (Ring C V × Producer C) :=
  match p.call, a with
  | none, .call op =>
    if op.claims = true ∧ p.claim.isSome = true then none
    else
      let result := r.sequencer.enter op
      some ({ r with sequencer := result.2 }, p.after result.1)
  | some call, .proceed =>
    let result := r.sequencer.callStep r.values call
    some ({ r with sequencer := result.2 }, p.after result.1)
  | none, .write sequence v =>
    match p.claim with
    | some (lo, hi) =>
      if lo ≤ sequence ∧ sequence ≤ hi then some (r.write sequence v, p) else none
    | none => none
  | none, .publish =>
    match p.claim with
    | some (lo, hi) =>
      if r.Written lo hi then
        some ({ r with sequencer := r.sequencer.publishRange lo hi }, { p with claim := none })
      else none
    | none => none
  | _, _ => none

/-- One step of a consumer. -/
def consumerStep (barriers : C → Barrier C) (c : C) (r : Ring C V) (l : Consumer C V)
    (choice : WaitChoice) : Option (Ring C V × Consumer C V) :=
  (l.step (barriers c) r.view r.get (r.values c) choice).map fun
    | (l', none) => (r, l')
    | (l', some h) => ({ r with values := Function.update r.values c h }, l')

/-- The local state of a thread: the producer is `none`. -/
abbrev Local (C V : Type) : Option C → Type
  | none => Producer C
  | some _ => Consumer C V

abbrev Action (C V : Type) : Option C → Type
  | none => ProducerAction V
  | some _ => WaitChoice

/-- The producer and the consumers. -/
def pool (barriers : C → Barrier C) :
    ThreadPool (Option C) (Ring C V) (Local C V) (Action C V) where
  step
    | none => producerStep
    | some c => consumerStep barriers c

/-- A new ring to which the sequences of the consumers have been added. -/
def initialRing (b : BufferSize) (entries : Int → V) (sequences : List (Option C)) : Ring C V :=
  let s : SingleProducerSequencer C := { bufferSize := b }
  let r := s.addGatingSequences (fun _ => INITIAL_VALUE) sequences
  { sequencer := r.2, values := r.1, entries := entries }

def initialLocal : ∀ t, Local C V t
  | none => {}
  | some _ => {}

/-- No thread has done anything. -/
def initial (b : BufferSize) (entries : Int → V) (sequences : List (Option C)) :
    ThreadPool.Config (Ring C V) (Local C V) :=
  ⟨initialRing b entries sequences, initialLocal⟩

/-! ### The proof outline -/

/-- What every shared state satisfies. -/
structure RingInvariant (sequences : List (Option C)) (r : Ring C V) : Prop where
  safe : r.sequencer.Safe r.values sequences
  cursor_le : r.sequencer.cursor ≤ r.sequencer.nextValue
  values_le : ∀ c, r.values c ≤ r.sequencer.cursor
  start : ∀ c, INITIAL_VALUE ≤ r.values c
  log_claimed : ∀ s, r.sequencer.nextValue < s → r.log s = none
  log_published : ∀ s, 0 ≤ s → s ≤ r.sequencer.cursor → ∃ v, r.log s = some v
  window : ∀ c, WindowHolds r.sequencer.getBufferSize (elementAt r.sequencer.bufferSize) r.entries
    r.log (r.values c)

/-- What the producer knows: between claims the cursor is at the claimed position, else the claim
is what the cursor is behind. -/
structure ProducerHolds (sequences : List (Option C)) (p : Producer C) (r : Ring C V) : Prop where
  unclaimed : p.claim = none → r.sequencer.cursor = r.sequencer.nextValue
  claimed : ∀ lo hi, p.claim = some (lo, hi) →
    lo = r.sequencer.cursor + 1 ∧ hi = r.sequencer.nextValue
  call : ∀ call, p.call = some call → call.Knows r.sequencer r.values sequences
  claiming : ∀ call, p.call = some call → call.claims = true → p.claim = none

/-- What a consumer knows. -/
def ConsumerHolds (barriers : C → Barrier C) (c : C) (l : Consumer C V) (r : Ring C V) : Prop :=
  l.Holds (barriers c) (· ≤ r.sequencer.cursor) (fun _ => True) (· ≤ r.sequencer.cursor) r.values
    r.log (r.values c)

variable {sequences : List (Option C)} {barriers : C → Barrier C} {c : C} {r r' : Ring C V}
  {p p' : Producer C} {a : ProducerAction V} {l l' : Consumer C V} {choice : WaitChoice}

omit [DecidableEq C] in
/-- The four kinds of step that the producer takes. -/
lemma producerStep_cases (h : producerStep r p a = some (r', p')) :
    (∃ op result s', a = .call op ∧ p.call = none ∧ (op.claims = true → p.claim = none) ∧
      r.sequencer.enter op = (result, s') ∧ r' = { r with sequencer := s' } ∧
      p' = p.after result) ∨
    (∃ call result s', a = .proceed ∧ p.call = some call ∧
      r.sequencer.callStep r.values call = (result, s') ∧ r' = { r with sequencer := s' } ∧
      p' = p.after result) ∨
    (∃ s v lo hi, a = .write s v ∧ p.claim = some (lo, hi) ∧ lo ≤ s ∧ s ≤ hi ∧
      r' = r.write s v ∧ p' = p) ∨
    (∃ lo hi, a = .publish ∧ p.call = none ∧ p.claim = some (lo, hi) ∧ r.Written lo hi ∧
      r' = { r with sequencer := r.sequencer.publishRange lo hi } ∧
      p' = { p with claim := none }) := by
  unfold producerStep at h
  split at h
  · rename_i op hcall
    split_ifs at h with hclaims
    obtain ⟨rfl, rfl⟩ := Prod.mk.inj (Option.some.inj h)
    refine Or.inl ⟨op, _, _, rfl, hcall, ?_, rfl, rfl, rfl⟩
    intro hop
    by_contra hne
    exact hclaims ⟨hop, Option.isSome_iff_ne_none.mpr hne⟩
  · rename_i call hcall
    obtain ⟨rfl, rfl⟩ := Prod.mk.inj (Option.some.inj h)
    exact Or.inr (Or.inl ⟨call, _, _, rfl, hcall, rfl, rfl, rfl⟩)
  · rename_i s v hcall
    split at h
    · rename_i lo hi hclaim
      split_ifs at h with hs
      obtain ⟨rfl, rfl⟩ := Prod.mk.inj (Option.some.inj h)
      exact Or.inr (Or.inr (Or.inl ⟨s, v, lo, hi, rfl, hclaim, hs.1, hs.2, rfl, rfl⟩))
    · cases h
  · rename_i hcall
    split at h
    · rename_i lo hi hclaim
      split_ifs at h with hwritten
      obtain ⟨rfl, rfl⟩ := Prod.mk.inj (Option.some.inj h)
      exact Or.inr (Or.inr (Or.inr ⟨lo, hi, rfl, hcall, hclaim, hwritten, rfl, rfl⟩))
    · cases h
  · cases h

omit [DecidableEq C] in
lemma Ring.Written.exists {lo hi s : Int} (h : r.Written lo hi) (hlo : lo ≤ s) (hhi : s ≤ hi) :
    ∃ v, r.log s = some v := by
  have hs := h (s - lo).toNat (List.mem_range.mpr (by omega))
  have heq : lo + ((s - lo).toNat : Int) = s := by omega
  rw [heq] at hs
  exact Option.isSome_iff_exists.mp hs

omit [DecidableEq C] in
/-- What the steps of the sequencer keep. -/
lemma RingInvariant.of_sequencer (h : RingInvariant sequences r) {s' : SingleProducerSequencer C}
    (hsafe : s'.Safe r.values sequences) (hsize : s'.bufferSize = r.sequencer.bufferSize)
    (hcursor : r.sequencer.cursor ≤ s'.cursor) (hle : s'.cursor ≤ s'.nextValue)
    (hnext : r.sequencer.nextValue ≤ s'.nextValue)
    (hpublished : ∀ s, r.sequencer.cursor < s → s ≤ s'.cursor → ∃ v, r.log s = some v) :
    RingInvariant sequences { r with sequencer := s' } where
  safe := hsafe
  cursor_le := hle
  values_le := fun c => (h.values_le c).trans hcursor
  start := h.start
  log_claimed := fun s hs => h.log_claimed s (hnext.trans_lt hs)
  log_published := by
    intro s hs hs'
    by_cases hold : s ≤ r.sequencer.cursor
    · exact h.log_published s hs hold
    · exact hpublished s (by omega) hs'
  window := by
    intro c
    simp only [getBufferSize, hsize]
    exact h.window c

omit [DecidableEq C] in
/-- A step of the producer keeps the invariant. -/
lemma producerStep_invariant (h : RingInvariant sequences r) (hp : ProducerHolds sequences p r)
    (hl : ∀ c, some c ∈ sequences) (hs : producerStep r p a = some (r', p')) :
    RingInvariant sequences r' := by
  rcases producerStep_cases hs with ⟨op, result, s', -, -, -, hstep, rfl, -⟩ |
    ⟨call, result, s', -, hcall, hstep, rfl, -⟩ | ⟨s, v, lo, hi, -, hclaim, hlo, hhi, rfl, -⟩ |
    ⟨lo, hi, -, -, hclaim, hwritten, rfl, -⟩
  · obtain ⟨hsafe, hsound, hcursor, hsize⟩ := h.safe.enter hstep
    refine h.of_sequencer hsafe hsize hcursor.ge ?_ hsound.nextValue_le ?_
    · rw [hcursor]
      exact h.cursor_le.trans hsound.nextValue_le
    · intro s hs hs'
      omega
  · obtain ⟨hsafe, hsound, hcursor, hsize⟩ := h.safe.callStep (hp.call call hcall) hstep
    -- between claims the fence stores what the cursor holds already
    have hcursor' : s'.cursor = r.sequencer.cursor := by
      rcases hcursor with hcursor | ⟨hcursor, hclaims⟩
      · exact hcursor
      · exact hcursor.trans (hp.unclaimed (hp.claiming call hcall hclaims)).symm
    refine h.of_sequencer hsafe hsize hcursor'.ge ?_ hsound.nextValue_le ?_
    · rw [hcursor']
      exact h.cursor_le.trans hsound.nextValue_le
    · intro s hs hs'
      omega
  · obtain ⟨rfl, rfl⟩ := hp.claimed lo hi hclaim
    refine ⟨h.safe, h.cursor_le, h.values_le, h.start, ?_, ?_, ?_⟩
    · intro t ht
      have hne : t ≠ s := by
        simp only [Ring.write] at ht
        omega
      simp only [Ring.write, Function.update_of_ne hne]
      exact h.log_claimed t ht
    · intro t ht ht'
      by_cases hts : t = s
      · exact ⟨v, by simp [Ring.write, hts]⟩
      · simp only [Ring.write, Function.update_of_ne hts]
        exact h.log_published t ht ht'
    · intro c
      have hroom := h.safe.room c (hl c)
      have hvalue := h.values_le c
      exact (h.window c).write (isSlotMap_elementAt _) (by omega) (by omega) v
  · obtain ⟨rfl, rfl⟩ := hp.claimed lo hi hclaim
    refine h.of_sequencer (h.safe.fence _) rfl h.cursor_le le_rfl le_rfl ?_
    intro s hs hs'
    exact hwritten.exists (by omega) hs'

omit [DecidableEq C] in
/-- A step of the producer leads to what it knows next. -/
lemma producerStep_holds (h : RingInvariant sequences r) (hp : ProducerHolds sequences p r)
    (hs : producerStep r p a = some (r', p')) : ProducerHolds sequences p' r' := by
  -- after a step of a call, from what the step leaves behind
  have hafter : ∀ {result : ClaimResult (ClaimCall C)} {s' : SingleProducerSequencer C},
      Sound r.sequencer s' r.values sequences result → s'.cursor = r.sequencer.cursor →
      (∀ call, result = .running call → call.claims = true → p.claim = none) →
      (∀ lo hi, result = .claimed lo hi → p.claim = none) →
      ProducerHolds sequences (p.after result) { r with sequencer := s' } := by
    intro result s' hsound hcursor hrunning hclaimed
    cases result with
    | running call =>
      obtain ⟨hnext, hknows⟩ := hsound
      refine ⟨?_, ?_, ?_, ?_⟩
      · intro hclaim
        simp only [hcursor, hnext]
        exact hp.unclaimed hclaim
      · intro lo hi hclaim
        simp only [hcursor, hnext]
        exact hp.claimed lo hi hclaim
      · rintro call' hcall'
        exact Option.some.inj hcall' ▸ hknows
      · rintro call' hcall' hclaims
        obtain rfl := Option.some.inj hcall'
        exact hrunning call rfl hclaims
    | claimed lo hi =>
      obtain ⟨hlo, hhi, -⟩ := hsound
      have hunclaimed := hp.unclaimed (hclaimed lo hi rfl)
      refine ⟨by simp [Producer.after], ?_, by simp [Producer.after], by simp [Producer.after]⟩
      rintro lo' hi' heq
      obtain ⟨rfl, rfl⟩ := Prod.mk.inj (Option.some.inj heq)
      simp only [hcursor]
      exact ⟨by omega, hhi⟩
    | ended =>
      have hnext : s'.nextValue = r.sequencer.nextValue := hsound
      refine ⟨?_, ?_, by simp [Producer.after], by simp [Producer.after]⟩
      · intro hclaim
        simp only [hcursor, hnext]
        exact hp.unclaimed hclaim
      · intro lo hi hclaim
        simp only [hcursor, hnext]
        exact hp.claimed lo hi hclaim
  rcases producerStep_cases hs with ⟨op, result, s', -, -, hop, hstep, rfl, rfl⟩ |
    ⟨call, result, s', -, hcall, hstep, rfl, rfl⟩ | ⟨s, v, lo, hi, -, hclaim, hlo, hhi, rfl, rfl⟩ |
    ⟨lo, hi, -, hcall, hclaim, hwritten, rfl, rfl⟩
  · obtain ⟨-, hsound, hcursor, -⟩ := h.safe.enter hstep
    obtain ⟨hrunning, hclaimed⟩ := enter_claims hstep
    exact hafter hsound hcursor (fun call hr hc => hop (hrunning call hr ▸ hc))
      fun lo hi hr => hop (hclaimed lo hi hr)
  · obtain ⟨-, hsound, hcursor, -⟩ := h.safe.callStep (hp.call call hcall) hstep
    obtain ⟨hrunning, hclaimed⟩ := callStep_claims hstep
    have hclaim := hp.claiming call hcall
    have hcursor' : s'.cursor = r.sequencer.cursor := by
      rcases hcursor with hcursor | ⟨hcursor, hclaims⟩
      · exact hcursor
      · exact hcursor.trans (hp.unclaimed (hclaim hclaims)).symm
    exact hafter hsound hcursor' (fun call' hr hc => hclaim (hrunning call' hr ▸ hc))
      fun lo hi hr => hclaim (hclaimed lo hi hr)
  · exact ⟨hp.unclaimed, hp.claimed, hp.call, hp.claiming⟩
  · obtain ⟨-, rfl⟩ := hp.claimed lo hi hclaim
    refine ⟨fun _ => rfl, by simp, ?_, ?_⟩
    · intro call hcall'
      simp [hcall] at hcall'
    · intro call hcall'
      simp [hcall] at hcall'

omit [DecidableEq C] in
/-- What a barrier without flags gives its consumer. -/
lemma RingInvariant.serves (h : RingInvariant sequences r) (hl : ∀ c, some c ∈ sequences)
    (barriers : C → Barrier C) (c : C) :
    Consumer.Serves (barriers c) (· ≤ r.sequencer.cursor) (fun _ => True)
      (· ≤ r.sequencer.cursor) r.view r.log r.get (r.values c) where
  reached := le_rfl
  reached_of_le := fun _ _ ha ha' => ha'.trans ha
  flag := by simp
  answer := by
    intro hi hanswer s hs hs'
    obtain ⟨hcursor, hvalues⟩ := hanswer.below (by omega)
    cases hdeps : (barriers c).dependentSequences with
    | nil => exact hs'.trans (hcursor hdeps)
    | cons d deps =>
      exact hs'.trans ((hvalues d (by simp [hdeps])).trans (h.values_le d))
  get := by
    intro s hs hs'
    have hstart := h.start c
    have hroom := h.safe.room c (hl c)
    have hcursor := h.cursor_le
    simp only [INITIAL_VALUE] at hstart
    obtain ⟨v, hv⟩ := h.log_published s (by omega) hs'
    rw [hv]
    exact congrArg some (h.window c s v hs (by omega) hv).symm

/-- The two kinds of step that a consumer takes. -/
lemma consumerStep_cases (hs : consumerStep barriers c r l choice = some (r', l')) :
    (l.step (barriers c) r.view r.get (r.values c) choice = some (l', none) ∧ r' = r) ∨
      ∃ h, l.step (barriers c) r.view r.get (r.values c) choice = some (l', some h) ∧
        r' = { r with values := Function.update r.values c h } := by
  simp only [consumerStep, Option.map_eq_some_iff] at hs
  obtain ⟨⟨l₁, set⟩, hstep, heq⟩ := hs
  cases set with
  | none =>
    obtain ⟨rfl, rfl⟩ := Prod.mk.inj heq
    exact Or.inl ⟨hstep, rfl⟩
  | some h =>
    obtain ⟨rfl, rfl⟩ := Prod.mk.inj heq
    exact Or.inr ⟨h, hstep, rfl⟩

lemma le_update_values {h : Int} (hle : r.values c ≤ h) (d : C) :
    r.values d ≤ Function.update r.values c h d := by
  by_cases hd : d = c
  · subst hd
    simpa using hle
  · simp [Function.update_of_ne hd]

/-- A step of a consumer keeps the invariant. -/
lemma consumerStep_invariant (h : RingInvariant sequences r) (hl : ∀ c, some c ∈ sequences)
    (hc : ConsumerHolds barriers c l r) (hs : consumerStep barriers c r l choice = some (r', l')) :
    RingInvariant sequences r' := by
  rcases consumerStep_cases hs with ⟨-, rfl⟩ | ⟨hi, hstep, rfl⟩
  · exact h
  · obtain ⟨hle, hreadable, -⟩ := Consumer.Holds.step_set hc hstep
    have hcursor : hi ≤ r.sequencer.cursor := by
      by_cases hlt : r.values c < hi
      · exact hreadable hi hlt le_rfl
      · have := h.values_le c
        omega
    refine ⟨h.safe.mono (le_update_values hle), h.cursor_le, ?_, ?_, h.log_claimed,
      h.log_published, ?_⟩
    · intro d
      by_cases hd : d = c
      · subst hd
        simpa using hcursor
      · simpa [Function.update_of_ne hd] using h.values_le d
    · exact fun d => (h.start d).trans (le_update_values hle d)
    · intro d
      by_cases hd : d = c
      · subst hd
        simp only [Function.update_self]
        have hroom := h.safe.room d (hl d)
        refine (h.window d).advance hle ?_
        intro s hs
        exact h.log_claimed s (by omega)
      · simpa only [Function.update_of_ne hd] using h.window d

/-- A step of a consumer leads to what it knows next. -/
lemma consumerStep_holds (h : RingInvariant sequences r) (hl : ∀ c, some c ∈ sequences)
    (hc : ConsumerHolds barriers c l r) (hs : consumerStep barriers c r l choice = some (r', l')) :
    ConsumerHolds barriers c l' r' := by
  rcases consumerStep_cases hs with ⟨hstep, rfl⟩ | ⟨hi, hstep, rfl⟩
  · have hknown : l.Holds (barriers c) (· ≤ r'.sequencer.cursor) (fun _ => True)
        (· ≤ r'.sequencer.cursor) r'.view.values r'.log (r'.values c) := hc
    exact hknown.step (h.serves hl barriers c) hstep
  · obtain ⟨-, -, hnext⟩ := Consumer.Holds.step_set hc hstep
    simpa [ConsumerHolds] using hnext _

/-- What a thread relies on when another one moves. -/
def Relies : Option C → Ring C V → Ring C V → Prop
  | none, r, r' =>
    r'.sequencer = r.sequencer ∧ r'.log = r.log ∧ ∀ c, r.values c ≤ r'.values c
  | some c, r, r' =>
    r'.values c = r.values c ∧ (∀ d, r.values d ≤ r'.values d) ∧
      r.sequencer.cursor ≤ r'.sequencer.cursor ∧
      ∀ s, s ≤ r.sequencer.cursor → r'.log s = r.log s

omit [DecidableEq C] in
/-- A step of the producer is one that the consumers rely on. -/
lemma producerStep_relies (h : RingInvariant sequences r) (hp : ProducerHolds sequences p r)
    (hs : producerStep r p a = some (r', p')) (c : C) : Relies (some c) r r' := by
  rcases producerStep_cases hs with ⟨op, result, s', -, -, -, hstep, rfl, -⟩ |
    ⟨call, result, s', -, hcall, hstep, rfl, -⟩ | ⟨s, v, lo, hi, -, hclaim, hlo, -, rfl, -⟩ |
    ⟨lo, hi, -, -, hclaim, -, rfl, -⟩
  · obtain ⟨-, -, hcursor, -⟩ := h.safe.enter hstep
    exact ⟨rfl, fun _ => le_rfl, hcursor.ge, fun _ _ => rfl⟩
  · obtain ⟨-, -, hcursor, -⟩ := h.safe.callStep (hp.call call hcall) hstep
    have hle := h.cursor_le
    exact ⟨rfl, fun _ => le_rfl, by rcases hcursor with hc | ⟨hc, -⟩ <;> simp only [hc] <;> omega,
      fun _ _ => rfl⟩
  · obtain ⟨rfl, -⟩ := hp.claimed lo hi hclaim
    refine ⟨rfl, fun _ => le_rfl, le_rfl, ?_⟩
    intro t ht
    have hne : t ≠ s := by omega
    simp only [Ring.write, Function.update_of_ne hne]
  · obtain ⟨-, rfl⟩ := hp.claimed lo hi hclaim
    exact ⟨rfl, fun _ => le_rfl, h.cursor_le, fun _ _ => rfl⟩

/-- A step of a consumer is one that all the other threads rely on. -/
lemma consumerStep_relies (hc : ConsumerHolds barriers c l r)
    (hs : consumerStep barriers c r l choice = some (r', l')) (t : Option C) (ht : t ≠ some c) :
    Relies t r r' := by
  rcases consumerStep_cases hs with ⟨-, rfl⟩ | ⟨hi, hstep, rfl⟩
  · cases t with
    | none => exact ⟨rfl, rfl, fun _ => le_rfl⟩
    | some d => exact ⟨rfl, fun _ => le_rfl, le_rfl, fun _ _ => rfl⟩
  · obtain ⟨hle, -⟩ := Consumer.Holds.step_set hc hstep
    cases t with
    | none => exact ⟨rfl, rfl, le_update_values hle⟩
    | some d =>
      have hd : d ≠ c := fun heq => ht (congrArg some heq)
      exact ⟨Function.update_of_ne hd _ _, le_update_values hle, le_rfl, fun _ _ => rfl⟩

/-- What each thread knows. -/
def Knows (sequences : List (Option C)) (barriers : C → Barrier C) :
    ∀ t, Local C V t → Ring C V → Prop
  | none => ProducerHolds sequences
  | some c => ConsumerHolds barriers c

/-- The proof outline of the ring. -/
def outline (barriers : C → Barrier C) (sequences : List (Option C))
    (hl : ∀ c, some c ∈ sequences) : (pool (V := V) barriers).Outline where
  inv := RingInvariant sequences
  assertion := Knows sequences barriers
  rely := Relies
  step_inv := by
    intro t r l a r' l' h hk hs
    cases t with
    | none => exact producerStep_invariant h hk hl hs
    | some c => exact consumerStep_invariant h hl hk hs
  step_assertion := by
    intro t r l a r' l' h hk hs
    cases t with
    | none => exact producerStep_holds h hk hs
    | some c => exact consumerStep_holds h hl hk hs
  step_rely := by
    intro t r l a r' l' h hk hs u hu
    cases t with
    | none =>
      cases u with
      | none => exact absurd rfl hu
      | some c => exact producerStep_relies h hk hs c
    | some c => exact consumerStep_relies hk hs u hu
  stable := by
    intro t l r r' _ _ hk hr
    cases t with
    | none =>
      obtain ⟨hsequencer, -, hvalues⟩ := hr
      refine ⟨?_, ?_, ?_, hk.claiming⟩
      · rw [hsequencer]
        exact hk.unclaimed
      · rw [hsequencer]
        exact hk.claimed
      · intro call hcall
        rw [hsequencer]
        exact (hk.call call hcall).mono hvalues
    | some c =>
      obtain ⟨hown, hvalues, hcursor, hlog⟩ := hr
      have hk' : l.Holds (barriers c) (· ≤ r.sequencer.cursor) (fun _ => True)
        (· ≤ r.sequencer.cursor) r.values r.log (r.values c) := hk
      simp only [Knows, ConsumerHolds, hown]
      exact hk'.mono (fun a ha => ha.trans hcursor) (fun _ _ => trivial) (fun d _ => hvalues d)
        fun s hs => ⟨hs.trans hcursor, hlog s hs⟩

/-- The sequences that were added start at the cursor. -/
lemma initialRing_values (b : BufferSize) (entries : Int → V) {sequences : List (Option C)}
    (hl : ∀ c, some c ∈ sequences) (c : C) :
    (initialRing b entries sequences).values c = INITIAL_VALUE := by
  have h := Gating.addGatingSequences_values ({} : Gating C) (fun _ => INITIAL_VALUE)
    INITIAL_VALUE sequences c
  rw [if_pos (hl c)] at h
  exact h

/-- A new ring satisfies the outline. -/
lemma outline_initial (b : BufferSize) (entries : Int → V) (barriers : C → Barrier C)
    (sequences : List (Option C)) (hl : ∀ c, some c ∈ sequences) :
    (outline barriers sequences hl).Holds (initial b entries sequences) := by
  have hvalues := initialRing_values b entries hl
  constructor
  · refine ⟨⟨⟨rfl, ?_⟩, fun c _ => (hvalues c).ge, ?_⟩, le_rfl, fun c => (hvalues c).le,
      fun c => (hvalues c).ge, fun _ _ => rfl, ?_, ?_⟩
    · rintro snap ⟨⟩
    · intro c _
      have hsize := b.size_pos
      show INITIAL_VALUE - b.size ≤ (initialRing b entries sequences).values c
      rw [hvalues c]
      omega
    · intro s hs hs'
      change s ≤ -1 at hs'
      omega
    · intro c s v _ _ hv
      cases hv
  · intro t
    cases t with
    | none =>
      exact ⟨fun _ => rfl, by rintro _ _ ⟨⟩, by rintro _ ⟨⟩, by rintro _ ⟨⟩⟩
    | some c =>
      constructor
      · show (0 : Int) = (initialRing b entries sequences).values c + 1
        rw [hvalues c]
        rfl
      · intro i p hp
        simp [initial, initialLocal] at hp

/-! ### The refinement -/

/-- The ring stands for a log: what is published are the entries of the log, and what a consumer
has read is what it has taken. -/
structure Refines (cfg : ThreadPool.Config (Ring C V) (Local C V)) (log : BroadcastLog C V) :
    Prop where
  length_eq : (log.entries.length : Int) = cfg.shared.sequencer.cursor + 1
  entries_eq : ∀ (i : Nat) (v : V), log.entries[i]? = some v → cfg.shared.log i = some v
  taken_eq : ∀ c, log.taken c = (cfg.threads (some c)).reads.map Prod.snd

/-- The values that were written from `lo` on. -/
lemma exists_written (w : Int → Option V) (lo : Int) (n : Nat)
    (h : ∀ s, lo ≤ s → s < lo + n → ∃ v, w s = some v) :
    ∃ vs : List V, vs.length = n ∧ ∀ (i : Nat) (v : V), vs[i]? = some v → w (lo + i) = some v := by
  induction n with
  | zero => exact ⟨[], rfl, by simp⟩
  | succ n ih =>
    obtain ⟨vs, hlength, hvs⟩ := ih fun s hs hs' => h s hs (by push_cast; omega)
    obtain ⟨v, hv⟩ := h (lo + n) (by omega) (by push_cast; omega)
    refine ⟨vs ++ [v], by simp [hlength], ?_⟩
    intro i u hu
    by_cases hi : i < vs.length
    · rw [List.getElem?_append_left hi] at hu
      exact hvs i u hu
    · rw [List.getElem?_append_right (by omega), List.getElem?_singleton] at hu
      split_ifs at hu with hzero
      obtain rfl := Option.some.inj hu
      obtain rfl : i = n := by omega
      exact hv

/-- A step of the producer appends what it publishes to the log, or does not show. -/
lemma Refines.producerStep {cfg : ThreadPool.Config (Ring C V) (Local C V)}
    {log : BroadcastLog C V} (href : Refines cfg log) (h : RingInvariant sequences cfg.shared)
    (hp : ProducerHolds sequences (cfg.threads none) cfg.shared)
    (hs : producerStep cfg.shared (cfg.threads none) a = some (r', p')) :
    ∃ bs log', run BroadcastLog.step log bs = some log' ∧
      Refines ⟨r', Function.update cfg.threads none p'⟩ log' := by
  have hreads : ∀ c, (Function.update cfg.threads none p' (some c)).reads =
      (cfg.threads (some c)).reads := by
    intro c
    rw [Function.update_of_ne (by simp)]
  rcases producerStep_cases hs with ⟨op, result, s', -, -, -, hstep, rfl, -⟩ |
    ⟨call, result, s', -, hcall, hstep, rfl, -⟩ | ⟨s, v, lo, hi, -, hclaim, hlo, -, rfl, -⟩ |
    ⟨lo, hi, -, -, hclaim, hwritten, rfl, -⟩
  · obtain ⟨-, -, hcursor, -⟩ := h.safe.enter hstep
    refine ⟨[], log, rfl, ⟨?_, href.entries_eq, fun c => by rw [hreads, href.taken_eq]⟩⟩
    simp only [hcursor, href.length_eq]
  · obtain ⟨-, -, hcursor, -⟩ := h.safe.callStep (hp.call call hcall) hstep
    have hcursor' : s'.cursor = cfg.shared.sequencer.cursor := by
      rcases hcursor with hcursor | ⟨hcursor, hclaims⟩
      · exact hcursor
      · exact hcursor.trans (hp.unclaimed (hp.claiming call hcall hclaims)).symm
    refine ⟨[], log, rfl, ⟨?_, href.entries_eq, fun c => by rw [hreads, href.taken_eq]⟩⟩
    simp only [hcursor', href.length_eq]
  · obtain ⟨rfl, -⟩ := hp.claimed lo hi hclaim
    refine ⟨[], log, rfl, ⟨href.length_eq, ?_, fun c => by rw [hreads, href.taken_eq]⟩⟩
    intro i u hu
    have hlt := (List.getElem?_eq_some_iff.mp hu).1
    have hlength := href.length_eq
    have hne : (i : Int) ≠ s := by omega
    simp only [Ring.write, Function.update_of_ne hne]
    exact href.entries_eq i u hu
  · obtain ⟨rfl, rfl⟩ := hp.claimed lo hi hclaim
    have hlength := href.length_eq
    have hcursor := h.cursor_le
    obtain ⟨vs, hn, hvs⟩ := exists_written cfg.shared.log (cfg.shared.sequencer.cursor + 1)
      (cfg.shared.sequencer.nextValue - cfg.shared.sequencer.cursor).toNat
      fun s hs hs' => hwritten.exists hs (by omega)
    refine ⟨[.append vs], { log with entries := log.entries ++ vs }, rfl, ⟨?_, ?_, ?_⟩⟩
    · show ((log.entries ++ vs).length : Int) = cfg.shared.sequencer.nextValue + 1
      rw [List.length_append, hn]
      omega
    · intro i u hu
      by_cases hi : i < log.entries.length
      · rw [List.getElem?_append_left hi] at hu
        exact href.entries_eq i u hu
      · rw [List.getElem?_append_right (by omega)] at hu
        have hu' := hvs _ u hu
        have hindex : cfg.shared.sequencer.cursor + 1 + ((i - log.entries.length : Nat) : Int) =
            i := by omega
        rw [hindex] at hu'
        exact hu'
    · intro c
      rw [hreads]
      exact href.taken_eq c

/-- A step of a consumer takes the next entry of the log, or does not show. -/
lemma Refines.consumerStep {cfg : ThreadPool.Config (Ring C V) (Local C V)}
    {log : BroadcastLog C V} (href : Refines cfg log) (h : RingInvariant sequences cfg.shared)
    (hl : ∀ c, some c ∈ sequences)
    (hc : ConsumerHolds barriers c (cfg.threads (some c)) cfg.shared)
    (hs : consumerStep barriers c cfg.shared (cfg.threads (some c)) choice = some (r', l')) :
    ∃ bs log', run BroadcastLog.step log bs = some log' ∧
      Refines ⟨r', Function.update cfg.threads (some c) l'⟩ log' := by
  have hshared : r'.sequencer = cfg.shared.sequencer ∧ r'.log = cfg.shared.log := by
    rcases consumerStep_cases hs with ⟨-, rfl⟩ | ⟨_, -, rfl⟩
    · exact ⟨rfl, rfl⟩
    · exact ⟨rfl, rfl⟩
  obtain ⟨set, hstep⟩ : ∃ set, (cfg.threads (some c)).step (barriers c) cfg.shared.view
      cfg.shared.get (cfg.shared.values c) choice = some (l', set) := by
    rcases consumerStep_cases hs with ⟨hstep, -⟩ | ⟨_, hstep, -⟩
    · exact ⟨_, hstep⟩
    · exact ⟨_, hstep⟩
  have hlength : (log.entries.length : Int) = r'.sequencer.cursor + 1 := by
    rw [hshared.1, href.length_eq]
  have hentries : ∀ (i : Nat) (v : V), log.entries[i]? = some v → r'.log i = some v := by
    rw [hshared.2]
    exact href.entries_eq
  rcases Consumer.step_reads hstep with hreads | ⟨next, hi, hpc, hle, -, hreads⟩
  · refine ⟨[], log, rfl, ⟨hlength, hentries, ?_⟩⟩
    intro d
    by_cases hd : d = c
    · subst hd
      simp only [Function.update_self, hreads]
      exact href.taken_eq d
    · simp only [Function.update_of_ne (fun heq => hd (Option.some.inj heq))]
      exact href.taken_eq d
  · -- the consumer reads `next`, which is published
    simp only [ConsumerHolds, Consumer.Holds, hpc] at hc
    obtain ⟨⟨hread, -⟩, hlt, -, hreadable⟩ := hc
    have hcursor : next ≤ cfg.shared.sequencer.cursor := hreadable next hlt hle
    have hget := (h.serves hl barriers c).get next hlt hcursor
    have htaken : (log.taken c).length = (cfg.threads (some c)).reads.length := by
      rw [href.taken_eq, List.length_map]
    have hold := href.length_eq
    obtain ⟨v, hv⟩ : ∃ v, log.entries[(log.taken c).length]? = some v :=
      ⟨_, List.getElem?_eq_getElem (by omega)⟩
    have hnext : next = ((log.taken c).length : Int) := by omega
    have hvalue : v = cfg.shared.get next := by
      have hlog := href.entries_eq _ v hv
      rw [← hnext, hget] at hlog
      exact (Option.some.inj hlog).symm
    refine ⟨[.take c], { log with taken := Function.update log.taken c (log.taken c ++ [v]) }, ?_,
      ⟨hlength, hentries, ?_⟩⟩
    · simp [run_cons, BroadcastLog.step, hv]
    · intro d
      by_cases hd : d = c
      · subst hd
        simp only [Function.update_self, hreads, List.map_append, List.map_cons, List.map_nil,
          href.taken_eq d, hvalue]
      · simp only [Function.update_of_ne hd,
          Function.update_of_ne (fun heq => hd (Option.some.inj heq))]
        exact href.taken_eq d

/-- A new ring stands for the empty log. -/
lemma refines_initial (b : BufferSize) (entries : Int → V) (sequences : List (Option C)) :
    Refines (initial b entries sequences) {} where
  length_eq := rfl
  entries_eq := by simp
  taken_eq := fun _ => rfl

/-- The single-producer ring refines an unbounded log. After every interleaving of the producer
and the consumers there is a run of the log in which the published values are the entries, and
each consumer has read the sequences `0, 1, 2, …` with exactly the values that it has taken: the
values that the producer wrote for them. -/
theorem ring_refines_log (b : BufferSize) (entries : Int → V) (barriers : C → Barrier C)
    (sequences : List (Option C)) (hl : ∀ c, some c ∈ sequences)
    (as : List (Σ t, Action C V t)) (cfg : ThreadPool.Config (Ring C V) (Local C V))
    (h : run (pool barriers).next (initial b entries sequences) as = some cfg) :
    (∀ c s v, (s, v) ∈ (cfg.threads (some c)).reads → cfg.shared.log s = some v) ∧
      ∃ bs log, run BroadcastLog.step {} bs = some log ∧
        (log.entries.length : Int) = cfg.shared.sequencer.cursor + 1 ∧
        (∀ (i : Nat) (v : V), log.entries[i]? = some v → cfg.shared.log i = some v) ∧
        ∀ c, log.taken c <+: log.entries ∧
          (cfg.threads (some c)).reads = (log.taken c).mapIdx fun i v => ((i : Int), v) := by
  obtain ⟨bs, log, hrun, hholds, href⟩ := run_simulation
    (fun cfg log => (outline barriers sequences hl).Holds cfg ∧ Refines cfg log)
    (by
      rintro cfg ⟨t, a⟩ cfg' log ⟨hholds, href⟩ hs
      have hnext := hholds.next hs
      obtain ⟨s', l', hstep, rfl⟩ := (pool barriers).next_eq_some.mp hs
      cases t with
      | none =>
        obtain ⟨bs, log', hbs, href'⟩ :=
          href.producerStep hholds.shared (hholds.threads none) hstep
        exact ⟨bs, log', hbs, hnext, href'⟩
      | some c =>
        obtain ⟨bs, log', hbs, href'⟩ :=
          href.consumerStep hholds.shared hl (hholds.threads (some c)) hstep
        exact ⟨bs, log', hbs, hnext, href'⟩)
    ⟨outline_initial b entries barriers sequences hl, refines_initial b entries sequences⟩ h
  have hreads : ∀ c, ∃ next, Consumer.ReadsInOrder cfg.shared.log
      (· ≤ cfg.shared.sequencer.cursor) (cfg.threads (some c)).reads next := by
    intro c
    exact Consumer.Holds.readsInOrder (hholds.threads (some c))
  refine ⟨?_, bs, log, hrun, href.length_eq, href.entries_eq, ?_⟩
  · intro c s v hmem
    obtain ⟨next, -, hin⟩ := hreads c
    obtain ⟨i, hi⟩ := List.mem_iff_getElem?.mp hmem
    exact (hin i (s, v) hi).2.2
  · intro c
    refine ⟨BroadcastLog.inStep_run hrun c, ?_⟩
    obtain ⟨next, -, hin⟩ := hreads c
    rw [href.taken_eq]
    refine List.ext_getElem? fun i => ?_
    rw [List.getElem?_mapIdx, List.getElem?_map]
    cases hi : (cfg.threads (some c)).reads[i]? with
    | none => rfl
    | some p =>
      obtain ⟨hp, -⟩ := hin i p hi
      simp [← hp]

/-- The second consumer follows the first. -/
def pipeline : Bool → Barrier Bool
  | false => ⟨.BusySpin, []⟩
  | true => ⟨.BusySpin, [false]⟩

/-- Three events through a ring of two slots: the producer waits for both consumers before it
claims the third, and writes it to the slot of the first. -/
def wrapAround : List (Σ t, Action Bool Int t) :=
  [⟨none, .call (.next 2)⟩, ⟨none, .write 0 10⟩, ⟨none, .write 1 11⟩, ⟨none, .publish⟩,
    ⟨none, .call (.next 1)⟩] ++ List.replicate 6 ⟨none, .proceed⟩ ++
  List.replicate 6 ⟨some false, .proceed⟩ ++ List.replicate 5 ⟨none, .proceed⟩ ++
  List.replicate 7 ⟨some true, .proceed⟩ ++ List.replicate 4 ⟨none, .proceed⟩ ++
  [⟨none, .write 2 12⟩, ⟨none, .publish⟩] ++ List.replicate 5 ⟨some false, .proceed⟩ ++
  List.replicate 6 ⟨some true, .proceed⟩

theorem ring_refines_log_wrapAround :
    ∃ cfg, run (pool pipeline).next
        (initial ⟨1, by decide⟩ (fun _ => 0) [some false, some true]) wrapAround = some cfg ∧
      cfg.shared.get 0 = 12 ∧
      (cfg.threads (some true)).reads = [(0, 10), (1, 11), (2, 12)] ∧
      cfg.shared.log 0 = some 10 ∧ cfg.shared.log 2 = some 12 ∧
      ∃ bs, ∃ log : BroadcastLog Bool Int, run BroadcastLog.step {} bs = some log ∧
        log.entries.length = 3 ∧ log.taken true <+: log.entries := by
  have hends : (run (pool pipeline).next (initial ⟨1, by decide⟩ (fun _ => 0)
      [some false, some true]) wrapAround).map (fun cfg =>
        (cfg.shared.get 0, (cfg.threads (some true)).reads, cfg.shared.sequencer.cursor)) =
      some (12, [(0, 10), (1, 11), (2, 12)], 2) := by
    decide +kernel
  obtain ⟨cfg, hrun, hcfg⟩ := Option.map_eq_some_iff.mp hends
  obtain ⟨hget, hreads, hcursor⟩ : cfg.shared.get 0 = 12 ∧
      (cfg.threads (some true)).reads = [(0, 10), (1, 11), (2, 12)] ∧
      cfg.shared.sequencer.cursor = 2 := by
    simpa using hcfg
  obtain ⟨hread, bs, log, hlog, hlength, -, htaken⟩ := ring_refines_log ⟨1, by decide⟩
    (fun _ => 0) pipeline [some false, some true] (by decide) wrapAround cfg hrun
  refine ⟨cfg, hrun, hget, hreads, hread true 0 10 ?_, hread true 2 12 ?_, bs, log, hlog, ?_,
    (htaken true).1⟩
  · simp [hreads]
  · simp [hreads]
  · omega

end Disruptor.SingleProducerRing
