import Disruptor.Sequencer.MultiProducer.Flags
import Disruptor.Sequencer.MultiProducer.Ring

/-!
# Safety of the multi-producer ring

The proof outline of the ring: the cursor runs ahead of what has been handed out, what has been
handed out stays within a lap of every gating sequence, and the flags of the lap above a consumer
tell exactly which of its sequences are published.
-/

namespace Disruptor.MultiProducerRing

open Disruptor.Core MultiProducerSequencer

variable {P C X V : Type}

/-- What every shared state satisfies. -/
structure RingInvariant (b : BufferSize) (sequences : List (Option (C ⊕ X)))
    (r : Ring P C X V) : Prop where
  size : r.sequencer.bufferSize = b
  safe : r.sequencer.Safe r.values sequences
  start : ∀ c, INITIAL_VALUE ≤ r.values (.inl c)
  cursor_ge : INITIAL_VALUE ≤ r.sequencer.cursor
  /-- The sequences that were taken are those below the cursor. -/
  owned : ∀ s p, r.owner s = some p → 0 ≤ s ∧ s ≤ r.sequencer.cursor
  granted_le : ∀ g ∈ r.granted, g.lo ≤ g.hi
  granted_owned : ∀ g ∈ r.granted, ∀ s, g.Covers s → r.owner s = some g.producer
  granted_room : ∀ g ∈ r.granted, r.sequencer.HasRoom r.values sequences g.hi
  granted_disjoint : r.granted.Pairwise fun g g' => ∀ s, g.Covers s → ¬ g'.Covers s
  published_granted : ∀ s, r.published s = true → r.IsGranted s ∧ ∃ w, r.log s = some w
  log_owned : ∀ s p v, r.log s = some (p, v) → r.owner s = some p ∧ r.IsGranted s
  /-- Consumers have only passed published sequences. -/
  passed : ∀ c s, 0 ≤ s → s ≤ r.values (.inl c) → r.published s = true
  /-- The flag of a slot is the one of this lap or the one of the lap before. -/
  flags : ∀ c s, r.values (.inl c) < s → s ≤ r.values (.inl c) + r.sequencer.getBufferSize →
    r.sequencer.availableBuffer (calculateIndex r.sequencer.bufferSize s) =
      calculateAvailabilityFlag r.sequencer.bufferSize
        (if r.published s then s else s - r.sequencer.getBufferSize)
  window : ∀ c, WindowHolds r.sequencer.getBufferSize (elementAt r.sequencer.bufferSize) r.entries
    r.recorded (r.values (.inl c))

/-- The range belongs to `p` and was not handed out. -/
def Ring.Taken (r : Ring P C X V) (p : P) (lo hi : Int) : Prop :=
  ∀ s, lo ≤ s → s ≤ hi → r.owner s = some p ∧ ¬ r.IsGranted s

/-- The range was handed out to `p`, and none of it is published. -/
def Ring.Held (r : Ring P C X V) (p : P) (lo hi : Int) : Prop :=
  ∀ s, lo ≤ s → s ≤ hi → r.owner s = some p ∧ r.IsGranted s ∧ r.published s = false

/-- What a producer knows. -/
def ProducerHolds (sequences : List (Option (C ⊕ X))) (p : P) (l : Producer (C ⊕ X))
    (r : Ring P C X V) : Prop :=
  match l with
  | .idle => True
  | .calling call =>
    call.Knows r.sequencer r.values sequences ∧
      ∀ lo hi, call.taken = some (lo, hi) → r.Taken p lo hi
  | .holding lo hi => r.Held p lo hi
  | .publishing l hi =>
    r.Held p l hi ∧ ∀ s, l ≤ s → s ≤ hi → ∃ w, r.log s = some w

/-- What a consumer knows. -/
def ConsumerHolds (barriers : C → Barrier (C ⊕ X)) (c : C) (l : Consumer (C ⊕ X) V)
    (r : Ring P C X V) : Prop :=
  l.Holds (barriers c) (fun _ => True) (fun s => r.published s = true)
    (fun s => r.published s = true) r.values r.recorded (r.values (.inl c))

variable {b : BufferSize} {sequences : List (Option (C ⊕ X))} {p : P} {r r' : Ring P C X V}
  {l l' : Producer (C ⊕ X)} {a : ProducerAction V}

/-! ### The lap above a consumer -/

/-- What was handed out is within the lap above every consumer. -/
lemma RingInvariant.granted_le_lap (h : RingInvariant b sequences r)
    (hl : ∀ c, some (.inl c) ∈ sequences) (c : C) {s : Int} (hs : r.IsGranted s) :
    s ≤ r.values (.inl c) + r.sequencer.getBufferSize := by
  obtain ⟨g, hg, -, hle⟩ := hs
  have hroom := h.granted_room g hg (.inl c) (hl c)
  omega

/-- What is handed out and not published is in the lap above every consumer. -/
lemma RingInvariant.held_in_lap (h : RingInvariant b sequences r)
    (hl : ∀ c, some (.inl c) ∈ sequences) (c : C) {s : Int} (hs : r.IsGranted s)
    (hunpublished : r.published s = false) :
    r.values (.inl c) < s ∧ s ≤ r.values (.inl c) + r.sequencer.getBufferSize := by
  refine ⟨?_, h.granted_le_lap hl c hs⟩
  by_contra hle
  obtain ⟨g, hg, hcovers⟩ := hs
  have hnonneg := (h.owned s _ (h.granted_owned g hg s hcovers)).1
  have hpassed := h.passed c s hnonneg (by omega)
  rw [hunpublished] at hpassed
  cases hpassed

/-- A flag that is set tells that the sequence is published, up to the first sequence that is
not. -/
lemma RingInvariant.published_of_isAvailable (h : RingInvariant b sequences r)
    (hl : ∀ c, some (.inl c) ∈ sequences) (c : C) {s : Int} (hs : r.values (.inl c) < s)
    (hbelow : ∀ t, r.values (.inl c) < t → t < s → r.published t = true)
    (havailable : r.sequencer.isAvailable s = true) : r.published s = true := by
  have hbeyond : ∀ t, r.published t = true →
      t ≤ r.values (.inl c) + r.sequencer.getBufferSize :=
    fun t ht => h.granted_le_lap hl c (h.published_granted t ht).1
  have hflags : r.sequencer.FlagsAbove r.published (r.values (.inl c)) := h.flags c
  exact (hflags.isAvailable_iff_of_below hbeyond hs hbelow).mp havailable

/-- What a barrier gives its consumer: the flags tell what is published. -/
lemma RingInvariant.serves (h : RingInvariant b sequences r)
    (hl : ∀ c, some (.inl c) ∈ sequences) (barriers : C → Barrier (C ⊕ X)) (c : C) :
    Consumer.Serves (barriers c) (fun _ => True) (fun s => r.published s = true)
      (fun s => r.published s = true) r.view r.recorded r.get (r.values (.inl c)) where
  reached := trivial
  reached_of_le := fun _ _ _ _ => trivial
  flag := by
    intro isAvailable s heq hs hbelow havailable
    obtain rfl := Option.some.inj heq
    exact h.published_of_isAvailable hl c hs hbelow havailable
  answer := by
    intro hi hanswer s hs hs'
    exact hanswer.seen rfl s (by omega) hs'
  get := by
    intro s hs hpublished
    obtain ⟨hgranted, w, hw⟩ := h.published_granted s hpublished
    have hrecorded : r.recorded s = some w.2 := by simp [Ring.recorded, hw]
    rw [hrecorded]
    exact congrArg some (h.window c s w.2 hs (h.granted_le_lap hl c hgranted) hrecorded).symm

/-! ### Steps of a producer -/

lemma isGranted_after {s' : MultiProducerSequencer (C ⊕ X)}
    {result : ClaimResult (ClaimCall (C ⊕ X))} {s : Int} :
    (r.after p s' result).IsGranted s ↔
      (∃ lo hi, result = .claimed lo hi ∧ lo ≤ s ∧ s ≤ hi) ∨ r.IsGranted s := by
  cases result with
  | claimed lo hi => simp [Ring.IsGranted, Ring.after, Claim.Covers]
  | running call => simp [Ring.IsGranted, Ring.after]
  | ended => simp [Ring.IsGranted, Ring.after]

/-- The range that a step hands out belongs to the producer and was not handed out before. -/
lemma RingInvariant.claimed_taken (h : RingInvariant b sequences r) {call : ClaimCall (C ⊕ X)}
    (hl : ProducerHolds sequences p (.calling call) r) {s' : MultiProducerSequencer (C ⊕ X)}
    {lo hi : Int} (hsound : Sound r.sequencer s' r.values sequences call.taken (.claimed lo hi))
    {s : Int} (hs : lo ≤ s) (hs' : s ≤ hi) :
    (r.after p s' (.claimed lo hi)).owner s = some p ∧ ¬ r.IsGranted s := by
  rcases hsound.2.2 with ⟨hcursor, htaken⟩ | ⟨-, rfl, rfl⟩
  · obtain ⟨howner, hgranted⟩ := hl.2 lo hi htaken s hs hs'
    refine ⟨?_, hgranted⟩
    simp only [Ring.after, hcursor]
    rw [if_neg (by omega)]
    exact howner
  · refine ⟨if_pos ⟨by omega, hs'⟩, ?_⟩
    rintro ⟨g, hg, hcovers⟩
    have := (h.owned s _ (h.granted_owned g hg s hcovers)).2
    omega

/-- The owner of a sequence stays. -/
lemma RingInvariant.owner_after (h : RingInvariant b sequences r)
    {s' : MultiProducerSequencer (C ⊕ X)} {result : ClaimResult (ClaimCall (C ⊕ X))} {s : Int}
    {q : P} (hs : r.owner s = some q) : (r.after p s' result).owner s = some q := by
  have hle := (h.owned s q hs).2
  simp only [Ring.after]
  rw [if_neg (by omega)]
  exact hs

/-- A step of a call keeps the invariant. -/
lemma RingInvariant.callStep (h : RingInvariant b sequences r) {call : ClaimCall (C ⊕ X)}
    (hl : ProducerHolds sequences p (.calling call) r) {spurious : Bool}
    {s' : MultiProducerSequencer (C ⊕ X)} {result : ClaimResult (ClaimCall (C ⊕ X))}
    (hs : r.sequencer.callStep r.values spurious call = (result, s')) :
    RingInvariant b sequences (r.after p s' result) := by
  obtain ⟨hsafe, hsound, hsize, hbuffer⟩ := h.safe.callStep hl.1 hs
  have hcursor := hsound.cursor_le
  have hstart := h.cursor_ge
  have hold : ∀ s, r.IsGranted s → (r.after p s' result).IsGranted s :=
    fun s hs => isGranted_after.mpr (Or.inr hs)
  have hroom : ∀ hi, r.sequencer.HasRoom r.values sequences hi →
      s'.HasRoom r.values sequences hi := by
    intro hi hroom i hi'
    simp only [getBufferSize, hsize]
    exact hroom i hi'
  refine ⟨hsize.trans h.size, hsafe, h.start, hstart.trans hcursor, ?_, ?_, ?_, ?_, ?_, ?_, ?_,
    h.passed, ?_, ?_⟩
  · intro s q hq
    simp only [Ring.after, INITIAL_VALUE] at hq hstart ⊢
    split_ifs at hq with hnew
    · omega
    · obtain ⟨hnonneg, hle⟩ := h.owned s q hq
      omega
  · cases result with
    | claimed lo hi => exact List.forall_mem_cons.mpr ⟨hsound.1, h.granted_le⟩
    | running call => exact h.granted_le
    | ended => exact h.granted_le
  · have hgranted : ∀ g ∈ r.granted, ∀ s, g.Covers s →
        (r.after p s' result).owner s = some g.producer :=
      fun g hg s hcovers => h.owner_after (h.granted_owned g hg s hcovers)
    cases result with
    | claimed lo hi =>
      refine List.forall_mem_cons.mpr ⟨?_, hgranted⟩
      intro s hcovers
      exact (h.claimed_taken hl hsound hcovers.1 hcovers.2).1
    | running call => exact hgranted
    | ended => exact hgranted
  · have hgranted : ∀ g ∈ r.granted, s'.HasRoom r.values sequences g.hi :=
      fun g hg => hroom g.hi (h.granted_room g hg)
    cases result with
    | claimed lo hi => exact List.forall_mem_cons.mpr ⟨hsound.2.1, hgranted⟩
    | running call => exact hgranted
    | ended => exact hgranted
  · cases result with
    | claimed lo hi =>
      refine List.pairwise_cons.mpr ⟨?_, h.granted_disjoint⟩
      intro g hg s hcovers hcovers'
      exact (h.claimed_taken hl hsound hcovers.1 hcovers.2).2 ⟨g, hg, hcovers'⟩
    | running call => exact h.granted_disjoint
    | ended => exact h.granted_disjoint
  · intro s hpublished
    obtain ⟨hgranted, hlog⟩ := h.published_granted s hpublished
    exact ⟨hold s hgranted, hlog⟩
  · intro s q v hlog
    obtain ⟨howner, hgranted⟩ := h.log_owned s q v hlog
    exact ⟨h.owner_after howner, hold s hgranted⟩
  · intro c
    simp only [Ring.after, getBufferSize, hsize, hbuffer]
    exact h.flags c
  · intro c
    simp only [Ring.after, getBufferSize, hsize]
    exact h.window c

/-- A write of what is handed out and not published keeps the invariant. -/
lemma RingInvariant.write (h : RingInvariant b sequences r) (hl : ∀ c, some (.inl c) ∈ sequences)
    {s : Int} (howner : r.owner s = some p) (hgranted : r.IsGranted s)
    (hunpublished : r.published s = false) (v : V) :
    RingInvariant b sequences (r.write p s v) where
  size := h.size
  safe := h.safe
  start := h.start
  cursor_ge := h.cursor_ge
  owned := h.owned
  granted_le := h.granted_le
  granted_owned := h.granted_owned
  granted_room := h.granted_room
  granted_disjoint := h.granted_disjoint
  published_granted := by
    intro t ht
    obtain ⟨hgranted, hlog⟩ := h.published_granted t ht
    have hne : t ≠ s := by
      rintro rfl
      exact absurd ht (by simp [Ring.write, hunpublished])
    refine ⟨hgranted, ?_⟩
    simp only [Ring.write, Function.update_of_ne hne]
    exact hlog
  log_owned := by
    intro t q w ht
    by_cases hts : t = s
    · subst hts
      simp only [Ring.write, Function.update_self, Option.some.injEq, Prod.mk.injEq] at ht
      exact ⟨ht.1 ▸ howner, hgranted⟩
    · simp only [Ring.write, Function.update_of_ne hts] at ht
      exact h.log_owned t q w ht
  passed := h.passed
  flags := h.flags
  window := by
    intro c
    obtain ⟨hlt, hle⟩ := h.held_in_lap hl c hgranted hunpublished
    rw [Ring.recorded_write]
    exact (h.window c).write (isSlotMap_elementAt _) hlt hle v

/-- Storing the flag of what is handed out, written and not published keeps the invariant. -/
lemma RingInvariant.setAvailable (h : RingInvariant b sequences r)
    (hl : ∀ c, some (.inl c) ∈ sequences) {s : Int} (hgranted : r.IsGranted s)
    (hunpublished : r.published s = false) (hlog : ∃ w, r.log s = some w) :
    RingInvariant b sequences (r.setAvailable s) where
  size := h.size
  safe := ⟨h.safe.gating, h.safe.cached_le⟩
  start := h.start
  cursor_ge := h.cursor_ge
  owned := h.owned
  granted_le := h.granted_le
  granted_owned := h.granted_owned
  granted_room := h.granted_room
  granted_disjoint := h.granted_disjoint
  published_granted := by
    intro t ht
    by_cases hts : t = s
    · subst hts
      exact ⟨hgranted, hlog⟩
    · simp only [Ring.setAvailable, Function.update_of_ne hts] at ht
      exact h.published_granted t ht
  log_owned := h.log_owned
  passed := by
    intro c t ht ht'
    by_cases hts : t = s
    · subst hts
      simp [Ring.setAvailable]
    · simp only [Ring.setAvailable, Function.update_of_ne hts]
      exact h.passed c t ht ht'
  flags := by
    intro c
    obtain ⟨hlt, hle⟩ := h.held_in_lap hl c hgranted hunpublished
    have hflags : r.sequencer.FlagsAbove r.published (r.values (.inl c)) := h.flags c
    exact hflags.setAvailable hlt hle
  window := h.window

/-- A step of a producer keeps the invariant. -/
lemma producerStep_invariant (h : RingInvariant b sequences r)
    (hl : ∀ c, some (.inl c) ∈ sequences) (hp : ProducerHolds sequences p l r)
    (hs : producerStep p r l a = some (r', l')) : RingInvariant b sequences r' := by
  rcases producerStep_cases hs with ⟨op, -, rfl, -⟩ |
    ⟨call, spurious, result, s', rfl, hstep, rfl, -⟩ | ⟨lo, hi, s, v, rfl, hlo, hhi, rfl, -⟩ |
    ⟨lo, hi, -, -, rfl, -⟩ | ⟨n, hi, rfl, hle, rfl, -⟩ | ⟨n, hi, -, -, rfl, -⟩
  · exact h
  · exact h.callStep hp hstep
  · obtain ⟨howner, hgranted, hunpublished⟩ := hp s hlo hhi
    exact h.write hl howner hgranted hunpublished v
  · exact h
  · obtain ⟨-, hgranted, hunpublished⟩ := hp.1 n le_rfl hle
    exact h.setAvailable hl hgranted hunpublished (hp.2 n le_rfl hle)
  · exact h

/-- A step of a producer leads to what it knows next. -/
lemma producerStep_holds (h : RingInvariant b sequences r) (hp : ProducerHolds sequences p l r)
    (hs : producerStep p r l a = some (r', l')) : ProducerHolds sequences p l' r' := by
  rcases producerStep_cases hs with ⟨op, rfl, rfl, rfl⟩ |
    ⟨call, spurious, result, s', rfl, hstep, rfl, rfl⟩ |
    ⟨lo, hi, s, v, rfl, hlo, hhi, rfl, rfl⟩ | ⟨lo, hi, rfl, hwritten, rfl, rfl⟩ |
    ⟨n, hi, rfl, hle, rfl, rfl⟩ | ⟨n, hi, rfl, hlt, rfl, rfl⟩
  · have hsound : Sound r'.sequencer r'.sequencer r'.values sequences none
        (r'.sequencer.enter op) := enter_sound
    cases hresult : r'.sequencer.enter op with
    | running call =>
      rw [hresult] at hsound
      refine ⟨hsound.1, ?_⟩
      intro lo hi htaken
      rcases hsound.2 with ⟨-, hnone⟩ | ⟨-, hlt, -⟩
      · rw [hnone] at htaken
        cases htaken
      · omega
    | claimed lo hi =>
      rw [hresult] at hsound
      obtain ⟨hle, -, ⟨-, hnone⟩ | ⟨-, rfl, rfl⟩⟩ := hsound
      · cases hnone
      · omega
    | ended => trivial
  · obtain ⟨-, hsound, -, -⟩ := h.safe.callStep hp.1 hstep
    cases result with
    | running call' =>
      refine ⟨hsound.1, ?_⟩
      intro lo hi htaken s hs hs'
      rcases hsound.2 with ⟨-, hsame⟩ | ⟨-, -, hnew⟩
      · obtain ⟨howner, hgranted⟩ := hp.2 lo hi (hsame ▸ htaken) s hs hs'
        exact ⟨h.owner_after howner, hgranted⟩
      · obtain ⟨rfl, rfl⟩ := Prod.mk.inj (Option.some.inj (hnew.symm.trans htaken))
        refine ⟨if_pos ⟨by omega, hs'⟩, ?_⟩
        rintro ⟨g, hg, hcovers⟩
        have := (h.owned s _ (h.granted_owned g hg s hcovers)).2
        omega
    | claimed lo hi =>
      intro s hs hs'
      obtain ⟨howner, hgranted⟩ := h.claimed_taken hp hsound hs hs'
      refine ⟨howner, isGranted_after.mpr (Or.inl ⟨lo, hi, rfl, hs, hs'⟩), ?_⟩
      -- what is not handed out is not published
      cases hpublished : r.published s with
      | false => exact hpublished
      | true => exact absurd (h.published_granted s hpublished).1 hgranted
    | ended => trivial
  · exact hp
  · exact ⟨hp, fun s hs hs' => hwritten.exists hs hs'⟩
  · refine ⟨?_, fun s hs hs' => hp.2 s (by omega) hs'⟩
    intro s hs hs'
    obtain ⟨howner, hgranted, hunpublished⟩ := hp.1 s (by omega) hs'
    have hne : s ≠ n := by omega
    refine ⟨howner, hgranted, ?_⟩
    simp only [Ring.setAvailable, Function.update_of_ne hne]
    exact hunpublished
  · trivial

/-! ### Steps of the other threads -/

section

variable [DecidableEq C] [DecidableEq X] {barriers : C → Barrier (C ⊕ X)} {c : C}
  {k k' : Consumer (C ⊕ X) V} {choice : WaitChoice}

/-- A consumer that moves its own sequence over published ones keeps the invariant. -/
lemma RingInvariant.pass (h : RingInvariant b sequences r) (hl : ∀ c, some (.inl c) ∈ sequences)
    {hi : Int} (hle : r.values (.inl c) ≤ hi)
    (hpublished : ∀ s, r.values (.inl c) < s → s ≤ hi → r.published s = true) :
    RingInvariant b sequences { r with values := Function.update r.values (.inl c) hi } := by
  -- nothing beyond the lap above the old position has been handed out
  have hbeyond : ∀ s, r.values (.inl c) + r.sequencer.getBufferSize < s → ¬ r.IsGranted s := by
    intro s hs hgranted
    have := h.granted_le_lap hl c hgranted
    omega
  refine ⟨h.size, h.safe.mono (le_update_values hle), ?_, h.cursor_ge, h.owned, h.granted_le,
    h.granted_owned, ?_, h.granted_disjoint, h.published_granted, h.log_owned, ?_, ?_, ?_⟩
  · exact fun d => (h.start d).trans (le_update_values hle _)
  · exact fun g hg => (h.granted_room g hg).mono (le_update_values hle)
  · intro d s hs hs'
    by_cases hd : d = c
    · subst hd
      simp only [Function.update_self] at hs'
      by_cases hold : s ≤ r.values (.inl d)
      · exact h.passed d s hs hold
      · exact hpublished s (by omega) hs'
    · have hne : (Sum.inl d : C ⊕ X) ≠ .inl c := fun heq => hd (Sum.inl.inj heq)
      simp only [Function.update_of_ne hne] at hs'
      exact h.passed d s hs hs'
  · intro d
    have hflags : r.sequencer.FlagsAbove r.published (r.values (.inl d)) := h.flags d
    by_cases hd : d = c
    · subst hd
      simp only [Function.update_self]
      refine hflags.advance hpublished ?_ hle
      exact fun s hs => h.granted_le_lap hl d (h.published_granted s hs).1
    · have hne : (Sum.inl d : C ⊕ X) ≠ .inl c := fun heq => hd (Sum.inl.inj heq)
      simp only [Function.update_of_ne hne]
      exact hflags
  · intro d
    by_cases hd : d = c
    · subst hd
      simp only [Function.update_self]
      refine (h.window d).advance hle ?_
      intro s hs
      cases hlog : r.log s with
      | none => simp [Ring.recorded, hlog]
      | some w => exact absurd (h.log_owned s w.1 w.2 hlog).2 (hbeyond s hs)
    · have hne : (Sum.inl d : C ⊕ X) ≠ .inl c := fun heq => hd (Sum.inl.inj heq)
      simp only [Function.update_of_ne hne]
      exact h.window d

/-- Another gating sequence that moves forward keeps the invariant. -/
lemma RingInvariant.advance (h : RingInvariant b sequences r) {x : X} {v : Int}
    (hle : r.values (.inr x) ≤ v) :
    RingInvariant b sequences { r with values := Function.update r.values (.inr x) v } := by
  have hsame : ∀ c : C, Function.update r.values (.inr x) v (.inl c) = r.values (.inl c) :=
    fun c => Function.update_of_ne (by simp) _ _
  refine ⟨h.size, h.safe.mono (le_update_values hle), ?_, h.cursor_ge, h.owned, h.granted_le,
    h.granted_owned, fun g hg => (h.granted_room g hg).mono (le_update_values hle),
    h.granted_disjoint, h.published_granted, h.log_owned, ?_, ?_, ?_⟩
  · exact fun c => hsame c ▸ h.start c
  · exact fun c => hsame c ▸ h.passed c
  · exact fun c => hsame c ▸ h.flags c
  · exact fun c => hsame c ▸ h.window c

/-- A step of a consumer keeps the invariant. -/
lemma consumerStep_invariant (h : RingInvariant b sequences r)
    (hl : ∀ c, some (.inl c) ∈ sequences) (hc : ConsumerHolds barriers c k r)
    (hs : consumerStep barriers c r k choice = some (r', k')) : RingInvariant b sequences r' := by
  rcases consumerStep_cases hs with ⟨-, rfl⟩ | ⟨hi, hstep, rfl⟩
  · exact h
  · obtain ⟨hle, hpublished, -⟩ := Consumer.Holds.step_set hc hstep
    exact h.pass hl hle hpublished

/-- A step of a consumer leads to what it knows next. -/
lemma consumerStep_holds (h : RingInvariant b sequences r)
    (hl : ∀ c, some (.inl c) ∈ sequences) (hc : ConsumerHolds barriers c k r)
    (hs : consumerStep barriers c r k choice = some (r', k')) :
    ConsumerHolds barriers c k' r' := by
  rcases consumerStep_cases hs with ⟨hstep, rfl⟩ | ⟨hi, hstep, rfl⟩
  · have hknown : k.Holds (barriers c) (fun _ => True) (fun s => r'.published s = true)
        (fun s => r'.published s = true) r'.view.values r'.recorded (r'.values (.inl c)) := hc
    exact hknown.step (h.serves hl barriers c) hstep
  · obtain ⟨-, -, hnext⟩ := Consumer.Holds.step_set hc hstep
    simp only [ConsumerHolds, Function.update_self]
    exact hnext _

lemma advanceStep_cases {x : X} {v : Int} {u : Unit} (hs : advanceStep x r v = some (r', u)) :
    r.values (.inr x) ≤ v ∧ r' = { r with values := Function.update r.values (.inr x) v } := by
  unfold advanceStep at hs
  split_ifs at hs with hle
  exact ⟨hle, (Prod.mk.inj (Option.some.inj hs)).1.symm⟩

end

/-! ### The proof outline -/

/-- What a thread relies on when another one moves. -/
def Relies : Thread P C X → Ring P C X V → Ring P C X V → Prop
  | .producer p, r, r' =>
    r'.sequencer.bufferSize = r.sequencer.bufferSize ∧ (∀ i, r.values i ≤ r'.values i) ∧
      ∀ s, r.owner s = some p → r'.owner s = some p ∧ (r'.IsGranted s ↔ r.IsGranted s) ∧
        r'.published s = r.published s ∧ r'.log s = r.log s
  | .consumer c, r, r' =>
    r'.values (.inl c) = r.values (.inl c) ∧ (∀ i, r.values i ≤ r'.values i) ∧
      ∀ s, r.published s = true → r'.published s = true ∧ r'.log s = r.log s
  | .other _, _, _ => True

/-- A step of a producer is one that the other threads rely on. -/
lemma producerStep_relies (h : RingInvariant b sequences r) (hp : ProducerHolds sequences p l r)
    (hs : producerStep p r l a = some (r', l')) (t : Thread P C X) (ht : t ≠ .producer p) :
    Relies t r r' := by
  have hself : Relies t r r := by
    cases t with
    | producer q => exact ⟨rfl, fun _ => le_rfl, fun s hs => ⟨hs, Iff.rfl, rfl, rfl⟩⟩
    | consumer c => exact ⟨rfl, fun _ => le_rfl, fun s hs => ⟨hs, rfl⟩⟩
    | other x => trivial
  have hother : ∀ q s, t = .producer q → r.owner s = some p → r.owner s ≠ some q := by
    rintro q s rfl howner howner'
    exact ht (congrArg _ (Option.some.inj (howner'.symm.trans howner)))
  rcases producerStep_cases hs with ⟨op, -, rfl, -⟩ |
    ⟨call, spurious, result, s', rfl, hstep, rfl, -⟩ | ⟨lo, hi, s, v, rfl, hlo, hhi, rfl, -⟩ |
    ⟨lo, hi, -, -, rfl, -⟩ | ⟨n, hi, rfl, hle, rfl, -⟩ | ⟨n, hi, -, -, rfl, -⟩
  · exact hself
  · obtain ⟨-, hsound, hsize, -⟩ := h.safe.callStep hp.1 hstep
    cases t with
    | producer q =>
      refine ⟨hsize, fun _ => le_rfl, ?_⟩
      intro s howner
      refine ⟨h.owner_after howner, ?_, rfl, rfl⟩
      rw [isGranted_after]
      refine ⟨?_, Or.inr⟩
      rintro (⟨lo, hi, rfl, hs, hs'⟩ | hgranted)
      · -- what is handed out to `p` does not belong to `q`
        have howner' := (h.claimed_taken hp hsound hs hs').1
        rw [h.owner_after howner] at howner'
        exact absurd (congrArg _ (Option.some.inj howner')) ht
      · exact hgranted
    | consumer c => exact ⟨rfl, fun _ => le_rfl, fun s hs => ⟨hs, rfl⟩⟩
    | other x => trivial
  · obtain ⟨howner, -, hunpublished⟩ := hp s hlo hhi
    cases t with
    | producer q =>
      refine ⟨rfl, fun _ => le_rfl, ?_⟩
      intro u hu
      have hne : u ≠ s := by
        rintro rfl
        exact hother q u rfl howner hu
      exact ⟨hu, Iff.rfl, rfl, Function.update_of_ne hne _ _⟩
    | consumer c =>
      refine ⟨rfl, fun _ => le_rfl, ?_⟩
      intro u hu
      have hne : u ≠ s := by
        rintro rfl
        exact absurd hu (by simp [hunpublished])
      exact ⟨hu, Function.update_of_ne hne _ _⟩
    | other x => trivial
  · exact hself
  · obtain ⟨howner, -, -⟩ := hp.1 n le_rfl hle
    cases t with
    | producer q =>
      refine ⟨rfl, fun _ => le_rfl, ?_⟩
      intro u hu
      have hne : u ≠ n := by
        rintro rfl
        exact hother q u rfl howner hu
      exact ⟨hu, Iff.rfl, Function.update_of_ne hne _ _, rfl⟩
    | consumer c =>
      refine ⟨rfl, fun _ => le_rfl, ?_⟩
      intro u hu
      refine ⟨?_, rfl⟩
      by_cases hun : u = n
      · subst hun
        simp [Ring.setAvailable]
      · simpa only [Ring.setAvailable, Function.update_of_ne hun] using hu
    | other x => trivial
  · exact hself

section

variable [DecidableEq C] [DecidableEq X] {barriers : C → Barrier (C ⊕ X)} {c : C}
  {k k' : Consumer (C ⊕ X) V} {choice : WaitChoice}

/-- Moving a sequence forward is something that everyone but its owner relies on. -/
lemma relies_update {i : C ⊕ X} {v : Int} (hle : r.values i ≤ v) (t : Thread P C X)
    (ht : ∀ c, t = .consumer c → i ≠ .inl c) :
    Relies t r { r with values := Function.update r.values i v } := by
  cases t with
  | producer q =>
    exact ⟨rfl, le_update_values hle, fun s hs => ⟨hs, Iff.rfl, rfl, rfl⟩⟩
  | consumer c =>
    exact ⟨Function.update_of_ne (ht c rfl).symm _ _, le_update_values hle,
      fun s hs => ⟨hs, rfl⟩⟩
  | other x => trivial

/-- A step of a consumer is one that the other threads rely on. -/
lemma consumerStep_relies (hc : ConsumerHolds barriers c k r)
    (hs : consumerStep barriers c r k choice = some (r', k')) (t : Thread P C X)
    (ht : t ≠ .consumer c) : Relies t r r' := by
  rcases consumerStep_cases hs with ⟨-, rfl⟩ | ⟨hi, hstep, rfl⟩
  · cases t with
    | producer q => exact ⟨rfl, fun _ => le_rfl, fun s hs => ⟨hs, Iff.rfl, rfl, rfl⟩⟩
    | consumer d => exact ⟨rfl, fun _ => le_rfl, fun s hs => ⟨hs, rfl⟩⟩
    | other x => trivial
  · obtain ⟨hle, -⟩ := Consumer.Holds.step_set hc hstep
    refine relies_update hle t ?_
    rintro d rfl heq
    exact ht (congrArg _ (Sum.inl.inj heq).symm)

/-- What each thread knows. -/
def Knows (sequences : List (Option (C ⊕ X))) (barriers : C → Barrier (C ⊕ X)) :
    ∀ t, Local P C X V t → Ring P C X V → Prop
  | .producer p => ProducerHolds sequences p
  | .consumer c => ConsumerHolds barriers c
  | .other _ => fun _ _ => True

omit [DecidableEq C] [DecidableEq X] in
/-- What a producer knows stays known. -/
lemma ProducerHolds.mono (hp : ProducerHolds sequences p l r)
    (hr : Relies (.producer p) r r') : ProducerHolds sequences p l r' := by
  obtain ⟨hsize, hvalues, hmine⟩ := hr
  have hheld : ∀ lo hi, r.Held p lo hi → r'.Held p lo hi := by
    intro lo hi hheld s hs hs'
    obtain ⟨howner, hgranted, hunpublished⟩ := hheld s hs hs'
    obtain ⟨howner', hgranted', hpublished', -⟩ := hmine s howner
    exact ⟨howner', hgranted'.mpr hgranted, hpublished'.trans hunpublished⟩
  cases l with
  | idle => trivial
  | calling call =>
    refine ⟨hp.1.mono hsize hvalues, ?_⟩
    intro lo hi htaken s hs hs'
    obtain ⟨howner, hgranted⟩ := hp.2 lo hi htaken s hs hs'
    obtain ⟨howner', hgranted', -⟩ := hmine s howner
    exact ⟨howner', fun hg => hgranted (hgranted'.mp hg)⟩
  | holding lo hi => exact hheld lo hi hp
  | publishing n hi =>
    refine ⟨hheld n hi hp.1, ?_⟩
    intro s hs hs'
    obtain ⟨-, -, -, hlog⟩ := hmine s (hp.1 s hs hs').1
    rw [hlog]
    exact hp.2 s hs hs'

omit [DecidableEq C] [DecidableEq X] in
/-- What a consumer knows stays known. -/
lemma ConsumerHolds.mono (hc : ConsumerHolds barriers c k r)
    (hr : Relies (.consumer c) r r') : ConsumerHolds barriers c k r' := by
  obtain ⟨hown, hvalues, hpublished⟩ := hr
  unfold ConsumerHolds at hc ⊢
  rw [hown]
  refine hc.mono (fun _ _ => trivial) (fun s hs => (hpublished s hs).1) (fun i _ => hvalues i) ?_
  intro s hs
  obtain ⟨hs', hlog⟩ := hpublished s hs
  exact ⟨hs', congrArg (Option.map Prod.snd) hlog⟩

/-- The proof outline of the ring. -/
def outline (b : BufferSize) (barriers : C → Barrier (C ⊕ X)) (sequences : List (Option (C ⊕ X)))
    (hl : ∀ c, some (.inl c) ∈ sequences) : (pool (P := P) (V := V) barriers).Outline where
  inv := RingInvariant b sequences
  assertion := Knows sequences barriers
  rely := Relies
  step_inv := by
    intro t r l a r' l' h hk hs
    cases t with
    | producer p => exact producerStep_invariant h hl hk hs
    | consumer c => exact consumerStep_invariant h hl hk hs
    | other x =>
      obtain ⟨hle, rfl⟩ := advanceStep_cases hs
      exact h.advance hle
  step_assertion := by
    intro t r l a r' l' h hk hs
    cases t with
    | producer p => exact producerStep_holds h hk hs
    | consumer c => exact consumerStep_holds h hl hk hs
    | other x => trivial
  step_rely := by
    intro t r l a r' l' h hk hs u hu
    cases t with
    | producer p => exact producerStep_relies h hk hs u hu
    | consumer c => exact consumerStep_relies hk hs u hu
    | other x =>
      obtain ⟨hle, rfl⟩ := advanceStep_cases hs
      exact relies_update hle u fun c _ => by simp
  stable := by
    intro t l r r' _ _ hk hr
    cases t with
    | producer p => exact ProducerHolds.mono hk hr
    | consumer c => exact ConsumerHolds.mono hk hr
    | other x => trivial

/-- A new ring satisfies the outline. -/
lemma outline_initial (b : BufferSize) (entries : Int → V) (values : C ⊕ X → Int)
    (barriers : C → Barrier (C ⊕ X)) (sequences : List (Option (C ⊕ X)))
    (hl : ∀ c, some (.inl c) ∈ sequences) [DecidableEq P] :
    (outline (P := P) b barriers sequences hl).Holds (initial b entries values sequences) := by
  have hvalues : ∀ i, some i ∈ sequences →
      (initialRing (P := P) b entries values sequences).values i = INITIAL_VALUE := by
    intro i hi
    have h := Gating.addGatingSequences_values ({} : Gating (C ⊕ X)) values INITIAL_VALUE
      sequences i
    rw [if_pos hi] at h
    exact h
  have hsize := b.size_pos
  constructor
  · refine ⟨rfl, ⟨⟨rfl, ?_⟩, fun i hi => (hvalues i hi).ge⟩, fun c => (hvalues _ (hl c)).ge, le_rfl,
      ?_, ?_, ?_, ?_, List.Pairwise.nil, ?_, ?_, ?_, ?_, ?_⟩
    · rintro snap ⟨⟩
    · rintro s p ⟨⟩
    · rintro g ⟨⟩
    · rintro g ⟨⟩
    · rintro g ⟨⟩
    · rintro s ⟨⟩
    · rintro s p v ⟨⟩
    · intro c s hs hs'
      change s ≤ (initialRing (P := P) b entries values sequences).values (.inl c) at hs'
      rw [hvalues _ (hl c)] at hs'
      simp only [INITIAL_VALUE] at hs'
      omega
    · intro c
      show FlagsAbove _ _ ((initialRing (P := P) b entries values sequences).values (.inl c))
      rw [hvalues _ (hl c)]
      exact flagsAbove_initial b _
    · rintro c s v - - ⟨⟩
  · intro t
    cases t with
    | producer p => trivial
    | consumer c =>
      constructor
      · show (0 : Int) =
          (initialRing (P := P) b entries values sequences).values (.inl c) + 1
        rw [hvalues _ (hl c)]
        rfl
      · intro i q hq
        simp [initial, initialLocal] at hq
    | other x => trivial

end

/-! ### Safety -/

/-- The multi-producer ring is safe under every interleaving. The ranges that are handed out are
pairwise disjoint; each of them is within a lap of every gating sequence; and a consumer reads
`0, 1, 2, …`, each when it is published, and gets what its producer wrote. -/
theorem multiProducer_safe [DecidableEq P] [DecidableEq C] [DecidableEq X] (b : BufferSize)
    (entries : Int → V) (values : C ⊕ X → Int) (barriers : C → Barrier (C ⊕ X))
    (sequences : List (Option (C ⊕ X))) (hl : ∀ c, some (.inl c) ∈ sequences)
    (as : List (Σ t, Action P C X V t))
    (cfg : ThreadPool.Config (Ring P C X V) (Local P C X V))
    (h : run (pool barriers).next (initial b entries values sequences) as = some cfg) :
    (cfg.shared.granted.Pairwise fun g g' => ∀ s, g.Covers s → ¬ g'.Covers s) ∧
      (∀ g ∈ cfg.shared.granted, g.lo ≤ g.hi ∧
        ∀ i, some i ∈ sequences → g.hi - b.size ≤ cfg.shared.values i) ∧
      ∀ c,
        (∀ (i : Nat) q, (cfg.threads (.consumer c)).reads[i]? = some q → q.1 = i) ∧
        ∀ s v, (s, v) ∈ (cfg.threads (.consumer c)).reads →
          cfg.shared.published s = true ∧
            ∃ g ∈ cfg.shared.granted, g.Covers s ∧ cfg.shared.log s = some (g.producer, v) := by
  have hholds := (outline_initial (P := P) b entries values barriers sequences hl).run h
  have hshared := hholds.shared
  refine ⟨hshared.granted_disjoint, ?_, ?_⟩
  · intro g hg
    refine ⟨hshared.granted_le g hg, ?_⟩
    intro i hi
    have hroom := hshared.granted_room g hg i hi
    rwa [getBufferSize, hshared.size] at hroom
  · intro c
    obtain ⟨next, -, hreads⟩ := Consumer.Holds.readsInOrder (hholds.threads (.consumer c))
    refine ⟨fun i q hq => (hreads i q hq).1, ?_⟩
    intro s v hmem
    obtain ⟨i, hi⟩ := List.mem_iff_getElem?.mp hmem
    obtain ⟨-, hpublished, hrecorded⟩ := hreads i (s, v) hi
    refine ⟨hpublished, ?_⟩
    obtain ⟨⟨p, w⟩, hlog, hw⟩ := Option.map_eq_some_iff.mp hrecorded
    obtain rfl : w = v := hw
    -- the writer is the one that the range was handed out to
    obtain ⟨howner, g, hg, hcovers⟩ := hshared.log_owned s p w hlog
    have hproducer := hshared.granted_owned g hg s hcovers
    obtain rfl := Option.some.inj (howner.symm.trans hproducer)
    exact ⟨g, hg, hcovers, hlog⟩

/-- Two producers of a ring of two slots: the one that claims second publishes first. -/
def overtaken : List (Σ t, Action Bool Unit Empty Int t) :=
  [⟨.producer true, .call (.next 1)⟩, ⟨.producer true, .proceed false⟩,
    ⟨.producer false, .call (.next 1)⟩, ⟨.producer false, .proceed false⟩,
    ⟨.producer false, .proceed false⟩, ⟨.producer false, .write 1 8⟩,
    ⟨.producer false, .publish⟩, ⟨.producer false, .publish⟩,
    ⟨.producer true, .proceed false⟩, ⟨.producer true, .write 0 7⟩,
    ⟨.producer true, .publish⟩, ⟨.producer true, .publish⟩] ++
  List.replicate 8 ⟨.consumer (), .proceed⟩

theorem multiProducer_safe_overtaken :
    ∃ cfg, run (pool fun _ => ⟨.BusySpin, []⟩).next
        (initial ⟨1, by decide⟩ (fun _ => 0) (fun _ => -1) [some (.inl ())]) overtaken = some cfg ∧
      (cfg.threads (.consumer ())).reads = [(0, 7), (1, 8)] ∧
      ∃ g ∈ cfg.shared.granted, g.Covers 0 ∧ cfg.shared.log 0 = some (g.producer, 7) := by
  refine ⟨_, rfl, rfl, ?_⟩
  exact (((multiProducer_safe ⟨1, by decide⟩ (fun _ => 0) (fun _ => -1)
    (fun _ => ⟨.BusySpin, []⟩) [some (.inl ())] (by simp) overtaken _ rfl).2.2 ()).2 0 7
    List.mem_cons_self).2

end Disruptor.MultiProducerRing
