import Disruptor.Sequencer.MultiProducer.Availability

/-!
# `tryPublishEvent` among threads

`tryPublishEvent` and `tryPublishEvents` ask `hasAvailableCapacity(n)` and then call `next(n)`,
which takes `n` sequences off the cursor and waits until there is room for them. Any number of
threads do so, beside others that call `publishEvent` or `publishEvents`. The overloads of a call
differ in what they hand to the translator.
-/

namespace Disruptor.TryPublish

open Disruptor.Core MultiProducerSequencer

variable {P ι : Type}

/-- The publishing calls. -/
inductive Entry where
  | publishEvent
  | tryPublishEvent
  | publishEvents (batchSize : Int)
  | tryPublishEvents (batchSize : Int)

namespace Entry

/-- The argument of `hasAvailableCapacity` and `next`. -/
def batchSize : Entry → Int
  | .publishEvent | .tryPublishEvent => 1
  | .publishEvents batchSize | .tryPublishEvents batchSize => batchSize

/-- The call gives up when there is no capacity. -/
def tries : Entry → Bool
  | .publishEvent | .publishEvents _ => false
  | .tryPublishEvent | .tryPublishEvents _ => true

end Entry

/-- Where a publishing call is. -/
inductive Pc (ι : Type) where
  /-- In `hasAvailableCapacity`, before `gatingSequences_.load()`. -/
  | load
  /-- In `hasAvailableCapacity`, before `cursor_.get()`. -/
  | readCursor (gatingSequences : Snapshot ι)
  | capacity (cursorValue : Int) (call : CapacityCall ι)
  /-- Before `next(n)` is called. -/
  | callNext
  | next (call : ClaimCall ι)
  /-- The claim was granted: the translators are applied, and the sequences published. -/
  | publishing

/-- A call in progress, with the range that it has taken off the cursor. -/
structure Call (ι : Type) where
  entry : Entry
  pc : Pc ι
  claimed : Option (Int × Int) := none

/-- A call that has returned. -/
structure Returned where
  entry : Entry
  result : Bool
  claimed : Option (Int × Int)

/-- What the threads share, and the calls that have returned. -/
structure Shared (ι : Type) where
  ring : Availability.Shared ι
  returned : List Returned := []

inductive PublisherAction where
  | call (entry : Entry)
  | proceed
  /-- Store the flag of one sequence of the claim. -/
  | setAvailable (sequence : Int)
  /-- Leave the call, by an exception or after all is published. -/
  | leave (thrown : Bool)

namespace Shared

/-- A call returns. -/
def returns (s : Shared ι) (c : Call ι) (result : Bool) : Shared ι :=
  { s with returned := ⟨c.entry, result, c.claimed⟩ :: s.returned }

/-- The sequencer after a step. -/
def setSequencer (s : Shared ι) (m : MultiProducerSequencer ι) : Shared ι :=
  { s with ring := { s.ring with sequencer := m } }

end Shared

/-- One step of a publisher. A batch of none returns at once, and one that `next` rejects ends with
an exception. -/
def publisherStep (s : Shared ι) (l : Option (Call ι)) (a : PublisherAction) :
    Option (Shared ι × Option (Call ι)) :=
  match l, a with
  | none, .call entry =>
    if entry.batchSize = 0 then some (s.returns ⟨entry, .callNext, none⟩ true, none)
    else some (s, some { entry := entry, pc := if entry.tries then .load else .callNext })
  | some c, .proceed =>
    match c.pc with
    | .load => some (s, some { c with pc := .readCursor s.ring.sequencer.gating.gatingSequences })
    | .readCursor snap =>
      some (s, some { c with pc := .capacity s.ring.sequencer.cursor (.readCache snap) })
    | .capacity cursorValue call =>
      match s.ring.sequencer.capacityStep s.ring.values c.entry.batchSize cursorValue call with
      | (.inl call', m) =>
        some (s.setSequencer m, some { c with pc := .capacity cursorValue call' })
      | (.inr true, m) => some (s.setSequencer m, some { c with pc := .callNext })
      | (.inr false, m) => some ((s.setSequencer m).returns c false, none)
    | .callNext =>
      match s.ring.sequencer.enter (.next c.entry.batchSize) with
      | .running call => some (s, some { c with pc := .next call })
      | _ => some (s, none)
    | .next call =>
      let r := s.ring.sequencer.callStep s.ring.values false call
      match r.1 with
      | .running call' =>
        some ({ s with ring := s.ring.after r },
          some { c with pc := .next call', claimed := call'.taken })
      | .claimed lo hi =>
        some ({ s with ring := s.ring.after r },
          some { c with pc := .publishing, claimed := some (lo, hi) })
      | .ended => some ({ s with ring := s.ring.after r }, none)
    | .publishing => none
  | some ⟨entry, .publishing, some (lo, hi)⟩, .setAvailable sequence =>
    if lo ≤ sequence ∧ sequence ≤ hi ∧ s.ring.published sequence = false then
      some ({ s with ring := s.ring.setAvailable sequence },
        some ⟨entry, .publishing, some (lo, hi)⟩)
    else none
  | some ⟨entry, .publishing, claimed⟩, .leave thrown =>
    some (if thrown then s else s.returns ⟨entry, .publishing, claimed⟩ true, none)
  | _, _ => none

/-- A gating sequence advances over published sequences. -/
def gatingStep [DecidableEq ι] (i : ι) (s : Shared ι) (v : Int) : Option (Shared ι × Unit) :=
  (Availability.gatingStep i s.ring v).map fun r => ({ s with ring := r.1 }, ())

inductive Thread (P ι : Type) where
  | publisher (p : P)
  | gating (i : ι)
  deriving DecidableEq

abbrev Local (P ι : Type) : Thread P ι → Type
  | .publisher _ => Option (Call ι)
  | .gating _ => Unit

abbrev Action (P ι : Type) : Thread P ι → Type
  | .publisher _ => PublisherAction
  | .gating _ => Int

def pool (P ι : Type) [DecidableEq ι] :
    ThreadPool (Thread P ι) (Shared ι) (Local P ι) (Action P ι) where
  step
    | .publisher _ => publisherStep
    | .gating i => fun s _ v => gatingStep i s v

abbrev Config (P ι : Type) := ThreadPool.Config (Shared ι) (Local P ι)

/-- A new sequencer to which the gating sequences have been added. -/
def initial [DecidableEq ι] (b : BufferSize) (values : ι → Int) (sequences : List (Option ι)) :
    Config P ι where
  shared := { ring := (Availability.initial (P := P) b values sequences).shared }
  threads
    | .publisher _ => none
    | .gating _ => ()

/-! ### What is claimed -/

/-- A call that tries and has returned `false` has claimed nothing. -/
def FalseClaimsNothing (s : Shared ι) : Prop :=
  ∀ r ∈ s.returned, r.entry.tries = true → r.result = false → r.claimed = none

/-- The call is one of `next`. -/
def OfNext : ClaimCall ι → Prop
  | .nextAdd _ | .nextReadCache _ _ | .nextWait _ _ _ | .nextStoreCache _ _ _ => True
  | _ => False

/-- What a call knows. -/
def Call.Knows (c : Call ι) (sequences : List (Option ι)) (s : Shared ι) : Prop :=
  match c.pc with
  | .load | .callNext => c.claimed = none
  | .readCursor snap => c.claimed = none ∧ snap.sequences = sequences
  | .capacity _ call => c.claimed = none ∧ call.Knows s.ring.values sequences
  | .next call => c.claimed = call.taken ∧ OfNext call ∧
      call.Knows s.ring.sequencer s.ring.values sequences
  | .publishing => True

/-- What a publisher knows. -/
def PublisherHolds (sequences : List (Option ι)) (l : Option (Call ι)) (s : Shared ι) : Prop :=
  ∀ c, l = some c → c.Knows sequences s

/-- What every shared state satisfies. -/
structure Shared.Inv (sequences : List (Option ι)) (s : Shared ι) : Prop where
  safe : s.ring.sequencer.Safe s.ring.values sequences
  falseClaimsNothing : FalseClaimsNothing s

variable {b : BufferSize} {sequences : List (Option ι)} {s s' : Shared ι}
  {l l' : Option (Call ι)} {a : PublisherAction} {c : Call ι}

lemma PublisherHolds.stable (h : PublisherHolds sequences l s)
    (hrely : Availability.Rely s.ring s'.ring) : PublisherHolds sequences l s' := by
  intro c hc
  have hknows := h c hc
  unfold Call.Knows at hknows ⊢
  cases hpc : c.pc with
  | load | callNext | readCursor snap | publishing =>
    rw [hpc] at hknows
    exact hknows
  | capacity cursorValue call =>
    rw [hpc] at hknows
    exact ⟨hknows.1, hknows.2.mono hrely.values⟩
  | next call =>
    rw [hpc] at hknows
    exact ⟨hknows.1, hknows.2.1, hknows.2.2.mono hrely.bufferSize hrely.values⟩

lemma FalseClaimsNothing.returns (h : FalseClaimsNothing s) {result : Bool}
    (hc : result = false → c.claimed = none) : FalseClaimsNothing (s.returns c result) := by
  intro r hr _ hfalse
  rcases List.mem_cons.mp hr with rfl | hr
  · exact hc hfalse
  · exact h r hr ‹_› hfalse

/-- `next` goes on as `next`. -/
lemma OfNext.callStep {m : MultiProducerSequencer ι} {values : ι → Int} {call call' : ClaimCall ι}
    (h : OfNext call) (hs : (m.callStep values false call).1 = .running call') : OfNext call' := by
  cases call with
  | nextAdd n =>
    obtain rfl := ClaimResult.running.inj hs
    trivial
  | nextReadCache n current =>
    simp only [MultiProducerSequencer.callStep] at hs
    split_ifs at hs
    obtain rfl := ClaimResult.running.inj hs
    trivial
  | nextWait n current call =>
    simp only [MultiProducerSequencer.callStep] at hs
    split at hs
    · obtain rfl := ClaimResult.running.inj hs
      trivial
    · split_ifs at hs
      · obtain rfl := ClaimResult.running.inj hs
        trivial
      · obtain rfl := ClaimResult.running.inj hs
        trivial
  | nextStoreCache n current gatingSequence => cases hs
  | _ => exact absurd h id

/-- What a step of a thread does. -/
structure StepSound (sequences : List (Option ι)) (s s' : Shared ι) (l' : Option (Call ι)) :
    Prop where
  inv : s'.Inv sequences
  holds : PublisherHolds sequences l' s'
  rely : Availability.Rely s.ring s'.ring

lemma holds_none : PublisherHolds sequences none s := by
  rintro c ⟨⟩

lemma holds_some (h : c.Knows sequences s) : PublisherHolds sequences (some c) s := by
  rintro _ ⟨⟩
  exact h

/-- A step of `hasAvailableCapacity` changes the cached gating value only. -/
lemma StepSound.setSequencer (h : s.Inv sequences) {m : MultiProducerSequencer ι}
    (hsafe : m.Safe s.ring.values sequences) (hsize : m.bufferSize = s.ring.sequencer.bufferSize)
    (hl : PublisherHolds sequences l' (s.setSequencer m)) :
    StepSound sequences s (s.setSequencer m) l' :=
  ⟨⟨hsafe, h.falseClaimsNothing⟩, hl, hsize, fun _ => le_rfl⟩

/-- A step inside a call. -/
lemma proceed_sound (h : s.Inv sequences) (hknows : c.Knows sequences s)
    (hs : publisherStep s (some c) .proceed = some (s', l')) : StepSound sequences s s' l' := by
  obtain ⟨entry, pc, claimed⟩ := c
  simp only [publisherStep] at hs
  cases pc with
  | load =>
    obtain ⟨rfl, rfl⟩ := Prod.mk.inj (Option.some.inj hs)
    exact ⟨h, holds_some ⟨hknows, h.safe.gating.current⟩, rfl, fun _ => le_rfl⟩
  | readCursor snap =>
    obtain ⟨rfl, rfl⟩ := Prod.mk.inj (Option.some.inj hs)
    exact ⟨h, holds_some hknows, rfl, fun _ => le_rfl⟩
  | capacity cursorValue call =>
    obtain ⟨hnone, hcall⟩ := hknows
    simp only at hs
    split at hs
    · rename_i call' m hstep
      obtain ⟨rfl, rfl⟩ := Prod.mk.inj (Option.some.inj hs)
      obtain ⟨hsafe, -, hsize, -, hgo, -⟩ := h.safe.capacityStep hcall hstep
      exact .setSequencer h hsafe hsize (holds_some ⟨hnone, hgo call' rfl⟩)
    · rename_i m hstep
      obtain ⟨rfl, rfl⟩ := Prod.mk.inj (Option.some.inj hs)
      obtain ⟨hsafe, -, hsize, -, -, -⟩ := h.safe.capacityStep hcall hstep
      exact .setSequencer h hsafe hsize (holds_some hnone)
    · -- the call returns `false`
      rename_i m hstep
      obtain ⟨rfl, rfl⟩ := Prod.mk.inj (Option.some.inj hs)
      obtain ⟨hsafe, -, hsize, -, -, -⟩ := h.safe.capacityStep hcall hstep
      have hreturns : FalseClaimsNothing (s.setSequencer m) := h.falseClaimsNothing
      exact ⟨⟨hsafe, hreturns.returns fun _ => hnone⟩, holds_none, hsize, fun _ => le_rfl⟩
  | callNext =>
    simp only at hs
    split at hs
    · rename_i call henter
      obtain ⟨rfl, rfl⟩ := Prod.mk.inj (Option.some.inj hs)
      have hsound : Sound s.ring.sequencer s.ring.sequencer s.ring.values sequences none
          (.running call) := henter ▸ enter_sound
      refine ⟨h, holds_some ⟨?_, ?_, hsound.1⟩, rfl, fun _ => le_rfl⟩
      · rcases hsound.2 with ⟨-, htaken⟩ | ⟨-, hlt, -⟩
        · exact Eq.trans hknows htaken.symm
        · exact absurd hlt (lt_irrefl _)
      · simp only [enter] at henter
        split_ifs at henter
        obtain rfl := ClaimResult.running.inj henter
        trivial
    · obtain ⟨rfl, rfl⟩ := Prod.mk.inj (Option.some.inj hs)
      exact ⟨h, holds_none, rfl, fun _ => le_rfl⟩
  | next call =>
    have hstep : s.ring.sequencer.callStep s.ring.values false call =
        ((s.ring.sequencer.callStep s.ring.values false call).1,
          (s.ring.sequencer.callStep s.ring.values false call).2) := rfl
    obtain ⟨hsafe, hsound, hsize, -⟩ := h.safe.callStep hknows.2.2 hstep
    simp only at hs
    split at hs
    · rename_i call' hresult
      obtain ⟨rfl, rfl⟩ := Prod.mk.inj (Option.some.inj hs)
      rw [hresult] at hsound
      exact ⟨⟨hsafe, h.falseClaimsNothing⟩,
        holds_some ⟨rfl, hknows.2.1.callStep hresult, hsound.1⟩, hsize, fun _ => le_rfl⟩
    · obtain ⟨rfl, rfl⟩ := Prod.mk.inj (Option.some.inj hs)
      exact ⟨⟨hsafe, h.falseClaimsNothing⟩, holds_some trivial, hsize, fun _ => le_rfl⟩
    · obtain ⟨rfl, rfl⟩ := Prod.mk.inj (Option.some.inj hs)
      exact ⟨⟨hsafe, h.falseClaimsNothing⟩, holds_none, hsize, fun _ => le_rfl⟩
  | publishing => cases hs

/-- A step of a publisher. -/
lemma publisherStep_sound (h : s.Inv sequences) (hl : PublisherHolds sequences l s)
    (hs : publisherStep s l a = some (s', l')) : StepSound sequences s s' l' := by
  cases a with
  | call entry =>
    cases l with
    | none =>
      simp only [publisherStep] at hs
      split_ifs at hs with hzero htries
      · obtain ⟨rfl, rfl⟩ := Prod.mk.inj (Option.some.inj hs)
        exact ⟨⟨h.safe, h.falseClaimsNothing.returns (by rintro ⟨⟩)⟩, holds_none, rfl,
          fun _ => le_rfl⟩
      · obtain ⟨rfl, rfl⟩ := Prod.mk.inj (Option.some.inj hs)
        exact ⟨h, holds_some rfl, rfl, fun _ => le_rfl⟩
      · obtain ⟨rfl, rfl⟩ := Prod.mk.inj (Option.some.inj hs)
        exact ⟨h, holds_some rfl, rfl, fun _ => le_rfl⟩
    | some c => cases hs
  | proceed =>
    cases l with
    | none => cases hs
    | some c => exact proceed_sound h (hl c rfl) hs
  | setAvailable sequence =>
    unfold publisherStep at hs
    split at hs
    · rename_i heq
      cases heq
    · rename_i heq
      cases heq
    · split_ifs at hs
      obtain ⟨rfl, rfl⟩ := Prod.mk.inj (Option.some.inj hs)
      exact ⟨⟨⟨h.safe.gating, h.safe.cached_le⟩, h.falseClaimsNothing⟩, holds_some trivial, rfl,
        fun _ => le_rfl⟩
    · rename_i heq
      cases heq
    · cases hs
  | leave thrown =>
    unfold publisherStep at hs
    split at hs
    · rename_i heq
      cases heq
    · rename_i heq
      cases heq
    · rename_i heq
      cases heq
    · obtain ⟨rfl, rfl⟩ := Prod.mk.inj (Option.some.inj hs)
      rename_i heq
      cases heq
      cases thrown with
      | true => exact ⟨h, holds_none, rfl, fun _ => le_rfl⟩
      | false =>
        exact ⟨⟨h.safe, h.falseClaimsNothing.returns (by rintro ⟨⟩)⟩, holds_none, rfl,
          fun _ => le_rfl⟩
    · cases hs

/-- A gating sequence advances. -/
lemma gatingStep_sound [DecidableEq ι] (h : s.Inv sequences) {i : ι} {v : Int} {u : Unit}
    (hs : gatingStep i s v = some (s', u)) :
    s'.Inv sequences ∧ Availability.Rely s.ring s'.ring := by
  unfold gatingStep at hs
  obtain ⟨⟨ring, u⟩, hstep, heq⟩ := Option.map_eq_some_iff.mp hs
  obtain ⟨rfl, -⟩ := Prod.mk.inj heq
  unfold Availability.gatingStep at hstep
  split_ifs at hstep with hguard
  obtain ⟨rfl, -⟩ := Prod.mk.inj (Option.some.inj hstep)
  have hvalues : ∀ j, s.ring.values j ≤ Function.update s.ring.values i v j := by
    intro j
    by_cases hj : j = i
    · subst hj
      simpa using hguard.1
    · simp [Function.update_of_ne hj]
  exact ⟨⟨h.safe.mono hvalues, h.falseClaimsNothing⟩, rfl, hvalues⟩

/-- What each thread knows. -/
def Knows (sequences : List (Option ι)) : ∀ t : Thread P ι, Local P ι t → Shared ι → Prop
  | .publisher _ => PublisherHolds sequences
  | .gating _ => fun _ _ => True

/-- The proof outline. -/
def outline (P : Type) [DecidableEq ι] (sequences : List (Option ι)) : (pool P ι).Outline where
  inv := Shared.Inv sequences
  assertion := Knows sequences
  rely _ s s' := Availability.Rely s.ring s'.ring
  step_inv := by
    intro t s l a s' l' h hl hs
    cases t with
    | publisher p => exact (publisherStep_sound h hl hs).inv
    | gating i => exact (gatingStep_sound h hs).1
  step_assertion := by
    intro t s l a s' l' h hl hs
    cases t with
    | publisher p => exact (publisherStep_sound h hl hs).holds
    | gating i => trivial
  step_rely := by
    intro t s l a s' l' h hl hs u hu
    cases t with
    | publisher p => exact (publisherStep_sound h hl hs).rely
    | gating i => exact (gatingStep_sound h hs).2
  stable := by
    intro t l s s' _ _ hl hrely
    cases t with
    | publisher p => exact PublisherHolds.stable hl hrely
    | gating i => trivial

lemma outline_initial [DecidableEq ι] (b : BufferSize) (values : ι → Int)
    (sequences : List (Option ι)) :
    (outline P sequences).Holds (initial b values sequences) := by
  have hholds := (Availability.outline_initial (P := P) b values sequences).shared
  refine ⟨⟨hholds.safe, by rintro r ⟨⟩⟩, ?_⟩
  intro t
  cases t with
  | publisher p => exact holds_none
  | gating i => trivial

end Disruptor.TryPublish
