import Disruptor.Core.Run
import Disruptor.RingBuffer.Basic

/-!
# What publishing calls leave behind

A call of `publishEvents` publishes all that it claimed, whatever its translators do. A call that
publishes a single event does not when its translator throws, and then no sequence after the
claimed one is visible to the consumers of a multi-producer ring.
-/

namespace Disruptor.RingBuffer

open Disruptor.Core

variable {E ε ι : Type}

/-- A call of one of the publishing entry points. -/
inductive Call (E ε : Type) : Type 1 where
  | publishEvent (translator : EventTranslator E ε)
  | tryPublishEvent (translator : EventTranslator E ε)
  | publishEventVararg {V : Type} (translator : EventTranslatorVararg E V ε) (args : List V)
  | tryPublishEventVararg {V : Type} (translator : EventTranslatorVararg E V ε) (args : List V)
  | publishEventOneArg {A : Type} (translator : EventTranslatorOneArg E A ε) (arg0 : A)
  | tryPublishEventOneArg {A : Type} (translator : EventTranslatorOneArg E A ε) (arg0 : A)
  | publishEventTwoArg {A B : Type} (translator : EventTranslatorTwoArg E A B ε) (arg0 : A)
      (arg1 : B)
  | tryPublishEventTwoArg {A B : Type} (translator : EventTranslatorTwoArg E A B ε) (arg0 : A)
      (arg1 : B)
  | publishEventThreeArg {A B C : Type} (translator : EventTranslatorThreeArg E A B C ε)
      (arg0 : A) (arg1 : B) (arg2 : C)
  | tryPublishEventThreeArg {A B C : Type} (translator : EventTranslatorThreeArg E A B C ε)
      (arg0 : A) (arg1 : B) (arg2 : C)
  | publishEvents (translators : List (Option (EventTranslator E ε)))
  | publishEventsBatch (translators : List (Option (EventTranslator E ε)))
      (batchStartsAt batchSize : Int)
  | tryPublishEvents (translators : List (Option (EventTranslator E ε)))
  | tryPublishEventsBatch (translators : List (Option (EventTranslator E ε)))
      (batchStartsAt batchSize : Int)

/-- Make the call. -/
def Call.perform (rb : RingBuffer E ι) (values : ι → Int) (passes : List (ι → Int)) :
    Call E ε → Outcome ε (RingBuffer E ι × (ι → Int))
  | .publishEvent t => rb.publishEvent values passes t
  | .tryPublishEvent t => rb.tryPublishEvent values passes t
  | .publishEventVararg t args => rb.publishEventVararg values passes t args
  | .tryPublishEventVararg t args => rb.tryPublishEventVararg values passes t args
  | .publishEventOneArg t a => rb.publishEventOneArg values passes t a
  | .tryPublishEventOneArg t a => rb.tryPublishEventOneArg values passes t a
  | .publishEventTwoArg t a b => rb.publishEventTwoArg values passes t a b
  | .tryPublishEventTwoArg t a b => rb.tryPublishEventTwoArg values passes t a b
  | .publishEventThreeArg t a b c => rb.publishEventThreeArg values passes t a b c
  | .tryPublishEventThreeArg t a b c => rb.tryPublishEventThreeArg values passes t a b c
  | .publishEvents ts => rb.publishEvents values passes ts
  | .publishEventsBatch ts start size => rb.publishEventsBatch values passes ts start size
  | .tryPublishEvents ts => rb.tryPublishEvents values passes ts
  | .tryPublishEventsBatch ts start size => rb.tryPublishEventsBatch values passes ts start size

/-- The translator of a call that publishes a single event, with its arguments. -/
def Call.singleEvent : Call E ε → Option (Int → Invocation E ε)
  | .publishEvent t | .tryPublishEvent t => some t
  | .publishEventVararg t args | .tryPublishEventVararg t args => some fun s => t s args
  | .publishEventOneArg t a | .tryPublishEventOneArg t a => some fun s => t s a
  | .publishEventTwoArg t a b | .tryPublishEventTwoArg t a b => some fun s => t s a b
  | .publishEventThreeArg t a b c | .tryPublishEventThreeArg t a b c => some fun s => t s a b c
  | _ => none

/-- The call gives up when there is no capacity. -/
def Call.tries : Call E ε → Bool
  | .tryPublishEvent .. | .tryPublishEventVararg .. | .tryPublishEventOneArg ..
  | .tryPublishEventTwoArg .. | .tryPublishEventThreeArg .. | .tryPublishEvents ..
  | .tryPublishEventsBatch .. => true
  | _ => false

/-- The sequence was handed out by `next`. -/
def Claimed (rb : RingBuffer E ι) (s : Int) : Prop := ∃ r ∈ rb.claims, r.1 ≤ s ∧ s ≤ r.2

/-- The sequence was passed to `publish`. -/
def Published (rb : RingBuffer E ι) (s : Int) : Prop :=
  ∃ r ∈ rb.publications, r.1 ≤ s ∧ s ≤ r.2

/-- All that was claimed has been published, and nothing of it is hidden from the consumers. -/
structure Settled (rb : RingBuffer E ι) : Prop where
  published : ∀ s, rb.Claimed s → rb.Published s
  allVisible : rb.sequencer.AllVisible

/-- The ring and the values of the gating sequences. -/
abbrev State (E ι : Type) := RingBuffer E ι × (ι → Int)

/-- A publishing call, with what the gating sequences are while it waits, or a move of the gating
sequences between the calls. -/
inductive Action (E ε ι : Type) : Type 1 where
  | call (c : Call E ε) (passes : List (ι → Int))
  | advance (values : ι → Int)

/-- A call that exits, or a move of the gating sequences. -/
def step (st : State E ι) : Action E ε ι → Option (State E ι)
  | .call c passes =>
    match c.perform st.1 st.2 passes with
    | .exited _ after => some after
    | _ => none
  | .advance values => some (st.1, values)

/-- The call published all that it claimed. -/
def PublishesItsClaims (x : Transition (State E ι) (Action E ε ι)) : Prop :=
  ∀ s, x.post.1.Claimed s → ¬ x.pre.1.Claimed s → x.post.1.Published s

/-- The call is for a single event, there is capacity for it, and its translator throws on the
next sequence. -/
def SingleEventThrows (st : State E ι) : Action E ε ι → Prop
  | .call c _ =>
    ∃ translateTo, c.singleEvent = some translateTo ∧
      (c.tries = true → (st.1.hasAvailableCapacity 1 st.2).1 = true) ∧
      (translateTo (st.1.sequencer.claimed + 1)).thrown.isSome = true
  | .advance _ => False

/-! ### One call -/

/-- The invariant of a ring on which every call has published its claims. -/
structure Invariant (rb : RingBuffer E ι) : Prop where
  published : ∀ s, rb.Claimed s → rb.Published s
  complete : rb.sequencer.Complete
  claims_le : ∀ r ∈ rb.claims, r.2 ≤ rb.sequencer.claimed
  publications_le : ∀ r ∈ rb.publications, r.2 ≤ rb.sequencer.claimed

variable {rb rb' : RingBuffer E ι} {n hi : Int} {values values' : ι → Int}
  {passes : List (ι → Int)} {exit : Exit ε} {translateTo : Int → Invocation E ε}

lemma Invariant.settled (h : Invariant rb) : Settled rb := ⟨h.published, h.complete.allVisible⟩

lemma Invariant.hasAvailableCapacity (h : Invariant rb) (n : Int) (values : ι → Int) :
    Invariant (rb.hasAvailableCapacity n values).2 where
  published := h.published
  complete := Sequencer.hasAvailableCapacity_complete h.complete n values
  claims_le := by simpa [RingBuffer.hasAvailableCapacity] using h.claims_le
  publications_le := by simpa [RingBuffer.hasAvailableCapacity] using h.publications_le

lemma next_ok (h : rb.next n values passes = some (.ok hi, values', rb')) :
    ∃ q, rb.sequencer.next n values passes = some (.ok hi, values', q) ∧
      rb' = { rb with sequencer := q, claims := (hi - n + 1, hi) :: rb.claims } := by
  simp only [next, Option.map_eq_some_iff] at h
  obtain ⟨⟨r, v, q⟩, hq, heq⟩ := h
  cases r with
  | error e => simp at heq
  | ok hi' =>
    simp only [Prod.mk.injEq, Except.ok.injEq] at heq
    obtain ⟨rfl, rfl, rfl⟩ := heq
    exact ⟨q, hq, rfl⟩

lemma next_error {e : String} (h : rb.next n values passes = some (.error e, values', rb')) :
    (n < 1 ∨ n > rb.sequencer.bufferSize.size) ∧ rb' = rb := by
  simp only [next, Option.map_eq_some_iff] at h
  obtain ⟨⟨r, v, q⟩, hq, heq⟩ := h
  cases r with
  | ok hi => simp at heq
  | error e' =>
    simp only [Prod.mk.injEq, Except.error.injEq] at heq
    obtain ⟨rfl, rfl, rfl⟩ := heq
    obtain ⟨hn, rfl⟩ := Sequencer.next_error hq
    exact ⟨hn, rfl⟩

/-- A claim that is published at once, whatever was written in between. -/
lemma Invariant.publishRange (h : Invariant rb)
    (hn : rb.next n values passes = some (.ok hi, values', rb')) (entries : Int → E) :
    Invariant ({ rb' with entries := entries }.publishRange (hi - n + 1) hi) := by
  obtain ⟨q, hq, rfl⟩ := next_ok hn
  obtain ⟨hpos, hhi, hclaimed⟩ := Sequencer.next_ok hq
  refine ⟨?_, h.complete.publishRange_next hq, ?_, ?_⟩
  · rintro s ⟨r, hr, hs⟩
    rcases List.mem_cons.mp hr with rfl | hr
    · exact ⟨_, List.mem_cons_self, hs⟩
    · obtain ⟨r', hr', hs'⟩ := h.published s ⟨r, hr, hs⟩
      exact ⟨r', List.mem_cons_of_mem _ hr', hs'⟩
  · intro r hr
    simp only [RingBuffer.publishRange, Sequencer.claimed_publishRange, hclaimed]
    rcases List.mem_cons.mp hr with rfl | hr
    · exact le_rfl
    · have := h.claims_le r hr
      omega
  · intro r hr
    simp only [RingBuffer.publishRange, Sequencer.claimed_publishRange, hclaimed]
    rcases List.mem_cons.mp hr with rfl | hr
    · exact le_rfl
    · have := h.publications_le r hr
      omega

/-- Translators write to the entries only. -/
lemma translate_eq (rb : RingBuffer E ι) (sequence : Int) (i : Invocation E ε) :
    ∃ entries, rb.translate sequence i = { rb with entries := entries } := ⟨_, rfl⟩

lemma publish_eq_publishRange (rb : RingBuffer E ι) (sequence : Int) :
    rb.publish sequence = rb.publishRange sequence sequence := by
  simp [publish, publishRange, Sequencer.publishRange_self]

/-- A single event: it is published, unless its translator throws, and then its sequence is
claimed and not published. -/
lemma Invariant.publishEventWith (h : Invariant rb)
    (hx : publishEventWith translateTo rb values passes = .exited exit (rb', values')) :
    ((translateTo (rb.sequencer.claimed + 1)).thrown.isSome = false ∧ Invariant rb') ∨
      ((translateTo (rb.sequencer.claimed + 1)).thrown.isSome = true ∧
        rb'.Claimed (rb.sequencer.claimed + 1) ∧ ¬ rb.Claimed (rb.sequencer.claimed + 1) ∧
          ¬ rb'.Published (rb.sequencer.claimed + 1)) := by
  unfold RingBuffer.publishEventWith at hx
  split at hx
  · cases hx
  · rename_i hn
    obtain ⟨hbad, -⟩ := next_error hn
    have := rb.sequencer.bufferSize.size_pos
    omega
  · rename_i sequence v rb₁ hn
    obtain ⟨entries, hentries⟩ := translate_eq rb₁ sequence (translateTo sequence)
    obtain ⟨q, hq, hrb₁⟩ := next_ok hn
    obtain ⟨-, hsequence, hclaimed⟩ := Sequencer.next_ok hq
    simp only [hentries] at hx
    rw [← hsequence]
    split at hx
    · rename_i e he
      obtain ⟨-, rfl, -⟩ : _ ∧ _ ∧ _ := by simpa using hx
      refine Or.inr ⟨by simp [he], ?_, ?_, ?_⟩
      · rw [hrb₁]
        exact ⟨_, List.mem_cons_self, by simp, le_rfl⟩
      · rintro ⟨r, hr, hs⟩
        have := h.claims_le r hr
        omega
      · rw [hrb₁]
        rintro ⟨r, hr, hs⟩
        have := h.publications_le r hr
        omega
    · rename_i he
      obtain ⟨-, rfl, -⟩ : _ ∧ _ ∧ _ := by simpa using hx
      have hpub := h.publishRange hn entries
      rw [sub_add_cancel, ← publish_eq_publishRange] at hpub
      exact Or.inl ⟨by simp [he], hpub⟩

/-- The loop over a batch writes to the entries only, however it ends. -/
lemma translateBatch_eq {translators : List (Option (EventTranslator E ε))}
    {batchStartsAt initialSequence i : Int} {count : Nat}
    (hx : translateBatch translators batchStartsAt initialSequence rb i count =
      .exited exit rb') : ∃ entries, rb' = { rb with entries := entries } := by
  induction count generalizing rb i with
  | zero =>
    obtain ⟨-, rfl⟩ : _ ∧ _ := by simpa [translateBatch] using hx
    exact ⟨_, rfl⟩
  | succ count ih =>
    unfold translateBatch at hx
    split at hx
    · cases hx
    · exact ih hx
    · dsimp only at hx
      split at hx
      · obtain ⟨-, rfl⟩ : _ ∧ _ := by simpa using hx
        exact ⟨_, rfl⟩
      · obtain ⟨entries, rfl⟩ := ih hx
        exact ⟨entries, rfl⟩

/-- A batch is published, whatever its translators do. -/
lemma Invariant.publishEventsBatch (h : Invariant rb)
    {translators : List (Option (EventTranslator E ε))} {batchStartsAt batchSize : Int}
    (hx : rb.publishEventsBatch values passes translators batchStartsAt batchSize =
      .exited exit (rb', values')) : Invariant rb' := by
  unfold RingBuffer.publishEventsBatch at hx
  split_ifs at hx with hzero
  · obtain ⟨-, rfl, -⟩ : _ ∧ _ ∧ _ := by simpa using hx
    exact h
  · split at hx
    · cases hx
    · rename_i hn
      obtain ⟨-, rfl⟩ := next_error hn
      obtain ⟨-, rfl, -⟩ : _ ∧ _ ∧ _ := by simpa using hx
      exact h
    · rename_i finalSequence v rb₁ hn
      dsimp only at hx
      split at hx
      · rename_i exit' rb₂ hbatch
        obtain ⟨entries, rfl⟩ := translateBatch_eq hbatch
        obtain ⟨-, rfl, -⟩ : _ ∧ _ ∧ _ := by simpa using hx
        have hpub := h.publishRange hn entries
        rwa [sub_add] at hpub
      · cases hx
      · cases hx

/-! ### Runs of calls -/

variable {st st' : State E ι} {a : Action E ε ι}

/-- A call for a single event is one of the two shared bodies. -/
lemma perform_singleEvent {c : Call E ε} (h : c.singleEvent = some translateTo) :
    c.perform rb values passes =
      if c.tries then tryPublishEventWith translateTo rb values passes
      else RingBuffer.publishEventWith translateTo rb values passes := by
  cases c <;> simp only [Call.singleEvent, Option.some.injEq, reduceCtorEq] at h <;> subst h <;> rfl

/-- Any other call publishes all that it claims. -/
lemma Invariant.perform_batch (h : Invariant rb) {c : Call E ε} (hc : c.singleEvent = none)
    (hx : c.perform rb values passes = .exited exit (rb', values')) : Invariant rb' := by
  have htry : ∀ translators batchStartsAt batchSize,
      rb.tryPublishEventsBatch values passes translators batchStartsAt batchSize =
        .exited exit (rb', values') → Invariant rb' := by
    intro translators batchStartsAt batchSize hx
    unfold tryPublishEventsBatch at hx
    dsimp only at hx
    split_ifs at hx
    · obtain ⟨-, rfl, -⟩ : _ ∧ _ ∧ _ := by simpa using hx
      exact h
    · exact (h.hasAvailableCapacity batchSize values).publishEventsBatch hx
    · obtain ⟨-, rfl, -⟩ : _ ∧ _ ∧ _ := by simpa using hx
      exact h.hasAvailableCapacity batchSize values
  cases c with
  | publishEvents => exact h.publishEventsBatch hx
  | publishEventsBatch => exact h.publishEventsBatch hx
  | tryPublishEvents => exact htry _ _ _ hx
  | tryPublishEventsBatch => exact htry _ _ _ hx
  | _ => simp [Call.singleEvent] at hc

/-- A call for a single event: it keeps the invariant, or its translator throws and leaves a
claimed sequence unpublished. -/
lemma Invariant.perform_singleEvent (h : Invariant rb) {c : Call E ε}
    (hc : c.singleEvent = some translateTo)
    (hx : c.perform rb values passes = .exited exit (rb', values')) :
    (¬ SingleEventThrows (rb, values) (.call c passes) ∧ Invariant rb') ∨
      (SingleEventThrows (rb, values) (.call c passes) ∧
        ∃ s, rb'.Claimed s ∧ ¬ rb.Claimed s ∧ ¬ rb'.Published s) := by
  rw [RingBuffer.perform_singleEvent hc] at hx
  have hthrows : SingleEventThrows (rb, values) (.call c passes) ↔
      (c.tries = true → (rb.hasAvailableCapacity 1 values).1 = true) ∧
        (translateTo (rb.sequencer.claimed + 1)).thrown.isSome = true := by
    simp [SingleEventThrows, hc]
  rw [hthrows]
  split_ifs at hx with htries
  · unfold tryPublishEventWith at hx
    dsimp only at hx
    split_ifs at hx with hcapacity
    · have hclaimed : (rb.hasAvailableCapacity 1 values).2.sequencer.claimed =
          rb.sequencer.claimed := Sequencer.claimed_hasAvailableCapacity _ _ _
      rcases (h.hasAvailableCapacity 1 values).publishEventWith hx with
        ⟨hno, hinv⟩ | ⟨hyes, hin, hnew, hout⟩
      · rw [hclaimed] at hno
        exact Or.inl ⟨by simp [hno], hinv⟩
      · rw [hclaimed] at hyes hin hnew hout
        exact Or.inr ⟨⟨fun _ => hcapacity, hyes⟩, _, hin, hnew, hout⟩
    · obtain ⟨-, rfl, -⟩ : _ ∧ _ ∧ _ := by simpa using hx
      refine Or.inl ⟨?_, h.hasAvailableCapacity 1 values⟩
      rintro ⟨hcap, -⟩
      exact hcapacity (hcap htries)
  · rcases h.publishEventWith hx with ⟨hno, hinv⟩ | ⟨hyes, hin, hnew, hout⟩
    · exact Or.inl ⟨by simp [hno], hinv⟩
    · exact Or.inr ⟨⟨fun ht => absurd ht htries, hyes⟩, _, hin, hnew, hout⟩

/-- What a step does to a ring on which every call so far has published its claims. -/
lemma Invariant.step (h : Invariant st.1) (hs : step st a = some st') :
    (¬ SingleEventThrows st a ∧ Invariant st'.1) ∨
      (SingleEventThrows st a ∧ ∃ s, st'.1.Claimed s ∧ ¬ st.1.Claimed s ∧ ¬ st'.1.Published s) := by
  obtain ⟨rb, values⟩ := st
  cases a with
  | advance values' =>
    obtain rfl := Option.some.inj hs
    exact Or.inl ⟨id, h⟩
  | call c passes =>
    simp only [RingBuffer.step] at hs
    split at hs
    · rename_i exit after hx
      obtain rfl := Option.some.inj hs
      obtain ⟨rb', values'⟩ := after
      cases hc : c.singleEvent with
      | none =>
        refine Or.inl ⟨?_, h.perform_batch hc hx⟩
        simp [SingleEventThrows, hc]
      | some translateTo => exact h.perform_singleEvent hc hx
    · cases hs

/-- A new ring. -/
def initial (producerType : ProducerType) (b : BufferSize) (g : Gating ι) (entries : Int → E) :
    RingBuffer E ι :=
  { sequencer := .initial producerType b g, entries := entries }

lemma invariant_initial (producerType : ProducerType) (b : BufferSize) (g : Gating ι)
    (entries : Int → E) : Invariant (initial producerType b g entries) where
  published := by simp [Claimed, initial]
  complete := Sequencer.complete_initial producerType b g
  claims_le := by simp [initial]
  publications_le := by simp [initial]

/-- In a sequence of publishing calls, every call that exits has published all that it claimed,
and no gap is left between the calls, exactly when no call for a single event that gets a sequence
has its translator throw on it. -/
theorem publishes_claims_iff (producerType : ProducerType) (b : BufferSize) (g : Gating ι)
    (entries : Int → E) (values : ι → Int) (actions : List (Action E ε ι)) :
    let ts := transitions step (initial producerType b g entries, values) actions
    (∀ x ∈ ts, PublishesItsClaims x ∧ x.post.1.Settled) ↔
      ∀ x ∈ ts, ¬ SingleEventThrows x.pre x.act := by
  refine transitions_forall_iff (fun st : State E ι => Invariant st.1) ?_ ?_
    (invariant_initial producerType b g entries)
  · intro st a st' h hs hc
    rcases h.step hs with ⟨-, hinv⟩ | ⟨hthrows, -⟩
    · exact ⟨hinv, fun s hs _ => hinv.published s hs, hinv.settled⟩
    · exact absurd hthrows hc
  · rintro st a st' h hs ⟨hpublishes, -⟩ hthrows
    rcases h.step hs with ⟨hno, -⟩ | ⟨-, s, hin, hnew, hout⟩
    · exact hno hthrows
    · exact hout (hpublishes s hin hnew)

/-- One event whose translator throws, then one whose translator does not. -/
def throwThenPublish : List (Action Int String Unit) :=
  [.call (.publishEvent fun _ => ⟨id, some "Skipping"⟩) [],
    .call (.publishEvent fun sequence => ⟨fun _ => sequence, none⟩) []]

/-- The first call claims sequence `0` and does not publish it; sequence `1` is published, and a
consumer that waits for sequence `0` is still told that nothing is available. -/
theorem throwing_translator_leaves_gap :
    let ts := transitions step
      (initial .MULTI ⟨1, by decide⟩ ⟨⟨1, [some ()]⟩, none⟩ (fun _ => 0), fun _ => -1)
      throwThenPublish
    ∃ x ∈ ts, x.post.1.Claimed 0 ∧ ¬ x.post.1.Published 0 ∧ x.post.1.Published 1 ∧
      x.post.1.sequencer.getHighestPublishedSequence 0 1 = -1 := by
  refine ⟨_, List.mem_cons_of_mem _ List.mem_cons_self, ?_, ?_, ?_, by decide⟩
  · exact ⟨(0, 0), List.mem_cons_of_mem _ List.mem_cons_self, by decide, by decide⟩
  · rintro ⟨r, hr, hs⟩
    obtain rfl : r = (1, 1) := List.mem_singleton.mp hr
    exact absurd hs (by decide)
  · exact ⟨(1, 1), List.mem_cons_self, by decide, by decide⟩

end Disruptor.RingBuffer
