import Disruptor.EventPoller.Ring

/-!
# A poller completes every event once

Whatever the interleaving, and whatever the handler does at each event, as long as the cursor of a
single-producer sequencer does not show claimed sequences that are not published.
-/

namespace Disruptor.EventPoller

open Disruptor.Core

variable {P ι : Type} {b : BufferSize} {sequences : List (Option ι)} {p : EventPoller ι}
  {r r' : Ring ι}

/-! ### What every ring satisfies -/

/-- The cursor and the sequences that follow it stay at published sequences. -/
structure SingleInv (sequences : List (Option ι)) (r : SingleProducerSequencer.Publication ι) :
    Prop where
  safe : r.sequencer.Safe r.values sequences
  sound : r.Sound
  values_le : ∀ i, r.values i ≤ r.published

def Ring.Inv (b : BufferSize) (sequences : List (Option ι)) : Ring ι → Prop
  | .single r => SingleInv sequences r
  | .multi r => r.Inv b sequences

/-- What can be read is what the poller counts on. -/
lemma Ring.Inv.honest (h : r.Inv b sequences) (hown : some p.sequence ∈ sequences) :
    r.moment.Honest p.sequence := by
  cases r with
  | single r =>
    have hcursor := h.sound.cursor_le
    refine ⟨?_, ?_, by rintro isAvailable ⟨⟩⟩
    · intro _ s hs
      exact decide_eq_true (hs.trans hcursor)
    · intro _ i s hs
      exact decide_eq_true (hs.trans (h.values_le i))
  | multi r =>
    refine ⟨by rintro ⟨⟩, by rintro ⟨⟩, ?_⟩
    rintro isAvailable ⟨⟩ s hs hbelow
    have hbeyond : ∀ t, r.published t = true →
        t ≤ r.values p.sequence + r.sequencer.getBufferSize :=
      fun t ht => Availability.Shared.Inv.published_le h hown ht
    exact (h.flags p.sequence hown).isAvailable_iff_of_below hbeyond hs hbelow

/-! ### What each thread knows, and what it relies on -/

def Knows (p : EventPoller ι) (sequences : List (Option ι)) :
    ∀ t : Thread P ι, Local P ι t → Ring ι → Prop
  | .single, l, r => ∀ s, r = .single s → ∀ call, l = some call →
    call.Knows s.sequencer s.values sequences
  | .multi _, l, r => ∀ s, r = .multi s → Availability.ProducerHolds sequences l s
  | .consumer _, _, _ => True
  | .poller, l, r => l.poller.Holds p l.calledAt r.moment

def Rely (p : EventPoller ι) : Thread P ι → Ring ι → Ring ι → Prop
  | .single, r, r' => ∀ s', r' = .single s' →
    ∃ s, r = .single s ∧ s'.sequencer = s.sequencer ∧ ∀ i, s.values i ≤ s'.values i
  | .multi _, r, r' => ∀ s', r' = .multi s' → ∃ s, r = .multi s ∧ Availability.Rely s s'
  | .consumer _, _, _ => True
  | .poller, r, r' =>
    r.moment.Before r'.moment ∧ r'.moment.values p.sequence = r.moment.values p.sequence

lemma Knows.stable {t : Thread P ι} {l : Local P ι t} (h : Knows p sequences t l r)
    (hrely : Rely p t r r') : Knows p sequences t l r' := by
  cases t with
  | single =>
    intro s' hs' call hcall
    obtain ⟨s, hs, hsame, hvalues⟩ := hrely s' hs'
    rw [hsame]
    exact (h s hs call hcall).mono hvalues
  | multi q =>
    intro s' hs'
    obtain ⟨s, hs, hs''⟩ := hrely s' hs'
    exact (h s hs).stable hs''
  | consumer i => trivial
  | poller => exact h.mono hrely.1 hrely.2

/-! ### The steps -/

section

variable {s s' : SingleProducerSequencer.Publication ι}
  {l l' : Option (SingleProducerSequencer.ClaimCall ι)} {a : SingleAction}

lemma knows_callAfter {s' : SingleProducerSequencer ι} {q : SingleProducerSequencer ι}
    {values : ι → Int} {result : ClaimResult (SingleProducerSequencer.ClaimCall ι)}
    (h : SingleProducerSequencer.Sound q s' values sequences result) :
    ∀ call, callAfter result = some call → call.Knows s' values sequences := by
  intro call hcall
  cases result with
  | running call' =>
    obtain rfl := Option.some.inj hcall
    exact h.2
  | claimed lo hi => cases hcall
  | ended => cases hcall

/-- A step of the single producer. -/
lemma singleStep_sound (h : SingleInv sequences s)
    (hl : ∀ call, l = some call → call.Knows s.sequencer s.values sequences)
    (hkept : a = .proceed → fencesUnpublished s l = false)
    (hs : singleStep s l a = some (s', l')) :
    SingleInv sequences s' ∧
      (∀ call, l' = some call → call.Knows s'.sequencer s'.values sequences) ∧
      s'.values = s.values ∧ (Ring.single s).moment.Before (Ring.single s').moment := by
  have hcursor := h.sound.cursor_le
  have hpublished := h.sound.published_le
  unfold singleStep at hs
  split at hs
  · rename_i op
    obtain ⟨rfl, rfl⟩ := Prod.mk.inj (Option.some.inj hs)
    obtain ⟨hsafe, hsound, hsame, -⟩ := h.safe.enter (Eq.refl (s.sequencer.enter op))
    refine ⟨⟨hsafe, ⟨hsame.le.trans hcursor, hpublished.trans hsound.nextValue_le⟩, h.values_le⟩,
      knows_callAfter hsound, rfl, hsame.ge, fun _ => le_rfl, fun _ ht => ht⟩
  · rename_i call
    obtain ⟨rfl, rfl⟩ := Prod.mk.inj (Option.some.inj hs)
    obtain ⟨hsafe, hsound, -, -⟩ := h.safe.callStep (hl call rfl) rfl
    -- the fence stores what is published
    have hmoves : s.sequencer.cursor ≤ (s.sequencer.callStep s.values call).2.cursor ∧
        (s.sequencer.callStep s.values call).2.cursor ≤ s.published := by
      rw [SingleProducerSequencer.callStep_cursor]
      split_ifs with hfences
      · have hunpublished := hkept rfl
        simp only [fencesUnpublished, hfences, Bool.true_and, decide_eq_false_iff_not,
          not_not] at hunpublished
        omega
      · exact ⟨le_rfl, hcursor⟩
    exact ⟨⟨hsafe, ⟨hmoves.2, hpublished.trans hsound.nextValue_le⟩, h.values_le⟩,
      knows_callAfter hsound, rfl, hmoves.1, fun _ => le_rfl, fun _ ht => ht⟩
  · rename_i sequence
    simp only [SingleProducerSequencer.Publication.publishWith, Option.map_eq_some_iff,
      Option.ite_none_right_eq_some, Option.some.injEq] at hs
    obtain ⟨_, ⟨hlt, rfl⟩, heq⟩ := hs
    obtain ⟨rfl, rfl⟩ := Prod.mk.inj heq
    refine ⟨⟨h.safe.fence _, ⟨le_rfl, hlt.2⟩, fun i => (h.values_le i).trans hlt.1.le⟩,
      by rintro call ⟨⟩, rfl, hcursor.trans hlt.1.le, fun _ => le_rfl, ?_⟩
    intro t ht
    have hle : t ≤ s.published := of_decide_eq_true ht
    exact decide_eq_true (hle.trans hlt.1.le)
  · cases hs

end

section

variable {s s' : Availability.Shared ι}
  {l l' : Option (MultiProducerSequencer.ClaimCall ι)} {a : Availability.ProducerAction}

/-- What a producer of a multi-producer ring does, as a poller sees it. -/
lemma multiStep_before (h : s.Inv b sequences) (hl : Availability.ProducerHolds sequences l s)
    (hs : Availability.producerStep s l a = some (s', l')) :
    s'.values = s.values ∧ (Ring.multi s).moment.Before (Ring.multi s').moment := by
  unfold Availability.producerStep at hs
  split at hs
  · obtain ⟨rfl, rfl⟩ := Prod.mk.inj (Option.some.inj hs)
    exact ⟨rfl, le_rfl, fun _ => le_rfl, fun _ ht => ht⟩
  · rename_i call spurious
    obtain ⟨rfl, rfl⟩ := Prod.mk.inj (Option.some.inj hs)
    obtain ⟨-, hsound, -, -⟩ := h.safe.callStep (hl call rfl).1
      (Eq.refl (s.sequencer.callStep s.values spurious call))
    exact ⟨rfl, hsound.cursor_le, fun _ => le_rfl, fun _ ht => ht⟩
  · rename_i sequence
    split_ifs at hs
    obtain ⟨rfl, rfl⟩ := Prod.mk.inj (Option.some.inj hs)
    refine ⟨rfl, le_rfl, fun _ => le_rfl, ?_⟩
    intro t ht
    by_cases heq : t = sequence
    · subst heq
      simp [Ring.moment, Availability.Shared.setAvailable]
    · simpa only [Ring.moment, Availability.Shared.setAvailable, Function.update_of_ne heq]
        using ht
  · cases hs

end

section

variable [DecidableEq ι]

@[simp] lemma Ring.moment_store (own : ι) (w : Option Int) :
    (r.store own w).moment = r.moment.store own w := by
  cases r <;> cases w <;> rfl

/-- A sequence moves up over published sequences. -/
lemma Ring.Inv.store (h : r.Inv b sequences) {i : ι} {v : Int} (hle : r.moment.values i ≤ v)
    (hpublished : ∀ s, r.moment.values i < s → s ≤ v → r.moment.published s = true) :
    (r.store i (some v)).Inv b sequences ∧
      ∀ t : Thread P ι, t ≠ .poller → Rely p t r (r.store i (some v)) := by
  have hvalues := (Moment.before_store hle).values
  cases r with
  | single r =>
    refine ⟨⟨h.safe.mono hvalues, ⟨h.sound.cursor_le, h.sound.published_le⟩, ?_⟩, ?_⟩
    · intro j
      by_cases hj : j = i
      · subst hj
        have hv : v ≤ r.published := by
          by_cases hmoves : r.values j < v
          · exact of_decide_eq_true (hpublished v hmoves le_rfl)
          · exact (not_lt.mp hmoves).trans (h.values_le j)
        simpa [Moment.store] using hv
      · simp only [Moment.store, Function.update_of_ne hj]
        exact h.values_le j
    · intro t ht
      cases t with
      | single =>
        intro s' hs'
        obtain rfl := Ring.single.inj hs'
        exact ⟨r, rfl, rfl, hvalues⟩
      | multi q => rintro s' ⟨⟩
      | consumer j => trivial
      | poller => exact absurd rfl ht
  | multi r =>
    have hall : r.IsPublished (r.values i) v := by
      intro k hk
      have hlt := List.mem_range.mp hk
      exact hpublished _ (by simp only [Ring.moment]; omega) (by omega)
    obtain ⟨hinv, hrely⟩ := Availability.Shared.Inv.advance h hle hall
    refine ⟨hinv, ?_⟩
    intro t ht
    cases t with
    | single => rintro s' ⟨⟩
    | multi q =>
      intro s' hs'
      obtain rfl := Ring.multi.inj hs'
      exact ⟨r, rfl, hrely⟩
    | consumer j => trivial
    | poller => exact absurd rfl ht

/-- Another consumer moves its sequence over published sequences. -/
lemma consumerStep_cases (h : r.Inv b sequences) {i : ι} {v : Int}
    (hs : consumerStep i r v = some r') :
    r' = r.store i (some v) ∧ r.moment.values i ≤ v ∧
      ∀ s, r.moment.values i < s → s ≤ v → r.moment.published s = true := by
  cases r with
  | single r =>
    simp only [consumerStep, Option.ite_none_right_eq_some, Option.some.injEq] at hs
    obtain ⟨⟨hle, hcursor⟩, rfl⟩ := hs
    refine ⟨rfl, hle, ?_⟩
    intro s _ hs'
    exact decide_eq_true ((hs'.trans hcursor).trans h.sound.cursor_le)
  | multi r =>
    simp only [consumerStep, Option.map_eq_some_iff, Availability.gatingStep] at hs
    obtain ⟨_, hs, rfl⟩ := hs
    split_ifs at hs with hguard
    obtain rfl := Option.some.inj hs
    exact ⟨rfl, hguard.1, fun s hs hs' => hguard.2.at hs hs'⟩

/-- A step of a thread: what holds afterwards, and what the others rely on. -/
lemma threadStep_sound (hown : some p.sequence ∈ sequences) {t : Thread P ι} {l l' : Local P ι t}
    {a : Action P ι t} (h : r.Inv b sequences) (hl : Knows p sequences t l r)
    (hkept : showsUnpublished t r l a = false) (hs : threadStep p t r l a = some (r', l')) :
    r'.Inv b sequences ∧ Knows p sequences t l' r' ∧ ∀ u, u ≠ t → Rely p u r r' := by
  cases t with
  | single =>
    cases r with
    | multi r => cases hs
    | single r =>
      simp only [threadStep, Option.map_eq_some_iff, Prod.mk.injEq] at hs
      obtain ⟨⟨r₁, l₁⟩, hs, rfl, rfl⟩ := hs
      obtain ⟨hinv, hknows, hvalues, hbefore⟩ := singleStep_sound h (hl r rfl) (by
        rintro rfl
        exact hkept) hs
      refine ⟨hinv, ?_, ?_⟩
      · intro s' hs'
        obtain rfl := Ring.single.inj hs'
        exact hknows
      · intro u hu
        cases u with
        | single => exact absurd rfl hu
        | multi q => rintro s' ⟨⟩
        | consumer i => trivial
        | poller => exact ⟨hbefore, congrFun hvalues p.sequence⟩
  | multi q =>
    cases r with
    | single r => cases hs
    | multi r =>
      simp only [threadStep, Option.map_eq_some_iff, Prod.mk.injEq] at hs
      obtain ⟨⟨r₁, l₁⟩, hs, rfl, rfl⟩ := hs
      obtain ⟨hinv, hknows, hrely⟩ := Availability.producerStep_sound h (hl r rfl) hs
      obtain ⟨hvalues, hbefore⟩ := multiStep_before h (hl r rfl) hs
      refine ⟨hinv, ?_, ?_⟩
      · intro s' hs'
        obtain rfl := Ring.multi.inj hs'
        exact hknows
      · intro u hu
        cases u with
        | single => rintro s' ⟨⟩
        | multi q' =>
          intro s' hs'
          obtain rfl := Ring.multi.inj hs'
          exact ⟨r, rfl, hrely⟩
        | consumer i => trivial
        | poller => exact ⟨hbefore, congrFun hvalues p.sequence⟩
  | consumer i =>
    simp only [threadStep, Option.ite_none_left_eq_some, Option.map_eq_some_iff,
      Prod.mk.injEq] at hs
    obtain ⟨hne, _, hs, rfl, -⟩ := hs
    obtain ⟨rfl, hle, hpublished⟩ := consumerStep_cases h hs
    obtain ⟨hinv, hrely⟩ := h.store (P := P) (p := p) hle hpublished
    refine ⟨hinv, trivial, ?_⟩
    intro u hu
    cases u with
    | poller =>
      constructor
      · rw [Ring.moment_store]
        exact Moment.before_store hle
      · rw [Ring.moment_store]
        exact Function.update_of_ne (Ne.symm hne) _ _
    | single => exact hrely .single (by rintro ⟨⟩)
    | multi q => exact hrely (.multi q) (by rintro ⟨⟩)
    | consumer j => trivial
  | poller =>
    simp only [threadStep, pollerStep, Option.map_eq_some_iff, Prod.mk.injEq] at hs
    obtain ⟨⟨l₁, w⟩, hs, rfl, rfl⟩ := hs
    have hholds : l.poller.Holds p l.calledAt r.moment := hl
    obtain ⟨hnext, hmoves⟩ := hholds.step (h.honest hown) hs
    cases w with
    | none =>
      have hsame : r.store p.sequence none = r := by cases r <;> rfl
      rw [hsame]
      refine ⟨h, hnext, ?_⟩
      intro u hu
      cases u with
      | single =>
        intro s hs
        exact ⟨s, hs, rfl, fun _ => le_rfl⟩
      | multi q =>
        intro s hs
        exact ⟨s, hs, rfl, fun _ => le_rfl⟩
      | consumer i => trivial
      | poller => exact absurd rfl hu
    | some v =>
      obtain ⟨hle, hpublished⟩ := hmoves v rfl
      obtain ⟨hinv, hrely⟩ := h.store (P := P) (p := p) hle hpublished
      refine ⟨hinv, ?_, hrely⟩
      show Poller.Holds p _ (Ring.moment _) _
      rw [Ring.moment_store]
      exact hnext

/-- The proof outline, for the steps that show nothing unpublished. -/
def outline (P : Type) (b : BufferSize) {sequences : List (Option ι)} {p : EventPoller ι}
    (hown : some p.sequence ∈ sequences) : ((pool P p).guard showsUnpublished).Outline where
  inv := Ring.Inv b sequences
  assertion := Knows p sequences
  rely := Rely p
  step_inv := by
    intro t r l a r' l' h hl hs
    obtain ⟨hkept, hs⟩ := ThreadPool.guard_step_eq_some.mp hs
    exact (threadStep_sound hown h hl hkept hs).1
  step_assertion := by
    intro t r l a r' l' h hl hs
    obtain ⟨hkept, hs⟩ := ThreadPool.guard_step_eq_some.mp hs
    exact (threadStep_sound hown h hl hkept hs).2.1
  step_rely := by
    intro t r l a r' l' h hl hs
    obtain ⟨hkept, hs⟩ := ThreadPool.guard_step_eq_some.mp hs
    exact (threadStep_sound hown h hl hkept hs).2.2
  stable := fun _ _ hl hrely => hl.stable hrely

/-! ### The run -/

lemma Ring.initial_values (producerType : ProducerType) (b : BufferSize)
    (sequences : List (Option ι)) (i : ι) :
    (Ring.initial producerType b sequences).moment.values i = INITIAL_VALUE := by
  have h := Gating.addGatingSequences_values ({} : Gating ι) (fun _ => INITIAL_VALUE)
    INITIAL_VALUE sequences i
  rw [ite_self] at h
  cases producerType with
  | SINGLE => exact h
  | MULTI => exact h

lemma Ring.inv_initial (producerType : ProducerType) (b : BufferSize)
    (sequences : List (Option ι)) : (Ring.initial producerType b sequences).Inv b sequences := by
  have hvalues := Ring.initial_values producerType b sequences
  cases producerType with
  | SINGLE =>
    have hsize := b.size_pos
    refine ⟨⟨⟨rfl, by rintro snap ⟨⟩⟩, fun i _ => (hvalues i).ge, ?_⟩, ⟨le_rfl, le_rfl⟩,
      fun i => (hvalues i).le⟩
    intro i _
    have hvalue := hvalues i
    show INITIAL_VALUE - b.size ≤ (Ring.initial .SINGLE b sequences).moment.values i
    omega
  | MULTI =>
    exact (Availability.outline_initial (P := Unit) b (fun _ => INITIAL_VALUE) sequences).shared

lemma outline_initial (producerType : ProducerType) (b : BufferSize)
    (hown : some p.sequence ∈ sequences) :
    (outline P b hown).Holds (initial producerType b sequences) := by
  constructor
  · exact Ring.inv_initial producerType b sequences
  · intro t
    cases t with
    | single => rintro s - call ⟨⟩
    | multi q => rintro s - call ⟨⟩
    | consumer i => trivial
    | poller =>
      refine ⟨Moment.Before.refl _, by rintro q ⟨⟩, List.IsChain.nil, by rintro q ⟨⟩, trivial,
        rfl, ?_⟩
      show (0 : Int) = (Ring.initial producerType b sequences).moment.values p.sequence + 1
      rw [Ring.initial_values]
      rfl

/-- The producers of a multi-producer ring show nothing unpublished. -/
lemma not_showsUnpublished_of_multi [DecidableEq P] {as : List (Σ t : Thread P ι, Action P ι t)} :
    ∀ x ∈ transitions (pool P p).next (initial .MULTI b sequences) as,
      showsUnpublished x.act.1 x.pre.shared (x.pre.threads x.act.1) x.act.2 = false := by
  have hmulti : ∀ x ∈ transitions (pool P p).next (initial .MULTI b sequences) as,
      (∃ s, x.pre.shared = .multi s) ∧ ∃ s, x.post.shared = .multi s := by
    refine transitions_invariant_of_step
      (fun c : ThreadPool.Config (Ring ι) (Local P ι) => ∃ s, c.shared = .multi s) ?_ ⟨_, rfl⟩
    rintro c ⟨t, a⟩ c' ⟨s, hs⟩ hnext
    obtain ⟨r', l', hstep, rfl⟩ := (pool P p).next_eq_some.mp hnext
    rw [hs] at hstep
    cases t with
    | single => cases hstep
    | multi q =>
      simp only [pool, threadStep, Option.map_eq_some_iff, Prod.mk.injEq] at hstep
      obtain ⟨result, -, rfl, -⟩ := hstep
      exact ⟨_, rfl⟩
    | consumer i =>
      simp only [pool, threadStep, consumerStep, Option.ite_none_left_eq_some,
        Option.map_eq_some_iff, Prod.mk.injEq] at hstep
      obtain ⟨-, _, ⟨result, -, rfl⟩, rfl, -⟩ := hstep
      exact ⟨_, rfl⟩
    | poller =>
      simp only [pool, threadStep, pollerStep, Option.map_eq_some_iff, Prod.mk.injEq] at hstep
      obtain ⟨result, -, rfl, -⟩ := hstep
      exact ⟨_, rfl⟩
  intro x hx
  obtain ⟨s, hs⟩ := (hmulti x hx).1
  obtain ⟨⟨t, a⟩, hact⟩ : ∃ act, x.act = act := ⟨_, rfl⟩
  rw [hact, hs]
  cases t <;> rfl

/-- What a poller has done, and is about to do. -/
structure CompletesOnce (own : ι) (upstream : List ι) (r : Ring ι) (l : PollerThread ι) :
    Prop where
  /-- `onEvent` is called with the sequence that comes next in this poll. All up to the
  `availableSequence` that ends the batch is published and passed by the upstream sequences, and
  nothing that was available when `poll` was called lies above. -/
  delivers : ∀ c n a processed, l.poller.call = .onEvent c n a processed →
    c = r.moment.values own ∧ n = c + 1 + l.poller.deliveries.length ∧ n ≤ a ∧
      r.moment.Upto upstream c a ∧ l.calledAt.Within upstream c a
  polls : ∀ q ∈ l.poller.polls, q.Correct
  chained : l.poller.polls.IsChain fun q q' => q'.currentSequence = q.sequence
  sequence : ∀ q, l.poller.polls.getLast? = some q → r.moment.values own = q.sequence
  completed : ∃ count : Nat,
    (l.poller.log.filter Delivery.completed).map Delivery.sequence =
      (List.range count).map (fun k : Nat => (k : Int)) ∧
    (l.poller.call = .idle → r.moment.values own + 1 = count)
  redelivered : l.poller.log.Pairwise fun d d' => d.sequence = d'.sequence → d.result = .threw

omit [DecidableEq ι] in
lemma Poller.Holds.completesOnce {l : PollerThread ι} {own : ι} {upstream : List ι}
    (h : l.poller.Holds (newInstance own upstream) l.calledAt r.moment) :
    CompletesOnce own upstream r l where
  delivers := by
    intro c n a processed hcall
    have hknows := h.call
    rw [hcall] at hknows
    simp only [PollCall.Knows, newInstance_sequence, newInstance_upstream] at hknows
    obtain ⟨hc, -, -, hn, hle, -, -, -, hupto, hwithin⟩ := hknows
    exact ⟨hc, hn, hle, hupto, hwithin⟩
  polls := h.polls
  chained := h.chained
  sequence := by
    have hsequence := h.sequence
    rw [newInstance_sequence] at hsequence
    exact hsequence
  completed := by
    refine ⟨(l.poller.log.filter Delivery.completed).length, ?_, ?_⟩
    · have heq := h.inOrder.completed_eq
      simp only [zero_add] at heq
      exact heq
    · intro hidle
      have hknows := h.call
      rw [hidle] at hknows
      obtain ⟨-, hnext⟩ := hknows
      rw [nextPosition_eq, newInstance_sequence, zero_add] at hnext
      exact hnext.symm
  redelivered := by
    refine h.inOrder.pairwise_failed.imp ?_
    intro d d' hfailed heq
    have hcompleted := hfailed heq
    unfold Delivery.completed at hcompleted
    split at hcompleted
    · cases hcompleted
    · assumption

/-- In every state of a run in which the single producer, if there is one, stores the claimed
position in the cursor only when all claimed sequences are published, a poller whose sequence gates
the ring has completed each event once and in order, has been given an event again only after its
handler threw at it, and is given published events only. -/
theorem poller_completesOnce [DecidableEq P] {producerType : ProducerType} {own : ι}
    {upstream : List ι} {as : List (Σ t : Thread P ι, Action P ι t)}
    {cfg : ThreadPool.Config (Ring ι) (Local P ι)} (hown : some own ∈ sequences)
    (hr : run (pool P (newInstance own upstream)).next (initial producerType b sequences) as =
      some cfg)
    (hkept : producerType = .SINGLE →
      ∀ x ∈ transitions (pool P (newInstance own upstream)).next
        (initial producerType b sequences) as,
        showsUnpublished x.act.1 x.pre.shared (x.pre.threads x.act.1) x.act.2 = false) :
    CompletesOnce own upstream cfg.shared (cfg.threads .poller) := by
  have hown' : some (newInstance own upstream).sequence ∈ sequences := by
    rw [newInstance_sequence]
    exact hown
  have hinitial := outline_initial (P := P) producerType b hown'
  have hall : ∀ x ∈ transitions (pool P (newInstance own upstream)).next
      (initial producerType b sequences) as,
      showsUnpublished x.act.1 x.pre.shared (x.pre.threads x.act.1) x.act.2 = false := by
    cases producerType with
    | SINGLE => exact hkept rfl
    | MULTI => exact not_showsUnpublished_of_multi
  exact ((hinitial.run_of_guard hr hall).threads .poller).completesOnce

end

/-- An event is published and another one claimed; the handler throws at the first and completes
both once the second is published, with a store of the cursor in between. -/
def throwOnce : List (Σ t, Action Unit Unit t) :=
  [⟨.single, .call (.next 1)⟩, ⟨.single, .publish 0⟩, ⟨.single, .call (.next 1)⟩,
    ⟨.poller, .poll⟩, ⟨.poller, .proceed⟩, ⟨.poller, .proceed⟩, ⟨.poller, .onEvent .threw⟩,
    ⟨.poller, .proceed⟩,
    ⟨.single, .publish 1⟩, ⟨.single, .call (.tryNext 1)⟩, ⟨.single, .proceed⟩,
    ⟨.poller, .poll⟩, ⟨.poller, .proceed⟩, ⟨.poller, .proceed⟩,
    ⟨.poller, .onEvent (.returned true)⟩, ⟨.poller, .onEvent (.returned true)⟩,
    ⟨.poller, .proceed⟩]

theorem poller_completesOnce_throwOnce :
    ∃ cfg, run (pool Unit (newInstance () [])).next (initial .SINGLE ⟨1, by decide⟩ [some ()])
        throwOnce = some cfg ∧
      (cfg.threads .poller).poller.log.map Delivery.sequence = [0, 0, 1] ∧
      CompletesOnce () [] cfg.shared (cfg.threads .poller) := by
  have hrun : (run (pool Unit (newInstance () [])).next
      (initial .SINGLE ⟨1, by decide⟩ [some ()]) throwOnce).map
        (fun cfg => (cfg.threads .poller).poller.log.map Delivery.sequence) =
          some [0, 0, 1] := by
    decide
  obtain ⟨cfg, hr, hlog⟩ := Option.map_eq_some_iff.mp hrun
  have hkept : ∀ x ∈ transitions (pool Unit (newInstance () [])).next
      (initial .SINGLE ⟨1, by decide⟩ [some ()]) throwOnce,
      showsUnpublished x.act.1 x.pre.shared (x.pre.threads x.act.1) x.act.2 = false := by
    decide
  exact ⟨cfg, hr, hlog, poller_completesOnce List.mem_cons_self hr fun _ => hkept⟩

/-- Two slots, two claims that are not published, and a `tryNext` that finds no room; then the
poller polls. -/
def pollAfterFence : List (Σ t, Action Unit Unit t) :=
  [⟨.single, .call (.next 1)⟩, ⟨.single, .call (.next 1)⟩, ⟨.single, .call (.tryNext 1)⟩,
    ⟨.single, .proceed⟩, ⟨.poller, .poll⟩, ⟨.poller, .proceed⟩, ⟨.poller, .proceed⟩]

/-- The poller is about to hand sequence `0` to the handler, which nobody has published. -/
theorem poller_delivers_unpublished :
    ∃ cfg, run (pool Unit (newInstance () [])).next (initial .SINGLE ⟨1, by decide⟩ [some ()])
        pollAfterFence = some cfg ∧
      cfg.shared.moment.published 0 = false ∧
      ¬ CompletesOnce () [] cfg.shared (cfg.threads .poller) := by
  obtain ⟨cfg, hr, hcall, hunpublished⟩ :
      ∃ cfg, run (pool Unit (newInstance () [])).next (initial .SINGLE ⟨1, by decide⟩ [some ()])
          pollAfterFence = some cfg ∧
        (cfg.threads .poller).poller.call = .onEvent (-1) 0 1 (-1) ∧
        cfg.shared.moment.published 0 = false := ⟨_, rfl, rfl, rfl⟩
  refine ⟨cfg, hr, hunpublished, ?_⟩
  intro h
  obtain ⟨-, -, -, hupto, -⟩ := h.delivers _ _ _ _ hcall
  have hpublished := (hupto 0 (by decide) (by decide)).1
  rw [hunpublished] at hpublished
  cases hpublished

end Disruptor.EventPoller
