import Disruptor.EventPoller.EventPoller
import Mathlib.Data.List.Chain

/-!
# What a poll delivers

The assertion of a poller's thread at each place of `poll`, over what can be read at a moment and
what is published by then. It holds at the next place after every step of the poller, and while
the other threads move on.
-/

namespace Disruptor.EventPoller

open Disruptor.Core

variable {ι : Type*}

/-- The sequence of the last event whose `onEvent` returned, or the current sequence. -/
def lastCompleted (currentSequence : Int) (deliveries : List Delivery) : Int :=
  deliveries.foldl (fun last d => if d.completed then d.sequence else last) currentSequence

/-- Deliveries from a position on, as far as a sequence is available. -/
structure Delivered (currentSequence availableSequence : Int) (deliveries : List Delivery) :
    Prop where
  sequence : deliveries.map Delivery.sequence =
    (List.range deliveries.length).map fun k : Nat => currentSequence + 1 + (k : Int)
  available : ∀ d ∈ deliveries, d.sequence ≤ availableSequence
  endOfBatch : ∀ d ∈ deliveries, d.endOfBatch = true ↔ d.sequence = availableSequence
  /-- Only the last event may stop the poll. -/
  continues : ∀ d ∈ deliveries.dropLast, d.result = .returned true

/-- What is to hold of a poll. -/
structure Poll.Correct (q : Poll) : Prop where
  delivered : Delivered q.currentSequence q.availableSequence q.deliveries
  sequence : q.sequence = lastCompleted q.currentSequence q.deliveries
  processing : ∀ state, q.outcome = .returned state →
    (q.deliveries ≠ [] ↔ state = .PROCESSING)
  threw : q.outcome = .threw ↔ ∃ d ∈ q.deliveries, d.result = .threw
  idle : q.outcome = .returned .IDLE →
    ∃ cursor, q.cursor = some cursor ∧ cursor < q.currentSequence + 1

/-! ### Deliveries -/

variable {c a : Int} {ds : List Delivery} {d : Delivery}

lemma lastCompleted_concat :
    lastCompleted c (ds ++ [d]) = if d.completed then d.sequence else lastCompleted c ds := by
  simp [lastCompleted]

lemma delivered_nil : Delivered c a [] := by
  constructor <;> simp

lemma Delivered.concat (h : Delivered c a ds) (hgo : ∀ d ∈ ds, d.result = .returned true)
    (hsequence : d.sequence = c + 1 + ds.length) (hle : d.sequence ≤ a)
    (hend : d.endOfBatch = true ↔ d.sequence = a) : Delivered c a (ds ++ [d]) where
  sequence := by
    simp [h.sequence, List.range_succ, hsequence]
  available := by
    intro e he
    rcases List.mem_append.mp he with he | he
    · exact h.available e he
    · rw [List.mem_singleton.mp he]
      exact hle
  endOfBatch := by
    intro e he
    rcases List.mem_append.mp he with he | he
    · exact h.endOfBatch e he
    · rw [List.mem_singleton.mp he]
      exact hend
  continues := by
    rw [List.dropLast_concat]
    exact hgo

/-! ### What can be read at a moment -/

/-- What can be read at a moment, and what is published by then. -/
structure Moment (ι : Type*) extends WaitView ι where
  published : Int → Bool

namespace Moment

/-- Nothing is taken back. -/
structure Before (m m' : Moment ι) : Prop where
  cursor : m.cursor ≤ m'.cursor
  values : ∀ i, m.values i ≤ m'.values i
  published : ∀ s, m.published s = true → m'.published s = true

/-- All up to `a` is published, and passed by the upstream sequences. -/
def Upto (m : Moment ι) (upstream : List ι) (c a : Int) : Prop :=
  ∀ s, c < s → s ≤ a → m.published s = true ∧ ∀ i ∈ upstream, s ≤ m.values i

/-- What is available, in one piece from `c` on, goes up to `a` at most. -/
def Within (m : Moment ι) (upstream : List ι) (c a : Int) : Prop :=
  ∀ s, s ≤ INT64_MAX → s ≤ m.cursor → (∀ i ∈ upstream, s ≤ m.values i) →
    (∀ t, c < t → t ≤ s → m.published t = true) → s ≤ a

/-- What a sequencer shows: without flags, the cursor and the sequences that follow it stay at
published sequences; a flag tells whether a sequence is published, up to the first one after `own`
that is not. -/
structure Honest (m : Moment ι) (own : ι) : Prop where
  cursor : m.available = none → ∀ s ≤ m.cursor, m.published s = true
  values : m.available = none → ∀ i, ∀ s ≤ m.values i, m.published s = true
  flag : ∀ isAvailable, m.available = some isAvailable → ∀ s, m.values own < s →
    (∀ t, m.values own < t → t < s → m.published t = true) →
    (isAvailable s = true ↔ m.published s = true)

/-- After a step that may store a value in `own`. -/
def store [DecidableEq ι] (m : Moment ι) (own : ι) : Option Int → Moment ι
  | none => m
  | some v => { m with values := Function.update m.values own v }

variable {m m' m'' : Moment ι} {upstream : List ι}

lemma Before.refl (m : Moment ι) : m.Before m :=
  ⟨le_rfl, fun _ => le_rfl, fun _ h => h⟩

lemma Before.trans (h : m.Before m') (h' : m'.Before m'') : m.Before m'' :=
  ⟨h.cursor.trans h'.cursor, fun i => (h.values i).trans (h'.values i),
    fun s hs => h'.published s (h.published s hs)⟩

lemma Upto.mono (h : m.Upto upstream c a) (hm : m.Before m') : m'.Upto upstream c a := by
  intro s hs hs'
  obtain ⟨hpublished, hpassed⟩ := h s hs hs'
  exact ⟨hm.published s hpublished, fun i hi => (hpassed i hi).trans (hm.values i)⟩

lemma before_store [DecidableEq ι] {own : ι} {v : Int} (h : m.values own ≤ v) :
    m.Before (m.store own (some v)) := by
  refine ⟨le_rfl, ?_, fun _ h => h⟩
  intro i
  by_cases hi : i = own
  · subst hi
    simpa [store] using h
  · simp [store, Function.update_of_ne hi]

end Moment

/-! ### The assertion of a poller's thread -/

/-- What is known at each place of a call, where `next` is the sequence that comes next. -/
def PollCall.Knows (p : EventPoller ι) (start now : Moment ι) (ds : List Delivery) (next : Int) :
    PollCall ι → Prop
  | .idle | .readSequence => ds = [] ∧ next = now.values p.sequence + 1
  | .readGating c => c = now.values p.sequence ∧ ds = [] ∧ next = c + 1
  | .scan c rest m =>
    (c = now.values p.sequence ∧ ds = [] ∧ next = c + 1) ∧
      (∀ i ∈ rest, i ∈ p.gatingSequence.upstream) ∧ p.gatingSequence.upstream ≠ [] ∧
      (∀ i ∈ p.gatingSequence.upstream, i ∈ rest ∨ m ≤ now.values i) ∧
      start.Within p.gatingSequence.upstream c m
  | .readFlag c a s =>
    (c = now.values p.sequence ∧ ds = [] ∧ next = c + 1) ∧ c < s ∧
      (∀ i ∈ p.gatingSequence.upstream, a ≤ now.values i) ∧
      (∀ t, c < t → t < s → now.published t = true) ∧ (c + 1 < s → s ≤ a + 1) ∧
      start.Within p.gatingSequence.upstream c a
  | .onEvent c n a processed =>
    c = now.values p.sequence ∧ next = n ∧ processed = n - 1 ∧ n = c + 1 + ds.length ∧ n ≤ a ∧
      processed = lastCompleted c ds ∧ Delivered c a ds ∧
      (∀ d ∈ ds, d.result = .returned true) ∧
      now.Upto p.gatingSequence.upstream c a ∧ start.Within p.gatingSequence.upstream c a
  | .setSequence c a processed outcome =>
    c = now.values p.sequence ∧ next = processed + 1 ∧ processed = lastCompleted c ds ∧
      c ≤ processed ∧ processed ≤ a ∧ now.Upto p.gatingSequence.upstream c a ∧
      Delivered c a ds ∧ ds ≠ [] ∧ (outcome = .threw ∨ outcome = .returned .PROCESSING) ∧
      (outcome = .threw ↔ ∃ d ∈ ds, d.result = .threw)
  | .getCursor c _ => c = now.values p.sequence ∧ ds = [] ∧ next = c + 1

/-- The moment at which the last poll was called, after an action. -/
def PollAction.calledAt : PollAction → Moment ι → Moment ι → Moment ι
  | .poll, _, now => now
  | _, start, _ => start

/-- What holds of a poller's thread, with the moment at which its last poll was called. -/
structure Poller.Holds (p : EventPoller ι) (start now : Moment ι) (l : Poller ι) : Prop where
  before : start.Before now
  polls : ∀ q ∈ l.polls, q.Correct
  chained : l.polls.IsChain fun q q' => q'.currentSequence = q.sequence
  sequence : ∀ q, l.polls.getLast? = some q → now.values p.sequence = q.sequence
  inOrder : InOrder Delivery.sequence Delivery.completed 0 l.log
  call : l.call.Knows p start now l.deliveries (nextPosition Delivery.completed 0 l.log)

variable {p : EventPoller ι} {start now now' : Moment ι} {l l' : Poller ι} {n next : Int}
  {call : PollCall ι}

lemma PollCall.Knows.mono (h : call.Knows p start now ds next) (hm : now.Before now')
    (hown : now'.values p.sequence = now.values p.sequence) :
    call.Knows p start now' ds next := by
  cases call with
  | idle | readSequence | readGating c | getCursor c a =>
    simp only [PollCall.Knows, hown]
    exact h
  | scan c rest m =>
    simp only [PollCall.Knows, hown]
    obtain ⟨hfresh, hrest, hne, hread, hwithin⟩ := h
    refine ⟨hfresh, hrest, hne, ?_, hwithin⟩
    intro i hi
    rcases hread i hi with hmem | hle
    · exact Or.inl hmem
    · exact Or.inr (hle.trans (hm.values i))
  | readFlag c a s =>
    simp only [PollCall.Knows, hown]
    obtain ⟨hfresh, hlt, hpassed, hpublished, hend, hwithin⟩ := h
    exact ⟨hfresh, hlt, fun i hi => (hpassed i hi).trans (hm.values i),
      fun t ht ht' => hm.published t (hpublished t ht ht'), hend, hwithin⟩
  | onEvent c n a processed =>
    simp only [PollCall.Knows, hown]
    obtain ⟨hc, hnext, hprocessed, hn, hle, hlast, hdelivered, hgo, hupto, hwithin⟩ := h
    exact ⟨hc, hnext, hprocessed, hn, hle, hlast, hdelivered, hgo, hupto.mono hm, hwithin⟩
  | setSequence c a processed outcome =>
    simp only [PollCall.Knows, hown]
    obtain ⟨hc, hnext, hlast, hge, hle, hupto, hrest⟩ := h
    exact ⟨hc, hnext, hlast, hge, hle, hupto.mono hm, hrest⟩

/-- Other threads may move on, but not the poller's sequence. -/
lemma Poller.Holds.mono (h : l.Holds p start now) (hm : now.Before now')
    (hown : now'.values p.sequence = now.values p.sequence) : l.Holds p start now' where
  before := h.before.trans hm
  polls := h.polls
  chained := h.chained
  sequence := by
    rw [hown]
    exact h.sequence
  inOrder := h.inOrder
  call := h.call.mono hm hown

/-! ### The steps of the poller -/

lemma Poller.Holds.goto (h : l.Holds p start now)
    (hcall : call.Knows p start now l.deliveries (nextPosition Delivery.completed 0 l.log)) :
    (l.goto call).Holds p start now :=
  ⟨h.before, h.polls, h.chained, h.sequence, h.inOrder, hcall⟩

/-- The loop is entered when there is something to deliver. -/
lemma PollCall.knows_available (hfresh : c = now.values p.sequence ∧ ds = [] ∧ next = c + 1)
    (hupto : now.Upto p.gatingSequence.upstream c a)
    (hwithin : start.Within p.gatingSequence.upstream c a) :
    (PollCall.available c a).Knows p start now ds next := by
  unfold PollCall.available
  split_ifs with hle
  · obtain ⟨hc, rfl, hnext⟩ := hfresh
    refine ⟨hc, hnext, by omega, by simp, hle, rfl, delivered_nil, ?_, hupto, hwithin⟩
    intro d hd
    cases hd
  · exact hfresh

/-- The gating sequence was read. -/
lemma PollCall.knows_found (hfresh : c = now.values p.sequence ∧ ds = [] ∧ next = c + 1)
    (hpassed : ∀ i ∈ p.gatingSequence.upstream, a ≤ now.values i)
    (hsingle : now.available = none → ∀ s ≤ a, now.published s = true)
    (hwithin : start.Within p.gatingSequence.upstream c a) :
    (PollCall.found now.toWaitView c a).Knows p start now ds next := by
  unfold PollCall.found
  split
  · rename_i hnone
    apply PollCall.knows_available hfresh ?_ hwithin
    intro s hs hs'
    exact ⟨hsingle hnone s hs', fun i hi => hs'.trans (hpassed i hi)⟩
  · refine ⟨hfresh, by omega, hpassed, ?_, ?_, hwithin⟩
    · intro t ht ht'
      omega
    · intro hlt
      omega

lemma Poller.log_delivered {processed : Int} {result : HandlerResult} :
    (l.delivered c n a processed result).log =
      l.log ++ [{ sequence := n, endOfBatch := decide (n = a), result := result }] := by
  simp [Poller.log, Poller.delivered]

lemma Poller.log_finish {cursor : Option Int} {outcome : PollOutcome} {sequence : Int} :
    (l.finish c a cursor outcome sequence).log = l.log := by
  simp [Poller.log, Poller.finish]

/-- After a call of the handler. -/
lemma Poller.Holds.delivered (h : l.Holds p start now) {processed : Int}
    (hcall : l.call = .onEvent c n a processed) (result : HandlerResult) :
    (l.delivered c n a processed result).Holds p start now := by
  have hknows := h.call
  rw [hcall] at hknows
  obtain ⟨hc, hnext, hprocessed, hn, hle, hlast, hdelivered, hgo, hupto, hwithin⟩ := hknows
  have hconcat : Delivered c a (l.deliveries ++ [⟨n, decide (n = a), result⟩]) :=
    hdelivered.concat hgo hn hle (by simp)
  refine ⟨h.before, h.polls, h.chained, h.sequence, ?_, ?_⟩
  · rw [log_delivered]
    exact h.inOrder.concat hnext.symm
  · rw [log_delivered, nextPosition_concat, hnext]
    simp only [Poller.delivered]
    cases result with
    | threw =>
      refine ⟨hc, ?_, ?_, by omega, by omega, hupto, hconcat, by simp, Or.inl rfl, by simp⟩
      · simp only [Delivery.completed, Bool.false_eq_true, if_false]
        omega
      · simp [lastCompleted_concat, Delivery.completed, hlast]
    | returned processNextEvent =>
      have hnone : ¬ ∃ d ∈ l.deliveries ++
          [⟨n, decide (n = a), .returned processNextEvent⟩], d.result = .threw := by
        rintro ⟨d, hd, hthrew⟩
        rcases List.mem_append.mp hd with hd | hd
        · rw [hgo d hd] at hthrew
          cases hthrew
        · rw [List.mem_singleton.mp hd] at hthrew
          cases hthrew
      simp only [Delivery.completed, if_true]
      split_ifs with hmore
      · obtain ⟨hlt, rfl⟩ := hmore
        refine ⟨hc, rfl, by omega, ?_, hlt, ?_, hconcat, ?_, hupto,
          hwithin⟩
        · simp
          omega
        · simp [lastCompleted_concat, Delivery.completed]
        · intro d hd
          rcases List.mem_append.mp hd with hd | hd
          · exact hgo d hd
          · rw [List.mem_singleton.mp hd]
      · refine ⟨hc, rfl, ?_, by omega, hle, hupto, hconcat, by simp,
          Or.inr rfl, ?_⟩
        · simp [lastCompleted_concat, Delivery.completed]
        · exact iff_of_false (by simp) hnone

/-- A call ends with a correct poll. -/
lemma Poller.Holds.finish (h : l.Holds p start now) {cursor : Option Int} {outcome : PollOutcome}
    {sequence : Int} (hbefore : start.Before now')
    (hcorrect : Poll.Correct ⟨c, a, l.deliveries, cursor, outcome, sequence⟩)
    (hcurrent : c = now.values p.sequence) (hown : now'.values p.sequence = sequence)
    (hnext : nextPosition Delivery.completed 0 l.log = sequence + 1) :
    (l.finish c a cursor outcome sequence).Holds p start now' where
  before := hbefore
  polls := by
    intro q hq
    rcases List.mem_append.mp hq with hq | hq
    · exact h.polls q hq
    · rw [List.mem_singleton.mp hq]
      exact hcorrect
  chained := by
    refine h.chained.append (List.isChain_singleton _) ?_
    intro q hq q' hq'
    rw [← Option.some.inj hq']
    exact hcurrent.trans (h.sequence q hq)
  sequence := by
    intro q hq
    simp only [Poller.finish, List.getLast?_concat, Option.some.injEq] at hq
    rw [hown, ← hq]
  inOrder := by
    rw [log_finish]
    exact h.inOrder
  call := by
    rw [log_finish, hnext, ← hown]
    exact ⟨rfl, rfl⟩

lemma correct_setSequence {processed : Int} {outcome : PollOutcome}
    (hknows : (PollCall.setSequence c a processed outcome).Knows p start now ds next) :
    Poll.Correct ⟨c, a, ds, none, outcome, processed⟩ := by
  obtain ⟨-, -, hlast, -, -, -, hdelivered, hne, houtcome, hthrew⟩ := hknows
  refine ⟨hdelivered, hlast, ?_, hthrew, ?_⟩
  · intro state hstate
    rcases houtcome with rfl | rfl
    · cases hstate
    · obtain rfl := PollOutcome.returned.inj hstate
      exact iff_of_true hne rfl
  · intro hidle
    rcases houtcome with rfl | rfl <;> cases hidle

lemma correct_getCursor {cursor : Int} {state : PollState}
    (hstate : state = if cursor ≥ c + 1 then PollState.GATING else PollState.IDLE) :
    Poll.Correct ⟨c, a, [], some cursor, .returned state, c⟩ := by
  refine ⟨delivered_nil, rfl, ?_, by simp, ?_⟩
  · intro state' heq
    obtain rfl := PollOutcome.returned.inj heq
    refine iff_of_false (by simp) ?_
    rw [hstate]
    split_ifs <;> simp
  · intro hidle
    obtain rfl := PollOutcome.returned.inj hidle
    refine ⟨cursor, rfl, ?_⟩
    split_ifs at hstate with hge
    show cursor < c + 1
    omega

/-- What `gatingSequence_->get()` is bounded by, when it is one sequence or the cursor. -/
lemma PollCall.knows_readGating (hm : now.Honest p.sequence) (hbefore : start.Before now)
    (hfresh : c = now.values p.sequence ∧ ds = [] ∧ next = c + 1) :
    (p.gatingSequence = .cursor →
      (PollCall.found now.toWaitView c now.cursor).Knows p start now ds next) ∧
    (∀ i, p.gatingSequence = .sequence i →
      (PollCall.found now.toWaitView c (now.values i)).Knows p start now ds next) ∧
    ∀ sequences hne, p.gatingSequence = .group sequences hne →
      (PollCall.scan c sequences INT64_MAX).Knows p start now ds next := by
  refine ⟨?_, ?_, ?_⟩
  · intro hgating
    refine PollCall.knows_found hfresh ?_ hm.cursor ?_
    · rw [hgating]
      intro i hi
      cases hi
    · intro s _ hcursor _ _
      exact hcursor.trans hbefore.cursor
  · intro i hgating
    have hupstream : i ∈ p.gatingSequence.upstream := by
      rw [hgating]
      exact List.mem_singleton_self i
    refine PollCall.knows_found hfresh ?_ (fun hnone => hm.values hnone i) ?_
    · rw [hgating]
      intro j hj
      rw [List.mem_singleton.mp hj]
    · intro s _ _ hpassed _
      exact (hpassed i hupstream).trans (hbefore.values i)
  · intro sequences hne hgating
    refine ⟨hfresh, ?_, ?_, ?_, fun s hmax _ _ _ => hmax⟩
    · rw [hgating]
      exact fun i hi => hi
    · rw [hgating]
      exact hne
    · rw [hgating]
      exact fun i hi => Or.inl hi

/-- All members of the group have been read. -/
lemma PollCall.knows_scan_nil (hm : now.Honest p.sequence) {m : Int}
    (h : (PollCall.scan c [] m).Knows p start now ds next) :
    (PollCall.found now.toWaitView c m).Knows p start now ds next := by
  obtain ⟨hfresh, -, hne, hread, hwithin⟩ := h
  have hpassed : ∀ i ∈ p.gatingSequence.upstream, m ≤ now.values i :=
    fun i hi => (hread i hi).resolve_left List.not_mem_nil
  obtain ⟨i, hi⟩ := List.exists_mem_of_ne_nil _ hne
  refine PollCall.knows_found hfresh hpassed ?_ hwithin
  intro hnone s hs
  exact hm.values hnone i s (hs.trans (hpassed i hi))

lemma PollCall.knows_scan_cons (hbefore : start.Before now) {i : ι} {rest : List ι} {m : Int}
    (h : (PollCall.scan c (i :: rest) m).Knows p start now ds next) :
    (PollCall.scan c rest (min m (now.values i))).Knows p start now ds next := by
  obtain ⟨hfresh, hrest, hne, hread, hwithin⟩ := h
  refine ⟨hfresh, fun j hj => hrest j (List.mem_cons_of_mem _ hj), hne, ?_, ?_⟩
  · intro j hj
    rcases hread j hj with hmem | hle
    · rcases List.mem_cons.mp hmem with rfl | hmem
      · exact Or.inr (min_le_right _ _)
      · exact Or.inl hmem
    · exact Or.inr ((min_le_left _ _).trans hle)
  · intro s hmax hcursor hpassed hpublished
    apply le_min
    · exact hwithin s hmax hcursor hpassed hpublished
    · exact (hpassed i (hrest i List.mem_cons_self)).trans (hbefore.values i)

/-- One flag is read. -/
lemma PollCall.knows_readFlag (hm : now.Honest p.sequence) (hbefore : start.Before now) {s : Int}
    (h : (PollCall.readFlag c a s).Knows p start now ds next) {isAvailable : Int → Bool}
    (havailable : now.available = some isAvailable) :
    (s ≤ a → isAvailable s = true →
      (PollCall.readFlag c a (s + 1)).Knows p start now ds next) ∧
    (s ≤ a → isAvailable s = false →
      (PollCall.available c (s - 1)).Knows p start now ds next) ∧
    (a < s → (PollCall.available c a).Knows p start now ds next) := by
  obtain ⟨hfresh, hlt, hpassed, hpublished, hend, hwithin⟩ := h
  have hflag : isAvailable s = true ↔ now.published s = true := by
    apply hm.flag isAvailable havailable s
    · rw [← hfresh.1]
      exact hlt
    · rw [← hfresh.1]
      exact hpublished
  refine ⟨?_, ?_, ?_⟩
  · intro hle hset
    refine ⟨hfresh, by omega, hpassed, ?_, fun _ => by omega, hwithin⟩
    intro t ht ht'
    by_cases heq : t = s
    · rw [heq]
      exact hflag.mp hset
    · exact hpublished t ht (by omega)
  · intro hle hunset
    apply PollCall.knows_available hfresh
    · intro t ht ht'
      exact ⟨hpublished t ht (by omega), fun i hi => by have := hpassed i hi; omega⟩
    · -- what is not published now was not published when the poll was called
      intro t _ _ _ hstart
      by_contra hgt
      have hset := hflag.mpr (hbefore.published s (hstart s hlt (by omega)))
      rw [hunset] at hset
      cases hset
  · intro hgt
    apply PollCall.knows_available hfresh ?_ hwithin
    intro t ht ht'
    exact ⟨hpublished t ht (by omega), fun i hi => ht'.trans (hpassed i hi)⟩

/-- A step of the poller leads to what holds next; it only moves its sequence over published
sequences. -/
theorem Poller.Holds.step [DecidableEq ι] (h : l.Holds p start now) (hm : now.Honest p.sequence)
    {action : PollAction} {w : Option Int}
    (hs : p.step now.toWaitView l action = some (l', w)) :
    l'.Holds p (action.calledAt start now) (now.store p.sequence w) ∧
      ∀ v, w = some v → now.values p.sequence ≤ v ∧
        ∀ s, now.values p.sequence < s → s ≤ v → now.published s = true := by
  have hknows := h.call
  have hread : ∀ v, (none : Option Int) = some v → now.values p.sequence ≤ v ∧
      ∀ s, now.values p.sequence < s → s ≤ v → now.published s = true := by
    rintro v ⟨⟩
  unfold EventPoller.step at hs
  split at hs
  · rename_i hcall
    obtain ⟨rfl, rfl⟩ := Prod.mk.inj (Option.some.inj hs)
    rw [hcall] at hknows
    exact ⟨⟨Moment.Before.refl now, h.polls, h.chained, h.sequence, h.inOrder, hknows⟩, hread⟩
  · rename_i hcall
    obtain ⟨rfl, rfl⟩ := Prod.mk.inj (Option.some.inj hs)
    rw [hcall] at hknows
    refine ⟨h.goto ?_, hread⟩
    exact ⟨rfl, hknows⟩
  · rename_i c hcall
    rw [hcall] at hknows
    obtain ⟨hcursor, hsequence, hgroup⟩ := PollCall.knows_readGating hm h.before hknows
    split at hs
    · rename_i hgating
      obtain ⟨rfl, rfl⟩ := Prod.mk.inj (Option.some.inj hs)
      exact ⟨h.goto (hcursor hgating), hread⟩
    · rename_i i hgating
      obtain ⟨rfl, rfl⟩ := Prod.mk.inj (Option.some.inj hs)
      exact ⟨h.goto (hsequence i hgating), hread⟩
    · rename_i sequences hne hgating
      obtain ⟨rfl, rfl⟩ := Prod.mk.inj (Option.some.inj hs)
      exact ⟨h.goto (hgroup sequences hne hgating), hread⟩
  · rename_i c m hcall
    obtain ⟨rfl, rfl⟩ := Prod.mk.inj (Option.some.inj hs)
    rw [hcall] at hknows
    exact ⟨h.goto (PollCall.knows_scan_nil hm hknows), hread⟩
  · rename_i c i rest m hcall
    obtain ⟨rfl, rfl⟩ := Prod.mk.inj (Option.some.inj hs)
    rw [hcall] at hknows
    exact ⟨h.goto (PollCall.knows_scan_cons h.before hknows), hread⟩
  · rename_i c a s hcall
    rw [hcall] at hknows
    split at hs
    · cases hs
    · rename_i isAvailable havailable
      obtain ⟨hset, hunset, hdone⟩ := PollCall.knows_readFlag hm h.before hknows havailable
      split_ifs at hs with hle hflag
      · obtain ⟨rfl, rfl⟩ := Prod.mk.inj (Option.some.inj hs)
        exact ⟨h.goto (hset hle hflag), hread⟩
      · obtain ⟨rfl, rfl⟩ := Prod.mk.inj (Option.some.inj hs)
        exact ⟨h.goto (hunset hle (Bool.not_eq_true _ ▸ hflag)), hread⟩
      · obtain ⟨rfl, rfl⟩ := Prod.mk.inj (Option.some.inj hs)
        exact ⟨h.goto (hdone (not_le.mp hle)), hread⟩
  · rename_i c n a processed result hcall
    obtain ⟨rfl, rfl⟩ := Prod.mk.inj (Option.some.inj hs)
    exact ⟨h.delivered hcall result, hread⟩
  · rename_i c a processed outcome hcall
    obtain ⟨rfl, rfl⟩ := Prod.mk.inj (Option.some.inj hs)
    rw [hcall] at hknows
    have hcorrect := correct_setSequence hknows
    obtain ⟨hc, hnext, -, hge, hle, hupto, -⟩ := hknows
    rw [hc] at hge hupto
    refine ⟨h.finish (h.before.trans (Moment.before_store hge)) hcorrect hc ?_ hnext, ?_⟩
    · simp [Moment.store]
    · intro v hv
      obtain rfl := Option.some.inj hv
      exact ⟨hge, fun s hs hs' => (hupto s hs (hs'.trans hle)).1⟩
  · rename_i c a hcall
    obtain ⟨rfl, rfl⟩ := Prod.mk.inj (Option.some.inj hs)
    rw [hcall] at hknows
    obtain ⟨hc, hnil, hnext⟩ := hknows
    refine ⟨h.finish h.before ?_ hc rfl (hc ▸ hnext), hread⟩
    rw [hnil, ← hc]
    exact correct_getCursor rfl
  · cases hs

end Disruptor.EventPoller
