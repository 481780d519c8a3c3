import Disruptor.Barrier.Return
import Disruptor.Core.Draining
import Disruptor.Core.Progress
import Disruptor.Sequencer.MultiProducer.Granting
import Disruptor.Sequencer.MultiProducer.Safety

/-!
# The multi-producer ring never gets stuck

Producers wait for consumers, and consumers for producers and for one another. Whatever has
happened, some continuation publishes everything that was taken off the cursor and lets every
consumer read it: the producer of the lowest sequence that is not published waits only for the
consumers of what is published below it.
-/

namespace Disruptor.MultiProducerRing

open Disruptor.Core MultiProducerSequencer

variable {P C X V : Type}

/-! ### Every sequence that was taken is accounted for -/

/-- The producer is bound to publish the sequence. -/
def Producer.Owes {ι : Type} (s : Int) : Producer ι → Prop
  | .idle => False
  | .calling call => ∃ lo hi, call.taken = some (lo, hi) ∧ lo ≤ s ∧ s ≤ hi
  | .holding lo hi | .publishing lo hi => lo ≤ s ∧ s ≤ hi

/-- A call of `next(n)` asks for no more than the buffer holds. -/
def Producer.Fits {ι : Type} (m : MultiProducerSequencer ι) : Producer ι → Prop
  | .calling call => call.Fits m
  | _ => True

/-- What is below the cursor is published, or some producer is bound to publish it. -/
structure Accounted (cfg : ThreadPool.Config (Ring P C X V) (Local P C X V)) : Prop where
  covered : ∀ s, 0 ≤ s → s ≤ cfg.shared.sequencer.cursor →
    cfg.shared.published s = true ∨ ∃ p, Producer.Owes s (cfg.threads (.producer p))
  fits : ∀ p, Producer.Fits cfg.shared.sequencer (cfg.threads (.producer p))

variable {b : BufferSize} {sequences : List (Option (C ⊕ X))} {p : P} {r r' : Ring P C X V}
  {l l' : Producer (C ⊕ X)} {a : ProducerAction V}

/-- What a step of a producer does to what is owed: it publishes what it no longer owes, and owes
what it moves the cursor over. -/
lemma producerStep_owes (h : RingInvariant b sequences r) (hp : ProducerHolds sequences p l r)
    (hs : producerStep p r l a = some (r', l')) :
    (∀ s, l.Owes s → l'.Owes s ∨ r'.published s = true) ∧
      (∀ s, r.sequencer.cursor < s → s ≤ r'.sequencer.cursor → l'.Owes s) ∧
      ∀ s, r.published s = true → r'.published s = true := by
  rcases producerStep_cases hs with ⟨op, rfl, rfl, rfl⟩ |
    ⟨call, spurious, result, s', rfl, hstep, rfl, rfl⟩ | ⟨lo, hi, s, v, rfl, -, -, rfl, rfl⟩ |
    ⟨lo, hi, rfl, -, rfl, rfl⟩ | ⟨n, hi, rfl, -, rfl, rfl⟩ | ⟨n, hi, rfl, hlt, rfl, rfl⟩
  · refine ⟨fun s hs => hs.elim, ?_, fun s hs => hs⟩
    intro s hs hs'
    omega
  · obtain ⟨-, hsound, -, -⟩ := h.safe.callStep hp.1 hstep
    refine ⟨?_, ?_, fun s hs => hs⟩
    · rintro s ⟨lo, hi, htaken, hlo, hhi⟩
      refine Or.inl ?_
      cases result with
      | running call' =>
        rcases hsound.2 with ⟨-, hsame⟩ | ⟨hnone, -⟩
        · exact ⟨lo, hi, hsame.trans htaken, hlo, hhi⟩
        · rw [hnone] at htaken
          cases htaken
      | claimed lo' hi' =>
        rcases hsound.2.2 with ⟨-, hsame⟩ | ⟨hnone, -⟩
        · obtain ⟨rfl, rfl⟩ := Prod.mk.inj (Option.some.inj (hsame.symm.trans htaken))
          exact ⟨hlo, hhi⟩
        · rw [hnone] at htaken
          cases htaken
      | ended =>
        rw [hsound.1] at htaken
        cases htaken
    · intro s hs hs'
      change s ≤ s'.cursor at hs'
      cases result with
      | running call' =>
        rcases hsound.2 with ⟨hcursor, -⟩ | ⟨-, -, htaken⟩
        · omega
        · exact ⟨_, _, htaken, by omega, hs'⟩
      | claimed lo hi =>
        rcases hsound.2.2 with ⟨hcursor, -⟩ | ⟨-, rfl, rfl⟩
        · omega
        · exact ⟨by omega, hs'⟩
      | ended =>
        have hcursor := hsound.2
        omega
  · refine ⟨fun s hs => Or.inl hs, ?_, fun s hs => hs⟩
    intro t ht ht'
    change t ≤ r.sequencer.cursor at ht'
    omega
  · refine ⟨fun s hs => Or.inl hs, ?_, fun s hs => hs⟩
    intro s hs hs'
    omega
  · refine ⟨?_, ?_, ?_⟩
    · rintro s ⟨hlo, hhi⟩
      by_cases hsn : s = n
      · subst hsn
        exact Or.inr (by simp [Ring.setAvailable])
      · exact Or.inl ⟨by omega, hhi⟩
    · intro s hs hs'
      change s ≤ r.sequencer.cursor at hs'
      omega
    · intro s hs
      by_cases hsn : s = n
      · subst hsn
        simp [Ring.setAvailable]
      · simpa [Ring.setAvailable, Function.update_of_ne hsn] using hs
  · refine ⟨?_, ?_, fun s hs => hs⟩
    · rintro s ⟨hlo, hhi⟩
      omega
    · intro s hs hs'
      omega

lemma producerStep_bufferSize (h : RingInvariant b sequences r)
    (hp : ProducerHolds sequences p l r) (hs : producerStep p r l a = some (r', l')) :
    r'.sequencer.bufferSize = r.sequencer.bufferSize := by
  rcases producerStep_cases hs with ⟨op, -, rfl, -⟩ |
    ⟨call, spurious, result, s', rfl, hstep, rfl, -⟩ | ⟨lo, hi, s, v, -, -, -, rfl, -⟩ |
    ⟨lo, hi, -, -, rfl, -⟩ | ⟨n, hi, -, -, rfl, -⟩ | ⟨n, hi, -, -, rfl, -⟩
  · rfl
  · exact (h.safe.callStep hp.1 hstep).2.2.1
  · rfl
  · rfl
  · rfl
  · rfl

lemma producerStep_fits (h : RingInvariant b sequences r) (hp : ProducerHolds sequences p l r)
    (hl : l.Fits r.sequencer) (hs : producerStep p r l a = some (r', l')) :
    l'.Fits r'.sequencer := by
  have hsize := producerStep_bufferSize h hp hs
  rcases producerStep_cases hs with ⟨op, -, rfl, rfl⟩ |
    ⟨call, spurious, result, s', rfl, hstep, rfl, rfl⟩ | ⟨lo, hi, s, v, rfl, -, -, rfl, rfl⟩ |
    ⟨lo, hi, -, -, -, rfl⟩ | ⟨n, hi, -, -, -, rfl⟩ | ⟨n, hi, -, -, -, rfl⟩
  · cases hresult : r'.sequencer.enter op with
    | running call => exact enter_fits hresult
    | claimed lo hi | ended => trivial
  · cases result with
    | running call' => exact (ClaimCall.Fits.callStep hl hstep).of_bufferSize hsize
    | claimed lo hi | ended => trivial
  · exact hl
  · trivial
  · trivial
  · trivial

section

variable [DecidableEq P] [DecidableEq C] [DecidableEq X] {barriers : C → Barrier (C ⊕ X)}
  {hl : ∀ c, some (.inl c) ∈ sequences}
  {cfg cfg' : ThreadPool.Config (Ring P C X V) (Local P C X V)}

omit [DecidableEq P] [DecidableEq C] [DecidableEq X] in
/-- Threads that are no producers leave the sequencer and the flags alone. -/
lemma Accounted.of_shared (h : Accounted cfg)
    (hsequencer : cfg'.shared.sequencer = cfg.shared.sequencer)
    (hpublished : cfg'.shared.published = cfg.shared.published)
    (hthreads : ∀ p, cfg'.threads (.producer p) = cfg.threads (.producer p)) :
    Accounted cfg' := by
  constructor
  · intro s hs hs'
    rw [hsequencer] at hs'
    rw [hpublished]
    exact (h.covered s hs hs').imp_right fun ⟨p, hp⟩ => ⟨p, by rw [hthreads]; exact hp⟩
  · intro p
    rw [hsequencer, hthreads]
    exact h.fits p

/-- Every step keeps the account. -/
lemma Accounted.next (hholds : (outline (V := V) b barriers sequences hl).Holds cfg)
    (h : Accounted cfg) {x : Σ t, Action P C X V t}
    (hs : (pool barriers).next cfg x = some cfg') : Accounted cfg' := by
  obtain ⟨t, a⟩ := x
  obtain ⟨r', l', hstep, rfl⟩ := (pool barriers).next_eq_some.mp hs
  cases t with
  | producer p =>
    have hp : ProducerHolds sequences p (cfg.threads (.producer p)) cfg.shared :=
      hholds.threads (.producer p)
    obtain ⟨hkeeps, hmoves, hpublished⟩ := producerStep_owes hholds.shared hp hstep
    have hsize := producerStep_bufferSize hholds.shared hp hstep
    constructor
    · intro s hs hs'
      simp only at hs' ⊢
      by_cases hold : s ≤ cfg.shared.sequencer.cursor
      · rcases h.covered s hs hold with hset | ⟨q, hq⟩
        · exact Or.inl (hpublished s hset)
        · by_cases hqp : q = p
          · subst hqp
            rcases hkeeps s hq with howes | hset
            · exact Or.inr ⟨q, by simpa using howes⟩
            · exact Or.inl hset
          · refine Or.inr ⟨q, ?_⟩
            rw [Function.update_of_ne (by simpa using hqp)]
            exact hq
      · exact Or.inr ⟨p, by simpa using hmoves s (by omega) hs'⟩
    · intro q
      by_cases hqp : q = p
      · subst hqp
        simpa using producerStep_fits hholds.shared hp (h.fits q) hstep
      · simp only [Function.update_of_ne (fun heq => hqp (Thread.producer.inj heq))]
        have hfits := h.fits q
        revert hfits
        cases cfg.threads (.producer q) with
        | calling call => exact fun hfits => ClaimCall.Fits.of_bufferSize hfits hsize
        | idle | holding lo hi | publishing lo hi => exact id
  | consumer c =>
    have hsame : r'.sequencer = cfg.shared.sequencer ∧ r'.published = cfg.shared.published := by
      rcases consumerStep_cases hstep with ⟨-, rfl⟩ | ⟨hi, -, rfl⟩
      · exact ⟨rfl, rfl⟩
      · exact ⟨rfl, rfl⟩
    refine h.of_shared hsame.1 hsame.2 ?_
    intro p
    have hne : (Thread.producer p : Thread P C X) ≠ .consumer c := by simp
    exact Function.update_of_ne hne l' _
  | other x =>
    obtain ⟨-, rfl⟩ := advanceStep_cases hstep
    refine h.of_shared rfl rfl ?_
    intro p
    have hne : (Thread.producer p : Thread P C X) ≠ .other x := by simp
    exact Function.update_of_ne hne l' _

/-- The outline, and the account. -/
structure Sound (b : BufferSize) (barriers : C → Barrier (C ⊕ X))
    (hl : ∀ c, some (.inl c) ∈ sequences)
    (cfg : ThreadPool.Config (Ring P C X V) (Local P C X V)) : Prop where
  holds : (outline b barriers sequences hl).Holds cfg
  accounted : Accounted cfg

lemma Sound.next (h : Sound b barriers hl cfg) {x : Σ t, Action P C X V t}
    (hs : (pool barriers).next cfg x = some cfg') : Sound b barriers hl cfg' :=
  ⟨h.holds.next hs, h.accounted.next h.holds hs⟩

lemma Sound.reaches (h : Sound b barriers hl cfg)
    (hr : Reaches (pool barriers).next cfg cfg') : Sound b barriers hl cfg' :=
  Reaches.invariant (Sound b barriers hl) (fun _ _ _ hi hs => hi.next hs) h hr

lemma sound_initial (b : BufferSize) (entries : Int → V) (values : C ⊕ X → Int)
    (barriers : C → Barrier (C ⊕ X)) (hl : ∀ c, some (.inl c) ∈ sequences) :
    Sound (P := P) b barriers hl (initial b entries values sequences) := by
  refine ⟨outline_initial b entries values barriers sequences hl, ?_, fun p => trivial⟩
  intro s hs hs'
  have hcursor : (initial (P := P) b entries values sequences).shared.sequencer.cursor = -1 := rfl
  omega

/-! ### A producer publishes what it owes -/

omit [DecidableEq P] in
/-- What a producer does on its own with the slots of its range: the history of writes grows, and
nothing else of what others see changes. -/
lemma reaches_written (barriers : C → Barrier (C ⊕ X)) (p : P) (r : Ring P C X V) (lo hi : Int)
    (n : Nat) (hn : lo + n ≤ hi + 1) :
    ∃ r', Reaches ((pool barriers).solo (.producer p)) (r, Producer.holding lo hi)
        (r', Producer.holding lo hi) ∧ r'.sequencer = r.sequencer ∧ r'.values = r.values ∧
      r'.published = r.published ∧ ∀ i < n, (r'.log (lo + i)).isSome = true := by
  induction n with
  | zero => exact ⟨r, Reaches.refl _ _, rfl, rfl, rfl, by simp⟩
  | succ n ih =>
    obtain ⟨r', hreach, hsequencer, hvalues, hpublished, hlog⟩ := ih (by omega)
    refine ⟨r'.write p (lo + n) (r'.get (lo + n)), hreach.trans (Reaches.single
      (a := .write (lo + n) (r'.get (lo + n))) ?_), hsequencer, hvalues, hpublished, ?_⟩
    · have hrange : lo ≤ lo + (n : Int) ∧ lo + (n : Int) ≤ hi := by omega
      simp [ThreadPool.solo, pool, producerStep, hrange]
    · intro i hi'
      by_cases hin : i = n
      · subst hin
        simp [Ring.write]
      · have hne : lo + (i : Int) ≠ lo + n := by omega
        simp only [Ring.write, Function.update_of_ne hne]
        exact hlog i (by omega)

omit [DecidableEq P] in
/-- A call that is granted its range. -/
lemma reaches_holding (barriers : C → Barrier (C ⊕ X)) (p : P) {r : Ring P C X V}
    {call : ClaimCall (C ⊕ X)} {lo hi : Int} {m' : MultiProducerSequencer (C ⊕ X)}
    (h : Grants r.values lo hi r.sequencer call m') :
    ∃ r', Reaches ((pool barriers).solo (.producer p)) (r, Producer.calling call)
        (r', Producer.holding lo hi) ∧ r'.sequencer = m' ∧ r'.values = r.values ∧
      r'.published = r.published := by
  generalize hm : r.sequencer = m at h
  generalize hv : r.values = values at h ⊢
  induction h generalizing r with
  | @done m m' call hs =>
    subst hm hv
    refine ⟨r.after p m' (.claimed lo hi), Reaches.single (a := .proceed false) ?_, rfl, rfl, rfl⟩
    simp [ThreadPool.solo, pool, producerStep, hs, Producer.after]
  | @go m m₁ m' call call' hs _ ih =>
    subst hm hv
    obtain ⟨r', hreach, hrest⟩ := ih (r := r.after p m₁ (.running call')) rfl rfl
    refine ⟨r', Reaches.head (a := .proceed false) ?_ hreach, hrest⟩
    simp [ThreadPool.solo, pool, producerStep, hs, Producer.after]

omit [DecidableEq P] in
/-- A producer that holds its range writes it and stores the first flag. -/
lemma reaches_published_of_holding (barriers : C → Barrier (C ⊕ X)) (p : P) (r : Ring P C X V)
    {lo hi : Int} (hle : lo ≤ hi) :
    ∃ r' l', Reaches ((pool barriers).solo (.producer p)) (r, Producer.holding lo hi) (r', l') ∧
      r'.sequencer.cursor = r.sequencer.cursor ∧ r'.values = r.values ∧
      r'.published = Function.update r.published lo true := by
  obtain ⟨r', hreach, hsequencer, hvalues, hpublished, hlog⟩ :=
    reaches_written barriers p r lo hi (hi + 1 - lo).toNat (by omega)
  have hwritten : r'.Written lo hi := fun i hi' => hlog i (List.mem_range.mp hi')
  refine ⟨r'.setAvailable lo, .publishing (lo + 1) hi, hreach.trans (Reaches.head (a := .publish)
    (t := (r', .publishing lo hi)) ?_ (Reaches.single (a := .publish) ?_)), ?_, hvalues, ?_⟩
  · simp [ThreadPool.solo, pool, producerStep, hwritten]
  · simp [ThreadPool.solo, pool, producerStep, hle]
  · simp only [Ring.setAvailable, setAvailable, hsequencer]
  · simp only [Ring.setAvailable, hpublished]

/-- The producer of the lowest sequence that is not published publishes it, once the consumers have
read what is below. -/
lemma Sound.publishes (h : Sound b barriers hl cfg) {s : Int} (hs : 0 ≤ s)
    (hcursor : s ≤ cfg.shared.sequencer.cursor) (hunpublished : cfg.shared.published s = false)
    (hbelow : ∀ t, 0 ≤ t → t < s → cfg.shared.published t = true)
    (hvalues : ∀ i, some i ∈ sequences → s - 1 ≤ cfg.shared.values i) :
    ∃ cfg', Reaches (pool barriers).next cfg cfg' ∧
      cfg'.shared.sequencer.cursor = cfg.shared.sequencer.cursor ∧
      cfg'.shared.values = cfg.shared.values ∧
      cfg'.shared.published = Function.update cfg.shared.published s true := by
  have hinv : RingInvariant b sequences cfg.shared := h.holds.shared
  obtain ⟨p, howes⟩ := (h.accounted.covered s hs hcursor).resolve_left (by simp [hunpublished])
  have hp : ProducerHolds sequences p (cfg.threads (.producer p)) cfg.shared :=
    h.holds.threads (.producer p)
  have hfits := h.accounted.fits p
  -- a range of which nothing is published starts at `s`
  have hfirst : ∀ lo hi, lo ≤ s → s ≤ hi →
      (∀ t, lo ≤ t → t ≤ hi → cfg.shared.owner t = some p ∧ cfg.shared.published t = false) →
      lo = s := by
    intro lo hi hlo hhi hnone
    by_contra hne
    obtain ⟨howner, hunpublished'⟩ := hnone lo le_rfl (hlo.trans hhi)
    have hset := hbelow lo (hinv.owned lo p howner).1 (by omega)
    rw [hunpublished'] at hset
    cases hset
  suffices hsolo : ∃ r' l', Reaches ((pool barriers).solo (.producer p))
      (cfg.shared, cfg.threads (.producer p)) (r', l') ∧
      r'.sequencer.cursor = cfg.shared.sequencer.cursor ∧ r'.values = cfg.shared.values ∧
      r'.published = Function.update cfg.shared.published s true by
    obtain ⟨r', l', hreach, hcursor', hvalues', hpublished⟩ := hsolo
    exact ⟨_, ThreadPool.reaches_of_solo hreach, hcursor', hvalues', hpublished⟩
  generalize cfg.threads (.producer p) = l at howes hp hfits
  cases l with
  | idle => exact howes.elim
  | calling call =>
    obtain ⟨lo, hi, htaken, hlo, hhi⟩ := howes
    obtain ⟨hknows, htakes⟩ := hp
    obtain rfl := hfirst lo hi hlo hhi fun t ht ht' => by
      obtain ⟨howner, hnot⟩ := htakes lo hi htaken t ht ht'
      refine ⟨howner, ?_⟩
      cases hset : cfg.shared.published t with
      | false => rfl
      | true => exact absurd (hinv.published_granted t hset).1 hnot
    obtain ⟨m', hgrants, hcursor'⟩ :=
      exists_grants hinv.safe.gating hknows hfits htaken hvalues
    obtain ⟨r₁, hreach₁, rfl, hvalues₁, hpublished₁⟩ :=
      reaches_holding barriers p hgrants
    obtain ⟨r', l', hreach, hcursor₂, hvalues₂, hpublished₂⟩ :=
      reaches_published_of_holding barriers p r₁ hhi
    exact ⟨r', l', hreach₁.trans hreach, hcursor₂.trans hcursor', hvalues₂.trans hvalues₁,
      by rw [hpublished₂, hpublished₁]⟩
  | holding lo hi =>
    obtain rfl := hfirst lo hi howes.1 howes.2 fun t ht ht' => by
      obtain ⟨howner, -, hunset⟩ := hp t ht ht'
      exact ⟨howner, hunset⟩
    exact reaches_published_of_holding barriers p cfg.shared howes.2
  | publishing n hi =>
    obtain rfl := hfirst n hi howes.1 howes.2 fun t ht ht' => by
      obtain ⟨howner, -, hunset⟩ := hp.1 t ht ht'
      exact ⟨howner, hunset⟩
    refine ⟨cfg.shared.setAvailable n, .publishing (n + 1) hi, Reaches.single (a := .publish) ?_,
      rfl, rfl, rfl⟩
    simp [ThreadPool.solo, pool, producerStep, howes.2]

/-! ### A consumer reads what is published -/

omit [DecidableEq P] in
/-- A consumer reads up to the answer of its barrier, and moves its sequence there. -/
lemma reaches_passed (barriers : C → Barrier (C ⊕ X)) (c : C) (r : Ring P C X V) {next hi : Int}
    (hle : next ≤ hi + 1) (reads : List (Int × V)) :
    ∃ reads', Reaches ((pool barriers).solo (.consumer c))
      (r, ({ pc := .reading next hi, reads } : Consumer (C ⊕ X) V))
      ({ r with values := Function.update r.values (.inl c) hi }, { reads := reads' }) := by
  induction hn : (hi + 1 - next).toNat generalizing next reads with
  | zero =>
    refine ⟨reads, Reaches.single (a := .proceed) ?_⟩
    have hlt : ¬ next ≤ hi := by omega
    simp [ThreadPool.solo, pool, consumerStep, Consumer.step, hlt]
  | succ n ih =>
    have hmore : next ≤ hi := by omega
    have hnext : next + 1 ≤ hi + 1 := by omega
    obtain ⟨reads', hreach⟩ := ih hnext (reads ++ [(next, r.get next)]) (by omega)
    refine ⟨reads', Reaches.head (a := .proceed) ?_ hreach⟩
    simp [ThreadPool.solo, pool, consumerStep, Consumer.step, hmore]

omit [DecidableEq P] in
/-- A call of `waitFor` that returns. -/
lemma reaches_reading (r : Ring P C X V) {c : C} {h : Int} {call : WaitCall (C ⊕ X)}
    (hreturns : call.Returns (barriers c) r.view (r.values (.inl c) + 1) h)
    (reads : List (Int × V)) :
    Reaches ((pool barriers).solo (.consumer c))
      (r, ({ pc := .waiting call, reads } : Consumer (C ⊕ X) V))
      (r, { pc := .reading (r.values (.inl c) + 1) h, reads }) := by
  induction hreturns with
  | done hs =>
    refine Reaches.single (a := .proceed) ?_
    simp [ThreadPool.solo, pool, consumerStep, Consumer.step, hs]
  | go hs _ ih =>
    refine Reaches.head (a := .proceed) ?_ ih
    simp [ThreadPool.solo, pool, consumerStep, Consumer.step, hs]

omit [DecidableEq P] in
/-- What a consumer waits for is there. -/
lemma Sound.ready (h : Sound b barriers hl cfg) {c : C}
    (hpublished : cfg.shared.published (cfg.shared.values (.inl c) + 1) = true)
    (hdependents : ∀ i ∈ (barriers c).dependentSequences,
      cfg.shared.values (.inl c) + 1 ≤ cfg.shared.values i)
    (hmax : cfg.shared.sequencer.cursor ≤ INT64_MAX) :
    WaitCall.Ready (barriers c) cfg.shared.view (cfg.shared.values (.inl c) + 1) := by
  have hinv : RingInvariant b sequences cfg.shared := h.holds.shared
  obtain ⟨⟨g, hg, hcovers⟩, -⟩ := hinv.published_granted _ hpublished
  have hcursor := (hinv.owned _ _ (hinv.granted_owned g hg _ hcovers)).2
  refine ⟨rfl, hcursor, hdependents, ?_, hcursor.trans hmax⟩
  intro isAvailable havailable
  obtain rfl := Option.some.inj havailable
  have hflags : cfg.shared.sequencer.FlagsAbove cfg.shared.published
      (cfg.shared.values (.inl c)) := hinv.flags c
  refine (hflags.isAvailable_iff_of_below ?_ (by omega) (fun t ht ht' => by omega)).mpr hpublished
  exact fun t ht => hinv.granted_le_lap hl c (hinv.published_granted t ht).1

/-- A consumer whose next sequence is published, and passed by those that it depends on, moves its
sequence forward. -/
lemma Sound.advances (h : Sound b barriers hl cfg) {c : C}
    (hpublished : cfg.shared.published (cfg.shared.values (.inl c) + 1) = true)
    (hdependents : ∀ i ∈ (barriers c).dependentSequences,
      cfg.shared.values (.inl c) + 1 ≤ cfg.shared.values i)
    (hmax : cfg.shared.sequencer.cursor ≤ INT64_MAX) :
    ∃ cfg' hi, Reaches (pool barriers).next cfg cfg' ∧ cfg.shared.values (.inl c) < hi ∧
      cfg'.shared =
        { cfg.shared with values := Function.update cfg.shared.values (.inl c) hi } := by
  have hready := h.ready hpublished hdependents hmax
  have hc : ConsumerHolds barriers c (cfg.threads (.consumer c)) cfg.shared :=
    h.holds.threads (.consumer c)
  suffices hsolo : ∃ hi l', Reaches ((pool barriers).solo (.consumer c))
      (cfg.shared, cfg.threads (.consumer c))
      ({ cfg.shared with values := Function.update cfg.shared.values (.inl c) hi }, l') ∧
      cfg.shared.values (.inl c) < hi by
    obtain ⟨hi, l', hreach, hlt⟩ := hsolo
    exact ⟨_, hi, ThreadPool.reaches_of_solo hreach, hlt, rfl⟩
  -- from `waitFor` on
  have hwaiting : ∀ call reads, call.Placed cfg.shared.view (cfg.shared.values (.inl c) + 1) →
      ∃ hi l', Reaches ((pool barriers).solo (.consumer c))
        (cfg.shared, ({ pc := .waiting call, reads } : Consumer (C ⊕ X) V))
        ({ cfg.shared with values := Function.update cfg.shared.values (.inl c) hi }, l') ∧
        cfg.shared.values (.inl c) < hi := by
    intro call reads hplaced
    obtain ⟨hi, hle, hreturns⟩ := hready.returns hplaced
    have hnext : cfg.shared.values (.inl c) + 1 ≤ hi + 1 := by omega
    obtain ⟨reads', hreach⟩ := reaches_passed barriers c cfg.shared hnext reads
    exact ⟨hi, _, (reaches_reading cfg.shared hreturns reads).trans hreach, by omega⟩
  have hidle : ∀ reads, ∃ hi l', Reaches ((pool barriers).solo (.consumer c))
      (cfg.shared, ({ reads } : Consumer (C ⊕ X) V))
      ({ cfg.shared with values := Function.update cfg.shared.values (.inl c) hi }, l') ∧
      cfg.shared.values (.inl c) < hi := by
    intro reads
    obtain ⟨hi, l', hreach, hlt⟩ := hwaiting .checkAlert reads trivial
    refine ⟨hi, l', Reaches.head (a := .proceed) ?_ hreach, hlt⟩
    simp [ThreadPool.solo, pool, consumerStep, Consumer.step]
  generalize cfg.threads (.consumer c) = l at hc
  obtain ⟨pc, reads⟩ := l
  cases pc with
  | idle => exact hidle reads
  | waiting call =>
    refine hwaiting call reads ?_
    have hknows := hc.2
    cases call with
    | readFlag a s => exact ⟨rfl, hknows.1, hknows.2.1⟩
    | _ => trivial
  | reading next hi =>
    obtain ⟨-, hlt, hle, -⟩ := hc
    obtain ⟨reads', hreach⟩ := reaches_passed barriers c cfg.shared hle reads
    by_cases hmoved : cfg.shared.values (.inl c) < hi
    · exact ⟨hi, _, hreach, hmoved⟩
    · -- the barrier had answered with less than was asked for
      obtain rfl : hi = cfg.shared.values (.inl c) := by omega
      rw [Function.update_eq_self] at hreach
      obtain ⟨hi, l', hreach', hlt'⟩ := hidle reads'
      exact ⟨hi, l', hreach.trans hreach', hlt'⟩

/-! ### The ring drains -/

/-- The other threads move their sequences up to a position. -/
lemma reaches_advanced (barriers : C → Barrier (C ⊕ X)) (k : Int) (xs : List X)
    (cfg : ThreadPool.Config (Ring P C X V) (Local P C X V)) :
    ∃ cfg', Reaches (pool barriers).next cfg cfg' ∧
      cfg'.shared.sequencer = cfg.shared.sequencer ∧
      cfg'.shared.published = cfg.shared.published ∧
      (∀ c, cfg'.shared.values (.inl c) = cfg.shared.values (.inl c)) ∧
      (∀ i, cfg.shared.values i ≤ cfg'.shared.values i) ∧
      ∀ x ∈ xs, k ≤ cfg'.shared.values (.inr x) := by
  induction xs with
  | nil => exact ⟨cfg, Reaches.refl _ _, rfl, rfl, fun _ => rfl, fun _ => le_rfl, by simp⟩
  | cons x xs ih =>
    obtain ⟨cfg', hreach, hsequencer, hpublished, hconsumers, hle, hxs⟩ := ih
    let v := max (cfg'.shared.values (.inr x)) k
    let r := { cfg'.shared with values := Function.update cfg'.shared.values (.inr x) v }
    have hgrows : ∀ i, cfg'.shared.values i ≤ r.values i := le_update_values (le_max_left _ k)
    refine ⟨⟨r, Function.update cfg'.threads (.other x) ()⟩,
      hreach.trans (Reaches.single (a := ⟨.other x, v⟩) ?_), hsequencer, hpublished, ?_, ?_, ?_⟩
    · refine (pool barriers).next_eq_some.mpr ⟨r, (), ?_, rfl⟩
      simp [pool, advanceStep, r, v]
    · intro c
      have hne : (Sum.inl c : C ⊕ X) ≠ .inr x := by simp
      exact (Function.update_of_ne hne v cfg'.shared.values).trans (hconsumers c)
    · exact fun i => (hle i).trans (hgrows i)
    · intro y hy
      rcases List.mem_cons.mp hy with rfl | hy
      · show k ≤ Function.update cfg'.shared.values (.inr y) v (.inr y)
        rw [Function.update_self]
        exact le_max_right _ k
      · exact (hxs y hy).trans (hgrows _)

/-- Everything that was taken is published, and every consumer has read it. -/
structure Drained (r : Ring P C X V) : Prop where
  published : ∀ s, 0 ≤ s → s ≤ r.sequencer.cursor → r.published s = true
  values : ∀ c, r.values (.inl c) = r.sequencer.cursor

/-- The ring gets from one state to the other, takes nothing off the cursor and loses nothing. -/
structure Onward (barriers : C → Barrier (C ⊕ X))
    (cfg cfg' : ThreadPool.Config (Ring P C X V) (Local P C X V)) : Prop where
  reaches : Reaches (pool barriers).next cfg cfg'
  cursor : cfg'.shared.sequencer.cursor = cfg.shared.sequencer.cursor
  published : ∀ s, cfg.shared.published s = true → cfg'.shared.published s = true
  values : ∀ i, cfg.shared.values i ≤ cfg'.shared.values i

/-- The other threads move their sequences up to a position. -/
lemma onward_advanced (barriers : C → Barrier (C ⊕ X)) (k : Int) (xs : List X)
    (cfg : ThreadPool.Config (Ring P C X V) (Local P C X V)) :
    ∃ cfg', Onward barriers cfg cfg' ∧
      (∀ c, cfg'.shared.values (.inl c) = cfg.shared.values (.inl c)) ∧
      ∀ x ∈ xs, k ≤ cfg'.shared.values (.inr x) := by
  obtain ⟨cfg', hreach, hsequencer, hpublished, hconsumers, hgrows, hxs⟩ :=
    reaches_advanced barriers k xs cfg
  refine ⟨cfg', ⟨hreach, congrArg _ hsequencer, ?_, hgrows⟩, hconsumers, hxs⟩
  rw [hpublished]
  exact fun s => id

/-- A gating sequence that is behind what is published moves on. -/
lemma Sound.onward (h : Sound b barriers hl cfg) {u : Int}
    (hmax : cfg.shared.sequencer.cursor ≤ INT64_MAX)
    (hupto : Upto (cfg.shared.published · = true) u) {i : C ⊕ X} (hlt : cfg.shared.values i < u)
    (hdependents : ∀ c d, i = .inl c → .inl d ∈ (barriers c).dependentSequences →
      u ≤ cfg.shared.values (.inl d)) :
    ∃ cfg', Onward barriers cfg cfg' ∧ cfg.shared.values i < cfg'.shared.values i := by
  cases i with
  | inr x =>
    obtain ⟨cfg', honward, -, hxs⟩ := onward_advanced barriers u [x] cfg
    exact ⟨cfg', honward, hlt.trans_le (hxs x (List.mem_singleton_self x))⟩
  | inl c =>
    -- the other sequences that the consumer depends on go first
    obtain ⟨cfg₁, honward₁, hconsumers₁, hothers₁⟩ := onward_advanced barriers u
      ((barriers c).dependentSequences.filterMap Sum.getRight?) cfg
    have h₁ := h.reaches honward₁.reaches
    have hstart := h.holds.shared.start c
    simp only [INITIAL_VALUE] at hstart
    obtain ⟨cfg₂, hi, hreach₂, hmore, hshared₂⟩ := h₁.advances (c := c)
      (by
        rw [hconsumers₁]
        exact honward₁.published _ (hupto _ (by omega) (by omega)))
      (by
        intro i hi
        rw [hconsumers₁]
        cases i with
        | inl d =>
          rw [hconsumers₁]
          have := hdependents c d rfl hi
          omega
        | inr x =>
          have := hothers₁ x (List.mem_filterMap.mpr ⟨_, hi, rfl⟩)
          omega)
      (by rw [honward₁.cursor]; exact hmax)
    refine ⟨cfg₂, ⟨honward₁.reaches.trans hreach₂, ?_, ?_, ?_⟩, ?_⟩
    · rw [hshared₂]
      exact honward₁.cursor
    · rw [hshared₂]
      exact honward₁.published
    · rw [hshared₂]
      exact fun i => (honward₁.values i).trans (le_update_values hmore.le i)
    · rw [hshared₂]
      simp only [Function.update_self]
      rw [← hconsumers₁]
      exact hmore

/-- Claims are published in order and consumers follow one another, as in any log. -/
lemma drains (b : BufferSize) (barriers : C → Barrier (C ⊕ X))
    (hl : ∀ c, some (.inl c) ∈ sequences) {rank : C → Nat}
    (hrank : ∀ c d, .inl d ∈ (barriers c).dependentSequences → rank d < rank c) {last : Int}
    (hmax : last ≤ INT64_MAX) :
    Drains (fun cfg : ThreadPool.Config (Ring P C X V) (Local P C X V) =>
        Sound b barriers hl cfg ∧ cfg.shared.sequencer.cursor = last)
      (Onward barriers) (fun cfg s => cfg.shared.published s = true)
      (fun cfg => cfg.shared.values) last (sequences.filterMap id)
      (Sum.elim rank fun _ => 0) where
  refl := ⟨Reaches.refl _ _, rfl, fun _ => id, fun _ => le_rfl⟩
  trans h h' := ⟨h.reaches.trans h'.reaches, h'.cursor.trans h.cursor,
    fun s hs => h'.published s (h.published s hs), fun i => (h.values i).trans (h'.values i)⟩
  keeps h honward := ⟨h.1.reaches honward.reaches, honward.cursor.trans h.2⟩
  published_mono u _ honward := honward.published u
  value_mono i _ honward := honward.values i
  publishes u h hu hlast hbelow hnot hvalues := by
    obtain ⟨cfg', hreach, hcursor, hsame, hpublished⟩ := h.1.publishes hu (hlast.trans h.2.ge)
      (by simpa using hnot) (fun t ht ht' => hbelow t ht (by omega))
      fun i hi => hvalues i (List.mem_filterMap.mpr ⟨some i, hi, rfl⟩)
    refine ⟨cfg', ⟨hreach, hcursor, ?_, fun i => (congrFun hsame i).ge⟩, by simp [hpublished]⟩
    intro t ht
    rw [hpublished]
    by_cases htu : t = u
    · simp [htu]
    · rwa [Function.update_of_ne htu]
  advances u i h hlast hupto _ hlt hbelow := by
    refine h.1.onward (h.2.le.trans hmax) hupto hlt ?_
    rintro c d rfl hd
    exact hbelow (.inl d) (List.mem_filterMap.mpr ⟨_, hl d, rfl⟩) (hrank c d hd)

end

end Disruptor.MultiProducerRing
