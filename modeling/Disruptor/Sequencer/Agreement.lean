import Disruptor.Sequencer.SingleProducer.Basic
import Disruptor.Sequencer.MultiProducer.Basic

/-!
# The two sequencers agree for one disciplined producer

One thread uses a sequencer and publishes each claim at once. A `SingleProducerSequencer` and a
`MultiProducerSequencer` that are used in the same way answer alike, although they share almost
no state: the claimed position of the one is the cursor of the other, the cached gating value of
the one is the gating cache of the other, and the published cursor of the one shows up in the
round flags of the other.
-/

namespace Disruptor

variable {ι : Type*} [DecidableEq ι]

/-- A complete operation of the producer; a granted claim is published at once. -/
inductive DisciplinedOperation (ι : Type*) where
  | next (n : Int) (passes : List (ι → Int))
  | tryNext (n : Int) (spurious : Nat)
  | hasAvailableCapacity (n : Int)
  | remainingCapacity
  | getCursor
  | getMinimumSequence
  | addGatingSequences (gatingSequences : List (Option ι))
  | removeGatingSequence (sequence : ι)
  | isAvailable (sequence : Int)
  | getHighestPublishedSequence (lo hi : Int)
  | advance (values : ι → Int)

/-- What an operation answers; `waiting` when `next` does not get past its wait loop. -/
inductive Reply where
  | waiting
  | claimed (result : Except String Int)
  | tried (result : Except Error Int)
  | flag (result : Bool)
  | sequence (result : Int)
  | done

/-- The operations whose arguments the agreement is about, at a given cursor. -/
def DisciplinedOperation.InRange (cursor size : Int) : DisciplinedOperation ι → Prop
  | .isAvailable q => cursor - 2 * size < q ∧ q < cursor + 2 * size
  | .getHighestPublishedSequence lo hi => max 0 (cursor - size + 1) ≤ lo ∧ hi ≤ cursor
  | _ => True

namespace SingleProducerSequencer

/-- Perform one operation; no state when the thread is left waiting. -/
def perform (s : SingleProducerSequencer ι) (values : ι → Int) :
    DisciplinedOperation ι → Reply × Option (SingleProducerSequencer ι × (ι → Int))
  | .next n passes =>
    match s.next n values passes with
    | none => (.waiting, none)
    | some (.error e, values', s') => (.claimed (.error e), some (s', values'))
    | some (.ok hi, values', s') =>
      (.claimed (.ok hi), some (s'.publishRange (hi - n + 1) hi, values'))
  | .tryNext n _ =>
    match s.tryNext n values with
    | (.error e, s') => (.tried (.error e), some (s', values))
    | (.ok hi, s') => (.tried (.ok hi), some (s'.publishRange (hi - n + 1) hi, values))
  | .hasAvailableCapacity n =>
    let r := s.hasAvailableCapacity n values
    (.flag r.1, some (r.2, values))
  | .remainingCapacity =>
    let r := s.remainingCapacity values
    (.sequence r.1, some (r.2, values))
  | .getCursor => (.sequence s.getCursor, some (s, values))
  | .getMinimumSequence => (.sequence (s.getMinimumSequence values), some (s, values))
  | .addGatingSequences l =>
    let r := s.addGatingSequences values l
    (.done, some (r.2, r.1))
  | .removeGatingSequence i =>
    let r := s.removeGatingSequence i
    (.flag r.1, some (r.2, values))
  | .isAvailable q => (.flag (s.isAvailable q), some (s, values))
  | .getHighestPublishedSequence lo hi =>
    (.sequence (s.getHighestPublishedSequence lo hi), some (s, values))
  | .advance values' => (.done, some (s, values'))

/-- The answers to a list of operations, each with the values of the sequences after it. -/
def replies (s : SingleProducerSequencer ι) (values : ι → Int) :
    List (DisciplinedOperation ι) → List (Reply × (ι → Int))
  | [] => []
  | op :: ops =>
    match s.perform values op with
    | (reply, none) => [(reply, values)]
    | (reply, some (s', values')) => (reply, values') :: s'.replies values' ops

/-- Every operation of the list is in range when its turn comes. -/
def InRange (s : SingleProducerSequencer ι) (values : ι → Int) :
    List (DisciplinedOperation ι) → Prop
  | [] => True
  | op :: ops =>
    op.InRange s.getCursor s.getBufferSize ∧
      match s.perform values op with
      | (_, none) => True
      | (_, some (s', values')) => s'.InRange values' ops

end SingleProducerSequencer

namespace MultiProducerSequencer

/-- Perform one operation; no state when the thread is left waiting. -/
def perform (m : MultiProducerSequencer ι) (values : ι → Int) :
    DisciplinedOperation ι → Reply × Option (MultiProducerSequencer ι × (ι → Int))
  | .next n passes =>
    match m.next n values passes with
    | none => (.waiting, none)
    | some (.error e, values', m') => (.claimed (.error e), some (m', values'))
    | some (.ok hi, values', m') =>
      (.claimed (.ok hi), some (m'.publishRange (hi - n + 1) hi, values'))
  | .tryNext n spurious =>
    match m.tryNext n values spurious with
    | (.error e, m') => (.tried (.error e), some (m', values))
    | (.ok hi, m') => (.tried (.ok hi), some (m'.publishRange (hi - n + 1) hi, values))
  | .hasAvailableCapacity n =>
    let r := m.hasAvailableCapacity n values
    (.flag r.1, some (r.2, values))
  | .remainingCapacity =>
    let r := m.remainingCapacity values
    (.sequence r.1, some (r.2, values))
  | .getCursor => (.sequence m.getCursor, some (m, values))
  | .getMinimumSequence => (.sequence (m.getMinimumSequence values), some (m, values))
  | .addGatingSequences l =>
    let r := m.addGatingSequences values l
    (.done, some (r.2, r.1))
  | .removeGatingSequence i =>
    let r := m.removeGatingSequence i
    (.flag r.1, some (r.2, values))
  | .isAvailable q => (.flag (m.isAvailable q), some (m, values))
  | .getHighestPublishedSequence lo hi =>
    (.sequence (m.getHighestPublishedSequence lo hi), some (m, values))
  | .advance values' => (.done, some (m, values'))

/-- The answers to a list of operations, each with the values of the sequences after it. -/
def replies (m : MultiProducerSequencer ι) (values : ι → Int) :
    List (DisciplinedOperation ι) → List (Reply × (ι → Int))
  | [] => []
  | op :: ops =>
    match m.perform values op with
    | (reply, none) => [(reply, values)]
    | (reply, some (m', values')) => (reply, values') :: m'.replies values' ops

end MultiProducerSequencer

/-! ### The simulation relation -/

/-- The two sequencers between the operations of one disciplined producer. -/
structure Agree (s : SingleProducerSequencer ι) (m : MultiProducerSequencer ι) : Prop where
  bufferSize : m.bufferSize = s.bufferSize
  cursor : m.cursor = s.cursor
  published : s.nextValue = s.cursor
  cached : m.gatingSequenceCache = s.cachedValue
  gatingSequences : m.gating.gatingSequences = s.gating.gatingSequences
  coherent_single : s.gating.Coherent
  coherent_multi : m.gating.Coherent
  flags : m.FlagsUpTo s.cursor

/-- Both answer alike, and where both go on they still agree. -/
def Matches : Reply × Option (SingleProducerSequencer ι × (ι → Int)) →
    Reply × Option (MultiProducerSequencer ι × (ι → Int)) → Prop
  | (reply, none), (reply', none) => reply = reply'
  | (reply, some (s, values)), (reply', some (m, values')) =>
    reply = reply' ∧ values = values' ∧ Agree s m
  | _, _ => False

variable {s s' : SingleProducerSequencer ι} {m m' : MultiProducerSequencer ι}
  {values : ι → Int} {n : Int}

omit [DecidableEq ι] in
/-- New sequencers agree: the flags are those of the round before the first. -/
lemma agree_initial (b : BufferSize) :
    Agree ({ bufferSize := b } : SingleProducerSequencer ι) { bufferSize := b } where
  bufferSize := rfl
  cursor := rfl
  published := rfl
  cached := rfl
  gatingSequences := rfl
  coherent_single := Gating.coherent_default
  coherent_multi := Gating.coherent_default
  flags := MultiProducerSequencer.flagsUpTo_initial b {}

omit [DecidableEq ι]

namespace Agree

lemma getBufferSize (h : Agree s m) : m.getBufferSize = s.getBufferSize := by
  rw [MultiProducerSequencer.getBufferSize, SingleProducerSequencer.getBufferSize, h.bufferSize]

lemma current (h : Agree s m) : m.cursor = s.nextValue := h.cursor.trans h.published.symm

lemma wrapPoint (h : Agree s m) (n : Int) : m.wrapPoint m.cursor n = s.wrapPoint n := by
  rw [MultiProducerSequencer.wrapPoint, SingleProducerSequencer.wrapPoint, h.getBufferSize,
    h.current]

lemma cacheExhausted (h : Agree s m) (n : Int) :
    m.CacheExhausted m.cursor n ↔ s.CacheExhausted n := by
  rw [MultiProducerSequencer.CacheExhausted, SingleProducerSequencer.CacheExhausted, h.wrapPoint,
    h.cached, h.current]

/-- Both minima are the one over the common list. -/
lemma minimumSequence_fst (h : Agree s m) (values : ι → Int) (d : Int) :
    (m.minimumSequence values d).1 = (s.minimumSequence values d).1 := by
  simp only [MultiProducerSequencer.minimumSequence, SingleProducerSequencer.minimumSequence,
    h.coherent_multi.minimumSequence_fst, h.coherent_single.minimumSequence_fst,
    h.gatingSequences]

/-- A claim granted to both and published at once: its `n` flags are set. -/
lemma publishRange (h : Agree s m) (hn : 1 ≤ n) {gs gm : Gating ι}
    (hg : gm.gatingSequences = gs.gatingSequences) (hgs : gs.Coherent) (hgm : gm.Coherent)
    (cursor cached : Int) :
    Agree
      ({ s with
          cursor := cursor, gating := gs, cachedValue := cached,
          nextValue := s.nextValue + n }.publishRange
        (s.nextValue + n - n + 1) (s.nextValue + n))
      ({ m with
          cursor := m.cursor + n, gating := gm, gatingSequenceCache := cached }.publishRange
        (s.nextValue + n - n + 1) (s.nextValue + n)) := by
  obtain ⟨claimed, hclaimed⟩ : ∃ claimed : MultiProducerSequencer ι, claimed =
      { m with cursor := m.cursor + n, gating := gm, gatingSequenceCache := cached } := ⟨_, rfl⟩
  have hflags : claimed.FlagsUpTo s.nextValue := by
    subst hclaimed
    exact h.published ▸ h.flags
  have hall := hflags.publishRange hn
  obtain ⟨flags, hflags'⟩ := claimed.publishFrom_eq (s.nextValue + n - n + 1)
    (s.nextValue + n + 1 - (s.nextValue + n - n + 1)).toNat
  rw [← hclaimed]
  refine ⟨?_, ?_, rfl, ?_, ?_, hgs, ?_, hall⟩ <;>
    rw [MultiProducerSequencer.publishRange, hflags', hclaimed]
  · exact h.bufferSize
  · show m.cursor + n = s.nextValue + n
    rw [h.current]
  · rfl
  · exact hg
  · exact hgm

/-- `next` decides alike whether it waits, and claims the same sequences. -/
lemma next (h : Agree s m) (n : Int) (values : ι → Int) (passes : List (ι → Int)) :
    match s.next n values passes, m.next n values passes with
    | none, none => True
    | some (.error e, v, s'), some (.error e', v', m') => e = e' ∧ v = v' ∧ Agree s' m'
    | some (.ok hi, v, s'), some (.ok hi', v', m') =>
      hi = hi' ∧ v = v' ∧
        Agree (s'.publishRange (hi - n + 1) hi) (m'.publishRange (hi - n + 1) hi)
    | _, _ => False := by
  unfold SingleProducerSequencer.next MultiProducerSequencer.next
  simp only [h.cacheExhausted, h.getBufferSize, h.wrapPoint]
  by_cases hn : n < 1 ∨ n > s.getBufferSize
  · simp only [if_pos hn]
    exact ⟨trivial, trivial, h⟩
  · simp only [if_neg hn]
    by_cases hcache : s.CacheExhausted n
    · simp only [if_pos hcache]
      have hcongr := h.coherent_single.waitMinimumSequence_congr h.coherent_multi
        h.gatingSequences (s.wrapPoint n) s.nextValue values passes
      rw [h.current]
      cases hs : s.gating.waitMinimumSequence (s.wrapPoint n) s.nextValue values passes with
      | none =>
        rw [hs, Option.map_none, Option.map_eq_none_iff] at hcongr
        simp [hcongr]
      | some r =>
        obtain ⟨minSequence, v, gs⟩ := r
        rw [hs, Option.map_some, Option.map_eq_some_iff] at hcongr
        obtain ⟨⟨minSequence', v', gm⟩, hm, hr⟩ := hcongr
        simp only [Prod.mk.injEq] at hr
        obtain ⟨rfl, rfl⟩ := hr
        obtain ⟨-, -, hgs, hcs⟩ := h.coherent_single.waitMinimumSequence hs
        obtain ⟨-, -, hgm, hcm⟩ := h.coherent_multi.waitMinimumSequence hm
        simp only [hm, Option.map_some]
        refine ⟨trivial, trivial, ?_⟩
        simpa only [h.current] using h.publishRange (by omega : 1 ≤ n)
          (by rw [hgm, hgs, h.gatingSequences]) hcs hcm s.nextValue minSequence'
    · simp only [if_neg hcache]
      refine ⟨by rw [h.current], trivial, ?_⟩
      have := h.publishRange (by omega : 1 ≤ n) h.gatingSequences h.coherent_single
        h.coherent_multi s.cursor s.cachedValue
      simpa only [← h.cached] using this

/-- The capacity check comes to the same answer and stores the same minimum. -/
lemma hasAvailableCapacity (h : Agree s m) (n : Int) (doStore : Bool) (values : ι → Int) :
    ∃ fits gs cached,
      s.hasAvailableCapacityStoring n doStore values =
        (fits, { s with gating := gs, cachedValue := cached }) ∧
      m.hasAvailableCapacityFrom m.gating.gatingSequences.sequences n m.cursor values =
        (fits, { m with gatingSequenceCache := cached }) ∧
      gs.Coherent ∧ gs.gatingSequences = s.gating.gatingSequences := by
  by_cases hcache : s.CacheExhausted n
  · have hmin : (s.gating.minimumSequence values s.nextValue).1 =
        getMinimumSequence values m.gating.gatingSequences.sequences m.cursor := by
      rw [h.coherent_single.minimumSequence_fst, h.gatingSequences, h.current]
    -- the fence stores what the cursor holds already
    have hfenced : (if doStore then { s with cursor := s.nextValue } else s) = s := by
      split_ifs
      · simp only [h.published]
        exact congrArg (fun v => { s with nextValue := v }) h.published.symm
      · rfl
    refine ⟨decide (s.wrapPoint n ≤ (s.gating.minimumSequence values s.nextValue).1),
      (s.gating.minimumSequence values s.nextValue).2,
      (s.gating.minimumSequence values s.nextValue).1, ?_, ?_,
      h.coherent_single.minimumSequence values s.nextValue, by simp⟩
    · simp only [SingleProducerSequencer.hasAvailableCapacityStoring, if_pos hcache, hfenced,
        SingleProducerSequencer.minimumSequence]
    · simp only [MultiProducerSequencer.hasAvailableCapacityFrom, if_pos ((h.cacheExhausted n).mpr
        hcache), ← hmin, h.wrapPoint]
  · refine ⟨true, s.gating, s.cachedValue, ?_, ?_, h.coherent_single, rfl⟩
    · simp only [SingleProducerSequencer.hasAvailableCapacityStoring, if_neg hcache]
    · simp only [MultiProducerSequencer.hasAvailableCapacityFrom,
        if_neg (mt (h.cacheExhausted n).mp hcache), ← h.cached]

/-- A capacity check leaves the two in agreement. -/
lemma checked (h : Agree s m) {gs : Gating ι} (hgs : gs.Coherent)
    (heq : gs.gatingSequences = s.gating.gatingSequences) (cached : Int) :
    Agree { s with gating := gs, cachedValue := cached }
      { m with gatingSequenceCache := cached } where
  bufferSize := h.bufferSize
  cursor := h.cursor
  published := h.published
  cached := rfl
  gatingSequences := h.gatingSequences.trans heq.symm
  coherent_single := hgs
  coherent_multi := h.coherent_multi
  flags := h.flags

/-- `tryNext` succeeds alike and claims the same sequences. -/
lemma tryNext (h : Agree s m) (n : Int) (values : ι → Int) (spurious : Nat) :
    match s.tryNext n values, m.tryNext n values spurious with
    | (.error e, s'), (.error e', m') => e = e' ∧ Agree s' m'
    | (.ok hi, s'), (.ok hi', m') =>
      hi = hi' ∧ Agree (s'.publishRange (hi - n + 1) hi) (m'.publishRange (hi - n + 1) hi)
    | _, _ => False := by
  unfold SingleProducerSequencer.tryNext MultiProducerSequencer.tryNext
  rw [MultiProducerSequencer.tryNextLoop_eq]
  by_cases hn : n < 1
  · simp only [if_pos hn]
    exact ⟨trivial, h⟩
  · simp only [if_neg hn]
    obtain ⟨fits, gs, cached, hs, hm, hgs, heq⟩ := h.hasAvailableCapacity n true values
    simp only [MultiProducerSequencer.tryNextLoop, hs, hm]
    cases fits with
    | false => exact ⟨rfl, h.checked hgs heq cached⟩
    | true =>
      refine ⟨by rw [h.current], ?_⟩
      exact h.publishRange (by omega) (h.gatingSequences.trans heq.symm) hgs h.coherent_multi
        s.cursor cached

end Agree

/-- One operation: the answers are the same, and the two go on agreeing. -/
theorem matches_perform [DecidableEq ι] (h : Agree s m) (values : ι → Int)
    {op : DisciplinedOperation ι}
    (hop : op.InRange s.getCursor s.getBufferSize) :
    Matches (s.perform values op) (m.perform values op) := by
  cases op with
  | next n passes =>
    have hnext := h.next n values passes
    simp only [SingleProducerSequencer.perform, MultiProducerSequencer.perform]
    revert hnext
    cases s.next n values passes with
    | none =>
      cases m.next n values passes with
      | none => exact fun _ => rfl
      | some r => exact fun hr => hr.elim
    | some r =>
      obtain ⟨result, v, s'⟩ := r
      cases m.next n values passes with
      | none => cases result <;> exact fun hr => hr.elim
      | some r' =>
        obtain ⟨result', v', m'⟩ := r'
        cases result with
        | error e =>
          cases result' with
          | error e' =>
            rintro ⟨rfl, rfl, hagree⟩
            exact ⟨rfl, rfl, hagree⟩
          | ok hi' => exact fun hr => hr.elim
        | ok hi =>
          cases result' with
          | error e' => exact fun hr => hr.elim
          | ok hi' =>
            rintro ⟨rfl, rfl, hagree⟩
            exact ⟨rfl, rfl, hagree⟩
  | tryNext n spurious =>
    have htry := h.tryNext n values spurious
    simp only [SingleProducerSequencer.perform, MultiProducerSequencer.perform]
    revert htry
    obtain ⟨result, s'⟩ := s.tryNext n values
    obtain ⟨result', m'⟩ := m.tryNext n values spurious
    cases result with
    | error e =>
      cases result' with
      | error e' =>
        rintro ⟨rfl, hagree⟩
        exact ⟨rfl, rfl, hagree⟩
      | ok hi' => exact fun hr => hr.elim
    | ok hi =>
      cases result' with
      | error e' => exact fun hr => hr.elim
      | ok hi' =>
        rintro ⟨rfl, hagree⟩
        exact ⟨rfl, rfl, hagree⟩
  | hasAvailableCapacity n =>
    obtain ⟨fits, gs, cached, hs, hm, hgs, heq⟩ := h.hasAvailableCapacity n false values
    simp only [SingleProducerSequencer.perform, MultiProducerSequencer.perform,
      SingleProducerSequencer.hasAvailableCapacity, MultiProducerSequencer.hasAvailableCapacity,
      hs, hm]
    exact ⟨rfl, rfl, h.checked hgs heq cached⟩
  | remainingCapacity =>
    refine ⟨?_, rfl, ?_⟩
    · have hmin := h.minimumSequence_fst values s.nextValue
      have hcursor : (m.minimumSequence values s.nextValue).2.cursor = s.nextValue := h.current
      simp only [SingleProducerSequencer.remainingCapacity,
        MultiProducerSequencer.remainingCapacity, h.getBufferSize, h.current, hmin, hcursor]
    · exact { h with
        gatingSequences := by
          simpa [SingleProducerSequencer.remainingCapacity,
            MultiProducerSequencer.remainingCapacity, SingleProducerSequencer.minimumSequence,
            MultiProducerSequencer.minimumSequence] using h.gatingSequences
        coherent_single := h.coherent_single.minimumSequence _ _
        coherent_multi := h.coherent_multi.minimumSequence _ _ }
  | getCursor => exact ⟨by rw [MultiProducerSequencer.getCursor, h.cursor]; rfl, rfl, h⟩
  | getMinimumSequence =>
    refine ⟨?_, rfl, h⟩
    simp only [SingleProducerSequencer.getMinimumSequence,
      MultiProducerSequencer.getMinimumSequence, h.gatingSequences, h.cursor]
  | addGatingSequences l =>
    refine ⟨rfl, ?_, ?_⟩
    · simp only [SingleProducerSequencer.addGatingSequences,
        MultiProducerSequencer.addGatingSequences, Gating.addGatingSequences, h.cursor]
    · exact { h with
        gatingSequences := by
          simp only [SingleProducerSequencer.addGatingSequences,
            MultiProducerSequencer.addGatingSequences, Gating.addGatingSequences,
            h.gatingSequences]
        coherent_single := s.gating.coherent_addGatingSequences values s.cursor l
        coherent_multi := m.gating.coherent_addGatingSequences values m.cursor l }
  | removeGatingSequence i =>
    have hfst : (m.gating.removeGatingSequence i).1 = (s.gating.removeGatingSequence i).1 := by
      simp only [Gating.removeGatingSequence, h.gatingSequences]
    have hlist : (m.gating.removeGatingSequence i).2.gatingSequences =
        (s.gating.removeGatingSequence i).2.gatingSequences := by
      simp only [Gating.removeGatingSequence, h.gatingSequences]
    refine ⟨?_, rfl, ?_⟩
    · simp only [SingleProducerSequencer.removeGatingSequence,
        MultiProducerSequencer.removeGatingSequence, hfst]
    · exact { h with
        gatingSequences := hlist
        coherent_single := s.gating.coherent_removeGatingSequence i
        coherent_multi := m.gating.coherent_removeGatingSequence i }
  | isAvailable q =>
    refine ⟨?_, rfl, h⟩
    obtain ⟨hlow, hhigh⟩ := hop
    have hiff := h.flags.isAvailable_iff (q := q) (by rw [h.getBufferSize]; exact hlow)
      (by rw [h.getBufferSize]; exact hhigh)
    rw [h.getBufferSize] at hiff
    rw [Reply.flag.injEq, Bool.eq_iff_iff, hiff]
    simp [SingleProducerSequencer.isAvailable]
  | getHighestPublishedSequence lo hi =>
    refine ⟨?_, rfl, h⟩
    obtain ⟨hlo, hhi⟩ := hop
    simp only [SingleProducerSequencer.getCursor] at hlo hhi
    have havailable : ∀ q, lo ≤ q → q < lo + ((hi + 1 - lo).toNat : Int) →
        m.isAvailable q = true := by
      intro q hq hq'
      exact h.flags q (by rw [h.getBufferSize]; omega) (by omega)
    have hall := MultiProducerSequencer.highestPublishedFrom_eq hi havailable
    rw [SingleProducerSequencer.getHighestPublishedSequence,
      MultiProducerSequencer.getHighestPublishedSequence, hall]
  | advance values' => exact ⟨rfl, rfl, h⟩

/-- Two sequencers in agreement give the same answers, and leave the same values in the
sequences, along every list of operations. -/
theorem Agree.replies_eq [DecidableEq ι] (h : Agree s m)
    {operations : List (DisciplinedOperation ι)} (hops : s.InRange values operations) :
    s.replies values operations = m.replies values operations := by
  induction operations generalizing s m values with
  | nil => rfl
  | cons op ops ih =>
    obtain ⟨hop, hrest⟩ := hops
    have hmatch := matches_perform h values hop
    simp only [SingleProducerSequencer.replies, MultiProducerSequencer.replies]
    revert hmatch hrest
    obtain ⟨reply, next⟩ := s.perform values op
    obtain ⟨reply', next'⟩ := m.perform values op
    cases next with
    | none =>
      cases next' with
      | none =>
        intro _ hreply
        rw [show reply = reply' from hreply]
      | some r => exact fun _ hr => hr.elim
    | some r =>
      cases next' with
      | none => exact fun _ hr => hr.elim
      | some r' =>
        obtain ⟨s', values'⟩ := r
        obtain ⟨m', values''⟩ := r'
        rintro hrest ⟨rfl, rfl, hagree⟩
        exact congrArg _ (ih hagree hrest)

/-- Used by one thread that publishes each claim at once, a new `SingleProducerSequencer` and a
new `MultiProducerSequencer` of the same size give the same answers, wait in the same calls of
`next`, and write the same values into added gating sequences. -/
theorem sequencers_agree [DecidableEq ι] (b : BufferSize) (values : ι → Int)
    (operations : List (DisciplinedOperation ι))
    (h : SingleProducerSequencer.InRange { bufferSize := b } values operations) :
    SingleProducerSequencer.replies { bufferSize := b } values operations =
      MultiProducerSequencer.replies { bufferSize := b } values operations :=
  (agree_initial b).replies_eq h

/-- Two slots and one consumer: the ring is filled, looked at, and reused once the consumer has
moved. -/
def fillAndReuse : List (DisciplinedOperation Unit) :=
  [.addGatingSequences [some ()], .next 2 [], .isAvailable 1, .getHighestPublishedSequence 0 1,
    .tryNext 1 0, .advance fun _ => 0, .next 1 [], .isAvailable 0, .remainingCapacity]

theorem sequencers_agree_fillAndReuse :
    SingleProducerSequencer.replies { bufferSize := ⟨1, by decide⟩ } (fun _ => 0) fillAndReuse =
      MultiProducerSequencer.replies { bufferSize := ⟨1, by decide⟩ } (fun _ => 0) fillAndReuse :=
  sequencers_agree ⟨1, by decide⟩ (fun _ => 0) fillAndReuse
    ⟨trivial, trivial, ⟨by decide, by decide⟩, ⟨by decide, by decide⟩, trivial, trivial, trivial,
      ⟨by decide, by decide⟩, trivial, trivial⟩

end Disruptor
