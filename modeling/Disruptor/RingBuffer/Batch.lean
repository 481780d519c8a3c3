import Disruptor.RingBuffer.Publishing

/-!
# Batches and their slices

`publishEvents` and `tryPublishEvents` take a slice of a vector. Neither looks at the bounds of the
vector: `next` rejects a batch that the ring cannot hold, and whether the slice is inside the vector
shows when the sequences have been claimed.
-/

namespace Disruptor

variable {E ε ι : Type}

/-- Forget something of the state in which a call has exited. -/
def Outcome.map {X Y : Type} (f : X → Y) : Outcome ε X → Outcome ε Y
  | .exited exit after => .exited exit (f after)
  | .waiting => .waiting
  | .undefined => .undefined

namespace RingBuffer

/-- A batch in progress: the ring, the indices at which the vector was read, and the translators
that were applied, with index and sequence. -/
structure Batch (E ι : Type) where
  ring : RingBuffer E ι
  reads : List Int := []
  applied : List (Int × Int) := []

namespace Batch

/-- The translator at `index` is applied to the event of `sequence`. -/
def apply (st : Batch E ι) (index sequence : Int) (call : Invocation E ε) : Batch E ι where
  ring := st.ring.translate sequence call
  reads := st.reads ++ [index]
  applied := st.applied ++ [(index, sequence)]

/-- The loop of `publishEvents` with its history. -/
def translate (translators : List (Option (EventTranslator E ε)))
    (batchStartsAt initialSequence : Int) (st : Batch E ι) (i : Int) :
    Nat → Outcome ε (Batch E ι)
  | 0 => .exited (.returned true) st
  | count + 1 =>
    match translatorAt translators (batchStartsAt + i) with
    | none => .undefined
    | some none =>
      translate translators batchStartsAt initialSequence
        { st with reads := st.reads ++ [batchStartsAt + i] } (i + 1) count
    | some (some tr) =>
      let call := tr (initialSequence + i)
      let st := st.apply (batchStartsAt + i) (initialSequence + i) call
      match call.thrown with
      | some e => .exited (.threw (.translator e)) st
      | none => translate translators batchStartsAt initialSequence st (i + 1) count

end Batch

/-- `publishEvents(translators, batchStartsAt, batchSize)` with its history. -/
def publishBatch (rb : RingBuffer E ι) (values : ι → Int) (passes : List (ι → Int))
    (translators : List (Option (EventTranslator E ε))) (batchStartsAt batchSize : Int) :
    Outcome ε (Batch E ι × (ι → Int)) :=
  if batchSize = 0 then .exited (.returned true) ({ ring := rb }, values)
  else
    match rb.next batchSize values passes with
    | none => .waiting
    | some (.error e, values', rb) =>
      .exited (.threw (.invalid_argument e)) ({ ring := rb }, values')
    | some (.ok finalSequence, values', rb) =>
      let initialSequence := finalSequence - (batchSize - 1)
      match Batch.translate translators batchStartsAt initialSequence { ring := rb } 0
          batchSize.toNat with
      | .exited exit st =>
        .exited exit
          ({ st with ring := st.ring.publishRange initialSequence finalSequence }, values')
      | .waiting => .waiting
      | .undefined => .undefined

/-- `tryPublishEvents(translators, batchStartsAt, batchSize)` with its history. -/
def tryPublishBatch (rb : RingBuffer E ι) (values : ι → Int) (passes : List (ι → Int))
    (translators : List (Option (EventTranslator E ε))) (batchStartsAt batchSize : Int) :
    Outcome ε (Batch E ι × (ι → Int)) :=
  if batchSize = 0 then .exited (.returned true) ({ ring := rb }, values)
  else
    let r := rb.hasAvailableCapacity batchSize values
    if r.1 then r.2.publishBatch values passes translators batchStartsAt batchSize
    else .exited (.returned false) ({ ring := r.2 }, values)

section

variable (rb : RingBuffer E ι) (values : ι → Int) (passes : List (ι → Int))
  (translators : List (Option (EventTranslator E ε))) (batchStartsAt batchSize : Int)

/-- The history is kept beside the ring. -/
lemma Batch.translate_ring (initialSequence : Int) (st : Batch E ι) (i : Int) (count : Nat) :
    (Batch.translate translators batchStartsAt initialSequence st i count).map Batch.ring =
      translateBatch translators batchStartsAt initialSequence st.ring i count := by
  induction count generalizing st i with
  | zero => rfl
  | succ count ih =>
    simp only [Batch.translate, translateBatch]
    cases translatorAt translators (batchStartsAt + i) with
    | none => rfl
    | some translator =>
      cases translator with
      | none => exact ih _ _
      | some tr =>
        cases hthrown : (tr (initialSequence + i)).thrown with
        | some e => simp only [hthrown]; rfl
        | none =>
          simp only [hthrown]
          exact ih _ _

lemma publishBatch_ring :
    (rb.publishBatch values passes translators batchStartsAt batchSize).map
        (fun r => (r.1.ring, r.2)) =
      rb.publishEventsBatch values passes translators batchStartsAt batchSize := by
  unfold publishBatch publishEventsBatch
  split_ifs
  · rfl
  · cases hn : rb.next batchSize values passes with
    | none => rfl
    | some r =>
      obtain ⟨result, values', rb'⟩ := r
      cases result with
      | error e => rfl
      | ok finalSequence =>
        have hring := Batch.translate_ring translators batchStartsAt
          (finalSequence - (batchSize - 1)) { ring := rb' } 0 batchSize.toNat
        simp only
        rw [← hring]
        cases Batch.translate translators batchStartsAt (finalSequence - (batchSize - 1))
          { ring := rb' } 0 batchSize.toNat <;> rfl

lemma tryPublishBatch_ring :
    (rb.tryPublishBatch values passes translators batchStartsAt batchSize).map
        (fun r => (r.1.ring, r.2)) =
      rb.tryPublishEventsBatch values passes translators batchStartsAt batchSize := by
  unfold tryPublishBatch tryPublishEventsBatch
  split_ifs
  · rfl
  · dsimp only
    split_ifs
    · exact publishBatch_ring _ _ _ _ _ _
    · rfl

end

/-! ### The loop -/

section

variable (translators : List (EventTranslator E ε)) (batchStartsAt initialSequence : Int)

/-- The vector can be read at `index`. -/
def InsideVector (index : Int) : Prop :=
  0 ≤ index ∧ index < translators.length ∧ index ≤ INT_MAX

/-- The translator at position `i` of the slice is there, and returns. -/
def Returns (i : Int) : Prop :=
  ∃ tr, translatorAt (translators.map some) (batchStartsAt + i) = some (some tr) ∧
    (tr (initialSequence + i)).thrown = none

/-- The slice is inside the vector, as far as its translators return. -/
def SliceInside (batchSize : Int) : Prop :=
  ∀ i : Nat, i < batchSize →
    (∀ j : Nat, j < i → Returns translators batchStartsAt initialSequence j) →
    InsideVector translators (batchStartsAt + i)

/-- How the loop ends that is at position `i` of the slice, after `k` more translators. -/
inductive Ends (i : Int) (count : Nat) : Nat → Exit ε → Prop where
  | returned
      (h : ∀ j : Nat, j < count → Returns translators batchStartsAt initialSequence (i + j)) :
    Ends i count count (.returned true)
  | threw {k : Nat} {tr : EventTranslator E ε} {e : ε} (hk : k < count)
    (h : ∀ j : Nat, j < k → Returns translators batchStartsAt initialSequence (i + j))
    (htr : translatorAt (translators.map some) (batchStartsAt + (i + k)) = some (some tr))
    (hthrown : (tr (initialSequence + (i + k))).thrown = some e) :
    Ends i count (k + 1) (.threw (.translator e))

/-- What `k` translators do that are applied from position `i` of the slice on. -/
structure Applies (i : Int) (k : Nat) (st st' : Batch E ι) : Prop where
  /-- Each is read and applied once, in order. -/
  reads : st'.reads = st.reads ++ (List.range k).map fun j : Nat => batchStartsAt + (i + j)
  applied : st'.applied = st.applied ++
    (List.range k).map fun j : Nat => (batchStartsAt + (i + j), initialSequence + (i + j))
  /-- It writes to the slot of its sequence, and to no other one. -/
  written : ∀ j : Nat, j < k → ∃ tr,
    translatorAt (translators.map some) (batchStartsAt + (i + j)) = some (some tr) ∧
      st'.ring.entries (elementAt st.ring.sequencer.bufferSize (initialSequence + (i + j))) =
        (tr (initialSequence + (i + j))).write
          (st.ring.entries (elementAt st.ring.sequencer.bufferSize (initialSequence + (i + j))))
  unwritten : ∀ slot, (∀ j : Nat, j < k →
      slot ≠ elementAt st.ring.sequencer.bufferSize (initialSequence + (i + j))) →
    st'.ring.entries slot = st.ring.entries slot
  /-- The rest of the ring is left alone. -/
  ring : ∃ entries, st'.ring = { st.ring with entries := entries }

end

section

variable {translators : List (EventTranslator E ε)} {batchStartsAt initialSequence i : Int}
  {st st' : Batch E ι} {count k : Nat} {tr : EventTranslator E ε} {exit : Exit ε}

lemma translatorAt_eq_none {index : Int} :
    translatorAt (translators.map some) index = none ↔ ¬ InsideVector translators index := by
  unfold translatorAt InsideVector
  split_ifs with houtside
  · simp only [true_iff]
    omega
  · rw [List.getElem?_eq_none_iff, List.length_map]
    omega

/-- The vector holds no null pointers. -/
lemma translatorAt_eq_some {index : Int} {translator : Option (EventTranslator E ε)}
    (h : translatorAt (translators.map some) index = some translator) :
    InsideVector translators index ∧ ∃ tr, translator = some tr := by
  constructor
  · by_contra houtside
    rw [translatorAt_eq_none.mpr houtside] at h
    cases h
  · unfold translatorAt at h
    split_ifs at h
    rw [List.getElem?_map, Option.map_eq_some_iff] at h
    obtain ⟨tr, -, rfl⟩ := h
    exact ⟨tr, rfl⟩

lemma Applies.zero : Applies translators batchStartsAt initialSequence i 0 st st where
  reads := by simp
  applied := by simp
  written j hj := absurd hj (Nat.not_lt_zero j)
  unwritten _ _ := rfl
  ring := ⟨_, rfl⟩

/-- One translator, and then `k` more, none of which comes to its slot again. -/
lemma Applies.cons (htr : translatorAt (translators.map some) (batchStartsAt + i) = some (some tr))
    (hk : k < st.ring.sequencer.bufferSize.size)
    (h : Applies translators batchStartsAt initialSequence (i + 1) k
      (st.apply (batchStartsAt + i) (initialSequence + i) (tr (initialSequence + i))) st') :
    Applies translators batchStartsAt initialSequence i (k + 1) st st' := by
  have hslots := isSlotMap_elementAt st.ring.sequencer.bufferSize
  have hposition : ∀ j : Nat, i + 1 + (j : Int) = i + ((j + 1 : Nat) : Int) := by
    intro j
    push_cast
    ring
  have hslot : ∀ j : Nat, j < k → elementAt st.ring.sequencer.bufferSize
      (initialSequence + (i + ((j + 1 : Nat) : Int))) ≠
        elementAt st.ring.sequencer.bufferSize (initialSequence + i) := by
    intro j hj heq
    have := hslots.eq_of_lt heq (by rw [abs_lt]; push_cast; omega)
    omega
  obtain ⟨hreads, happlied, hwritten, hunwritten, hring⟩ := h
  refine ⟨?_, ?_, ?_, ?_, ?_⟩
  · simp only [hreads, Batch.apply, List.range_succ_eq_map, hposition]
    simp [Function.comp_def]
  · simp only [happlied, Batch.apply, List.range_succ_eq_map, hposition]
    simp [Function.comp_def]
  · intro j hj
    cases j with
    | zero =>
      refine ⟨tr, by simpa using htr, ?_⟩
      have hkeeps := hunwritten (elementAt st.ring.sequencer.bufferSize (initialSequence + i)) (by
        intro j hj
        rw [hposition]
        exact (hslot j hj).symm)
      simp only [Nat.cast_zero, add_zero, hkeeps]
      simp [Batch.apply, RingBuffer.translate]
    | succ j =>
      obtain ⟨tr', htr', hwrote⟩ := hwritten j (by omega)
      rw [hposition] at htr' hwrote
      refine ⟨tr', htr', hwrote.trans ?_⟩
      simp only [Batch.apply, RingBuffer.translate]
      rw [Function.update_of_ne (hslot j (by omega))]
  · intro slot hother
    rw [hunwritten slot (by
      intro j hj
      rw [hposition]
      exact hother (j + 1) (by omega))]
    simp only [Batch.apply, RingBuffer.translate]
    have hne := hother 0 (by omega)
    simp only [Nat.cast_zero, add_zero] at hne
    exact Function.update_of_ne hne _ _
  · obtain ⟨entries, hentries⟩ := hring
    exact ⟨entries, hentries⟩

/-- One translator that returns, and then the rest of the loop. -/
lemma Ends.cons (hreturns : Returns translators batchStartsAt initialSequence i)
    (h : Ends translators batchStartsAt initialSequence (i + 1) count k exit) :
    Ends translators batchStartsAt initialSequence i (count + 1) (k + 1) exit := by
  have hposition : ∀ j : Nat, i + 1 + (j : Int) = i + ((j + 1 : Nat) : Int) := by
    intro j
    push_cast
    ring
  have hall : ∀ n : Nat,
      (∀ j : Nat, j < n → Returns translators batchStartsAt initialSequence (i + 1 + j)) →
      ∀ j : Nat, j < n + 1 → Returns translators batchStartsAt initialSequence (i + j) := by
    intro n hn j hj
    cases j with
    | zero => simpa using hreturns
    | succ j =>
      rw [← hposition]
      exact hn j (by omega)
  cases h with
  | returned h => exact .returned (hall count h)
  | threw hk h htr hthrown =>
    rw [hposition] at htr hthrown
    exact .threw (by omega) (hall _ h) htr hthrown

/-- The loop applies the translators of the slice up to the first that throws, unless it comes to
the end of the vector before. -/
lemma translate_cases (translators : List (EventTranslator E ε))
    (batchStartsAt initialSequence i : Int) (st : Batch E ι) (count : Nat)
    (hcount : count ≤ st.ring.sequencer.bufferSize.size) :
    (∃ k < count, (∀ j : Nat, j < k → Returns translators batchStartsAt initialSequence (i + j)) ∧
      ¬ InsideVector translators (batchStartsAt + (i + k)) ∧
      Batch.translate (translators.map some) batchStartsAt initialSequence st i count =
        .undefined) ∨
    ∃ k exit st', Ends translators batchStartsAt initialSequence i count k exit ∧
      Applies translators batchStartsAt initialSequence i k st st' ∧
      Batch.translate (translators.map some) batchStartsAt initialSequence st i count =
        .exited exit st' := by
  induction count generalizing i st with
  | zero =>
    refine Or.inr ⟨0, _, st, .returned ?_, .zero, rfl⟩
    intro j hj
    exact absurd hj (Nat.not_lt_zero j)
  | succ count ih =>
    push_cast at hcount
    rw [Batch.translate]
    cases hat : translatorAt (translators.map some) (batchStartsAt + i) with
    | none =>
      refine Or.inl ⟨0, by omega, fun j hj => absurd hj (Nat.not_lt_zero j), ?_, rfl⟩
      simpa using translatorAt_eq_none.mp hat
    | some translator =>
      obtain ⟨hinside, tr, rfl⟩ := translatorAt_eq_some hat
      dsimp only
      cases hthrown : (tr (initialSequence + i)).thrown with
      | some e =>
        have hat' : translatorAt (translators.map some) (batchStartsAt + (i + (0 : Nat))) =
            some (some tr) := by simpa using hat
        have hthrown' : (tr (initialSequence + (i + (0 : Nat)))).thrown = some e := by
          simpa using hthrown
        have hends := Ends.threw (Nat.succ_pos count) (fun j hj => absurd hj (Nat.not_lt_zero j))
          hat' hthrown'
        exact Or.inr ⟨1, _, _, hends, .cons hat (by omega) .zero, rfl⟩
      | none =>
        have hreturns : Returns translators batchStartsAt initialSequence i := ⟨tr, hat, hthrown⟩
        have hcount' : (count : Int) ≤ (st.apply (batchStartsAt + i) (initialSequence + i)
            (tr (initialSequence + i))).ring.sequencer.bufferSize.size := by
          show (count : Int) ≤ st.ring.sequencer.bufferSize.size
          omega
        rcases ih (i + 1) _ hcount' with
          ⟨k, hk, hall, houtside, hrun⟩ | ⟨k, exit, st', hends, happlies, hrun⟩
        · refine Or.inl ⟨k + 1, by omega, ?_, ?_, hrun⟩
          · intro j hj
            cases j with
            | zero => simpa using hreturns
            | succ j =>
              have hj' := hall j (by omega)
              rwa [add_assoc, add_comm 1, ← Nat.cast_succ] at hj'
          · rwa [add_assoc i, add_comm 1, ← Nat.cast_succ] at houtside
        · have hle : (k : Int) ≤ count := by
            cases hends with
            | returned h => exact le_rfl
            | threw hk h htr hthrown => omega
          exact Or.inr ⟨k + 1, exit, st', hends.cons hreturns, .cons hat (by omega) happlies, hrun⟩

/-- As far as its translators return, the slice has been read. -/
lemma Ends.sliceInside {batchSize : Int} (hpos : 1 ≤ batchSize)
    (hends : Ends translators batchStartsAt initialSequence 0 batchSize.toNat k exit)
    (happlies : Applies translators batchStartsAt initialSequence 0 k st st') :
    SliceInside translators batchStartsAt initialSequence batchSize := by
  intro j hj hreturns
  have hread : ∀ j : Nat, j < k → InsideVector translators (batchStartsAt + j) := by
    intro j hj
    obtain ⟨tr, htr, -⟩ := happlies.written j hj
    rw [zero_add] at htr
    exact (translatorAt_eq_some htr).1
  cases hends with
  | returned h => exact hread j (by omega)
  | @threw m tr e hm h htr hthrown =>
    by_cases hjm : j < m + 1
    · exact hread j hjm
    · -- the translator at `m` has thrown
      obtain ⟨tr', htr', hnone⟩ := hreturns m (by omega)
      rw [zero_add] at htr hthrown
      rw [htr'] at htr
      obtain rfl := Option.some.inj (Option.some.inj htr)
      rw [hnone] at hthrown
      cases hthrown

end

/-! ### The calls -/

/-- The call was declined: nothing is claimed, written or published. -/
structure DeclinedBatch (rb : RingBuffer E ι) (tries : Bool) (batchSize : Int) (exit : Exit ε)
    (st : Batch E ι) : Prop where
  exit : batchSize = 0 ∧ exit = .returned true ∨ tries = true ∧ exit = .returned false ∨
    ∃ message, exit = .threw (.invalid_argument message)
  untouched : st.reads = [] ∧ st.applied = []
  ring : ∃ q, st.ring = { rb with sequencer := q } ∧ q.claimed = rb.sequencer.claimed ∧
    q.getCursor = rb.sequencer.getCursor ∧
    ∀ lo hi, q.getHighestPublishedSequence lo hi = rb.sequencer.getHighestPublishedSequence lo hi

/-- The next sequences were claimed, the translators of the slice were applied to them up to the
first that threw, and all of them were published. -/
structure PublishedBatch (rb : RingBuffer E ι) (translators : List (EventTranslator E ε))
    (batchStartsAt batchSize : Int) (exit : Exit ε) (st : Batch E ι) : Prop where
  inside : ∀ index ∈ st.reads, InsideVector translators index
  published : ∃ q k st',
    Ends translators batchStartsAt (rb.sequencer.claimed + 1) 0 batchSize.toNat k exit ∧
    Applies translators batchStartsAt (rb.sequencer.claimed + 1) 0 k
      { ring := { rb with
          sequencer := q
          claims := (rb.sequencer.claimed + 1, rb.sequencer.claimed + batchSize) :: rb.claims } }
      st' ∧
    q.bufferSize = rb.sequencer.bufferSize ∧ q.claimed = rb.sequencer.claimed + batchSize ∧
    st = { st' with
      ring := st'.ring.publishRange (rb.sequencer.claimed + 1)
        (rb.sequencer.claimed + batchSize) }

/-- The call is declined before it claims anything. -/
def Declines (rb : RingBuffer E ι) (values : ι → Int) (tries : Bool) (batchSize : Int) : Prop :=
  batchSize < 1 ∨ rb.sequencer.bufferSize.size < batchSize ∨
    tries = true ∧ (rb.hasAvailableCapacity batchSize values).1 = false

section

variable {rb : RingBuffer E ι} {values : ι → Int} {passes : List (ι → Int)}
  {translators : List (EventTranslator E ε)} {batchStartsAt batchSize : Int}

/-- A batch is declined by `next`, or it is published, or its slice ends before the vector does. -/
lemma publishBatch_cases
    (hends : rb.publishBatch values passes (translators.map some) batchStartsAt batchSize ≠
      .waiting) :
    ((batchSize < 1 ∨ rb.sequencer.bufferSize.size < batchSize) ∧
      ∃ exit values', rb.publishBatch values passes (translators.map some) batchStartsAt batchSize =
          .exited exit ({ ring := rb }, values') ∧
        (batchSize = 0 ∧ exit = .returned true ∨
          ∃ message, exit = .threw (.invalid_argument message))) ∨
    (1 ≤ batchSize ∧ batchSize ≤ rb.sequencer.bufferSize.size) ∧
      (rb.publishBatch values passes (translators.map some) batchStartsAt batchSize = .undefined ∧
          ¬ SliceInside translators batchStartsAt (rb.sequencer.claimed + 1) batchSize ∨
        SliceInside translators batchStartsAt (rb.sequencer.claimed + 1) batchSize ∧
          ∃ exit st values', rb.publishBatch values passes (translators.map some) batchStartsAt
              batchSize = .exited exit (st, values') ∧
            PublishedBatch rb translators batchStartsAt batchSize exit st) := by
  unfold publishBatch at hends ⊢
  split_ifs at hends ⊢ with hzero
  · exact Or.inl ⟨by omega, _, _, rfl, Or.inl ⟨hzero, rfl⟩⟩
  · cases hn : rb.next batchSize values passes with
    | none =>
      rw [hn] at hends
      exact absurd rfl hends
    | some r =>
      obtain ⟨result, values', rb'⟩ := r
      cases result with
      | error e =>
        obtain ⟨hbad, rfl⟩ := next_error hn
        exact Or.inl ⟨hbad, _, _, rfl, Or.inr ⟨e, rfl⟩⟩
      | ok finalSequence =>
        obtain ⟨q, hq, rfl⟩ := next_ok hn
        obtain ⟨hpos, hfinal, hclaimed⟩ := Sequencer.next_ok hq
        obtain ⟨hle, hsize⟩ := Sequencer.next_ok_bufferSize hq
        have hinitial : finalSequence - (batchSize - 1) = rb.sequencer.claimed + 1 := by omega
        have hinitial' : finalSequence - batchSize + 1 = rb.sequencer.claimed + 1 := by omega
        refine Or.inr ⟨⟨hpos, hle⟩, ?_⟩
        simp only [hinitial, hinitial']
        rw [hfinal]
        have hcount : (batchSize.toNat : Int) ≤ q.bufferSize.size := by
          rw [hsize]
          omega
        rcases translate_cases translators batchStartsAt (rb.sequencer.claimed + 1) 0
            { ring := { rb with
                sequencer := q
                claims := (rb.sequencer.claimed + 1, rb.sequencer.claimed + batchSize) ::
                  rb.claims } } batchSize.toNat hcount with
          ⟨k, hk, hall, houtside, hrun⟩ | ⟨k, exit, st', hends', happlies, hrun⟩
        · rw [hrun]
          refine Or.inl ⟨rfl, ?_⟩
          intro hinside
          simp only [zero_add] at hall houtside
          exact houtside (hinside k (by omega) hall)
        · rw [hrun]
          refine Or.inr ⟨hends'.sliceInside hpos happlies, _, _, _, rfl, ?_,
            q, k, st', hends', happlies, hsize, hclaimed.trans hfinal, rfl⟩
          intro index hindex
          simp only [happlies.reads, List.nil_append, List.mem_map, List.mem_range] at hindex
          obtain ⟨j, hj, rfl⟩ := hindex
          obtain ⟨tr, htr, -⟩ := happlies.written j hj
          exact (translatorAt_eq_some htr).1

/-- `publishEvents` or `tryPublishEvents`, with its history. -/
def batchCall (rb : RingBuffer E ι) (values : ι → Int) (passes : List (ι → Int))
    (translators : List (EventTranslator E ε)) (tries : Bool) (batchStartsAt batchSize : Int) :
    Outcome ε (Batch E ι × (ι → Int)) :=
  if tries then rb.tryPublishBatch values passes (translators.map some) batchStartsAt batchSize
  else rb.publishBatch values passes (translators.map some) batchStartsAt batchSize

/-- The call is declined, or it publishes what it claims, with the translators of the slice. -/
def AllOrNothing (rb : RingBuffer E ι) (values : ι → Int) (passes : List (ι → Int))
    (translators : List (EventTranslator E ε)) (tries : Bool) (batchStartsAt batchSize : Int) :
    Prop :=
  ∃ exit st values',
    rb.batchCall values passes translators tries batchStartsAt batchSize =
        .exited exit (st, values') ∧
      (DeclinedBatch rb tries batchSize exit st ∨
        PublishedBatch rb translators batchStartsAt batchSize exit st)

/-- A batch that `next` does not decline. -/
lemma publishBatch_iff (tries : Bool)
    (hends : rb.publishBatch values passes (translators.map some) batchStartsAt batchSize ≠
      .waiting) :
    (∃ exit st values',
        rb.publishBatch values passes (translators.map some) batchStartsAt batchSize =
        .exited exit (st, values') ∧ (DeclinedBatch rb tries batchSize exit st ∨
          PublishedBatch rb translators batchStartsAt batchSize exit st)) ↔
      (batchSize < 1 ∨ rb.sequencer.bufferSize.size < batchSize) ∨
        SliceInside translators batchStartsAt (rb.sequencer.claimed + 1) batchSize := by
  rcases publishBatch_cases hends with ⟨hbad, exit, values', hcall, hexit⟩ |
    ⟨hsize, ⟨hcall, houtside⟩ | ⟨hinside, exit, st, values', hcall, hpublished⟩⟩
  · refine iff_of_true ⟨exit, _, values', hcall, Or.inl ⟨?_, ⟨rfl, rfl⟩, ?_⟩⟩ (Or.inl hbad)
    · rcases hexit with hzero | hthrew
      · exact Or.inl hzero
      · exact Or.inr (Or.inr hthrew)
    · exact ⟨_, rfl, rfl, rfl, fun _ _ => rfl⟩
  · refine iff_of_false ?_ ?_
    · rintro ⟨exit, st, values', hexited, -⟩
      rw [hcall] at hexited
      cases hexited
    · rintro (hbad | hinside)
      · omega
      · exact houtside hinside
  · exact iff_of_true ⟨exit, st, values', hcall, Or.inr hpublished⟩ (Or.inr hinside)

/-- A sequencer that shows the same makes no difference to what is declined. -/
lemma declinedBatch_iff {q : Sequencer ι} (h : rb.sequencer.SameView q) {tries : Bool}
    {exit : Exit ε} {st : Batch E ι} :
    DeclinedBatch { rb with sequencer := q } tries batchSize exit st ↔
      DeclinedBatch rb tries batchSize exit st := by
  constructor
  · rintro ⟨hexit, huntouched, q', hring, hclaimed, hcursor, hhighest⟩
    exact ⟨hexit, huntouched, q', hring, hclaimed.trans h.claimed, hcursor.trans h.getCursor,
      fun lo hi => (hhighest lo hi).trans (h.getHighestPublishedSequence lo hi)⟩
  · rintro ⟨hexit, huntouched, q', hring, hclaimed, hcursor, hhighest⟩
    exact ⟨hexit, huntouched, q', hring, hclaimed.trans h.claimed.symm,
      hcursor.trans h.getCursor.symm,
      fun lo hi => (hhighest lo hi).trans (h.getHighestPublishedSequence lo hi).symm⟩

lemma publishedBatch_iff {q : Sequencer ι} (h : rb.sequencer.SameView q) {exit : Exit ε}
    {st : Batch E ι} :
    PublishedBatch { rb with sequencer := q } translators batchStartsAt batchSize exit st ↔
      PublishedBatch rb translators batchStartsAt batchSize exit st := by
  constructor
  · rintro ⟨hinside, q', hpublished⟩
    simp only [h.claimed, h.bufferSize] at hpublished
    exact ⟨hinside, q', hpublished⟩
  · rintro ⟨hinside, q', hpublished⟩
    refine ⟨hinside, q', ?_⟩
    simp only [h.claimed, h.bufferSize]
    exact hpublished

/-- A batch that finds no capacity, or none to ask for, is declined. -/
lemma allOrNothing_of_declined {q : Sequencer ι} (h : rb.sequencer.SameView q) {tries : Bool}
    {exit : Exit ε}
    (hexit : batchSize = 0 ∧ exit = .returned true ∨ tries = true ∧ exit = .returned false)
    (hcall : rb.batchCall values passes translators tries batchStartsAt batchSize =
      .exited exit ({ ring := { rb with sequencer := q } }, values)) :
    AllOrNothing rb values passes translators tries batchStartsAt batchSize := by
  refine ⟨exit, _, values, hcall, Or.inl ⟨?_, ⟨rfl, rfl⟩, q, rfl, h.claimed, h.getCursor,
    h.getHighestPublishedSequence⟩⟩
  rcases hexit with hzero | hfalse
  · exact Or.inl hzero
  · exact Or.inr (Or.inl hfalse)

/-- A call that ends has published all that it claimed or has done nothing, and has stayed inside
the vector, exactly when it is declined or the slice is inside the vector, as far as its translators
return. -/
theorem batch_allOrNothing_iff (rb : RingBuffer E ι) (values : ι → Int) (passes : List (ι → Int))
    (translators : List (EventTranslator E ε)) (tries : Bool) (batchStartsAt batchSize : Int)
    (hends : rb.batchCall values passes translators tries batchStartsAt batchSize ≠ .waiting) :
    AllOrNothing rb values passes translators tries batchStartsAt batchSize ↔
      Declines rb values tries batchSize ∨
        SliceInside translators batchStartsAt (rb.sequencer.claimed + 1) batchSize := by
  unfold AllOrNothing Declines
  cases tries with
  | false =>
    have h := publishBatch_iff false hends
    simpa [batchCall, or_assoc] using h
  | true =>
    have hview := rb.sequencer.sameView_hasAvailableCapacity batchSize values
    by_cases hzero : batchSize = 0
    · refine iff_of_true ?_ (Or.inl (Or.inl (by omega)))
      refine allOrNothing_of_declined (q := rb.sequencer) ⟨rfl, rfl, rfl, fun _ _ => rfl⟩
        (Or.inl ⟨hzero, rfl⟩) ?_
      simp [batchCall, tryPublishBatch, hzero]
    · cases hcapacity : (rb.hasAvailableCapacity batchSize values).1 with
      | false =>
        refine iff_of_true ?_ (Or.inl (Or.inr (Or.inr ⟨rfl, rfl⟩)))
        refine allOrNothing_of_declined hview (Or.inr ⟨rfl, rfl⟩) ?_
        simp only [batchCall, if_true, tryPublishBatch, if_neg hzero, hcapacity]
        rfl
      | true =>
        have hcall : rb.batchCall values passes translators true batchStartsAt batchSize =
            (rb.hasAvailableCapacity batchSize values).2.publishBatch values passes
              (translators.map some) batchStartsAt batchSize := by
          simp only [batchCall, if_true, tryPublishBatch, if_neg hzero, hcapacity]
        rw [hcall] at hends
        have h := publishBatch_iff true hends
        simp only [RingBuffer.hasAvailableCapacity, declinedBatch_iff hview,
          publishedBatch_iff hview, hview.claimed, hview.bufferSize] at h hcall
        simp only [hcall]
        rw [h]
        simp [or_assoc]

/-- `publishEvents` and `tryPublishEvents` do to the ring what is said of the calls with their
history. -/
theorem AllOrNothing.ring {tries : Bool}
    (h : AllOrNothing rb values passes translators tries batchStartsAt batchSize) :
    ∃ exit st values',
      (if tries then
          rb.tryPublishEventsBatch values passes (translators.map some) batchStartsAt batchSize
        else rb.publishEventsBatch values passes (translators.map some) batchStartsAt batchSize) =
          .exited exit (st.ring, values') ∧
        (DeclinedBatch rb tries batchSize exit st ∨
          PublishedBatch rb translators batchStartsAt batchSize exit st) := by
  obtain ⟨exit, st, values', hcall, hst⟩ := h
  refine ⟨exit, st, values', ?_, hst⟩
  rw [← publishBatch_ring, ← tryPublishBatch_ring]
  cases tries with
  | true => exact congrArg (Outcome.map fun r => (r.1.ring, r.2)) hcall
  | false => exact congrArg (Outcome.map fun r => (r.1.ring, r.2)) hcall

/-- The overloads that take no slice stay inside the vector, however many translators there are. -/
theorem sliceInside_sizeAsInt (translators : List (EventTranslator E ε)) (initialSequence : Int) :
    SliceInside translators 0 initialSequence (sizeAsInt (translators.map some)) := by
  intro i hi _
  have hle : sizeAsInt (translators.map some) ≤ translators.length := by
    rw [sizeAsInt, List.length_map, BitVec.toInt_ofInt, Int.bmod_def]
    split_ifs <;> omega
  have hmax : sizeAsInt (translators.map some) ≤ 2 ^ 31 - 1 := by
    rw [sizeAsInt]
    have := (BitVec.ofInt 32 (translators.map some).length).toInt_lt
    omega
  refine ⟨by omega, by omega, ?_⟩
  rw [INT_MAX]
  omega

/-- Three translators, the last of which throws. -/
def lastThrows : List (EventTranslator Int String) :=
  [fun _ => ⟨id, none⟩, fun sequence => ⟨fun _ => sequence, none⟩,
    fun _ => ⟨fun _ => 7, some "Skipping"⟩]

theorem batch_allOrNothing_lastThrows :
    AllOrNothing (initial .MULTI ⟨2, by decide⟩ ⟨⟨1, [some ()]⟩, none⟩ fun _ => 0) (fun _ => -1) []
      lastThrows true 1 2 := by
  refine (batch_allOrNothing_iff _ _ _ _ _ _ _ (by rintro ⟨⟩)).mpr (Or.inr ?_)
  intro i hi _
  simp only [InsideVector, INT_MAX, lastThrows, List.length_cons, List.length_nil]
  omega

/-- The slice starts where the vector ends: a sequence is claimed, and the vector is read past its
end. -/
theorem batch_pastEnd (producerType : ProducerType) (tries : Bool) :
    (initial producerType ⟨1, by decide⟩ ⟨⟨1, [some ()]⟩, none⟩ fun _ => 0 :
        RingBuffer Int Unit).batchCall
      (fun _ => -1) [] lastThrows tries 3 1 = .undefined := by
  cases producerType <;> cases tries <;> rfl

/-- So nothing is published, and the call has not been declined. -/
theorem not_allOrNothing_pastEnd :
    ¬ AllOrNothing (initial .SINGLE ⟨1, by decide⟩ ⟨⟨1, [some ()]⟩, none⟩ fun _ => 0)
        (fun _ => -1) []
      lastThrows false 3 1 := by
  rintro ⟨exit, st, values', hcall, -⟩
  rw [batch_pastEnd] at hcall
  cases hcall

end

end RingBuffer

end Disruptor
