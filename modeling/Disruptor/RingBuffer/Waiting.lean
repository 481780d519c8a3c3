import Disruptor.RingBuffer.TryPublish
import Disruptor.Sequencer.MultiProducer.Granting

/-!
# Whether `tryPublishEvent` waits

Between the capacity check of a call and its claim other producers may move the cursor. While they
leave room for the claim, the call is granted it within one pass over the gating sequences; where
they do not, the call is left in the wait loop of `next`.
-/

namespace Disruptor.TryPublish

open Disruptor.Core MultiProducerSequencer

variable {P ι : Type} {sequences : List (Option ι)} {s s' : Shared ι} {l l' : Option (Call ι)}
  {a : PublisherAction} {c : Call ι}

/-- No call that tries is in the wait loop of `next` with its wrap point above a gating sequence. -/
def NeverWaits (sequences : List (Option ι)) (cfg : Config P ι) : Prop :=
  ∀ p c n current call, cfg.threads (.publisher p) = some c → c.entry.tries = true →
    c.pc = .next (.nextWait n current call) →
      cfg.shared.ring.sequencer.HasRoom cfg.shared.ring.values sequences (current + n)

/-- Where a call that tries is about to take its claim off the cursor, the producers that came
between have left room for it. -/
def RoomLeft (sequences : List (Option ι)) (cfg : Config P ι) : (Σ t, Action P ι t) → Prop
  | ⟨.publisher p, .proceed⟩ => ∀ c n, cfg.threads (.publisher p) = some c → c.entry.tries = true →
      c.pc = .next (.nextAdd n) → cfg.shared.ring.sequencer.HasRoom cfg.shared.ring.values sequences
        (cfg.shared.ring.sequencer.cursor + n)
  | _ => True

/-- `hasAvailableCapacity` has let the call through, and `next` does not reject its batch. -/
def Call.Passed (size : Int) (c : Call ι) : Prop :=
  match c.pc with
  | .callNext => 1 ≤ c.entry.batchSize ∧ c.entry.batchSize ≤ size
  | .next _ => True
  | _ => False

/-- The claim of the call is granted, and it is what the call has taken off the cursor. -/
def IsGranted (p : P) (c : Call ι) (cfg : Config P ι) : Prop :=
  ∃ lo hi, cfg.threads (.publisher p) = some ⟨c.entry, .publishing, some (lo, hi)⟩ ∧
    hi + 1 - lo = c.entry.batchSize ∧ ∀ r, c.claimed = some r → r = (lo, hi)

/-- A call that tries and was let through is granted its claim at once, while the other producers
leave room for it: it takes fewer than `k + 8` steps before that, whatever the other threads do, and
gets there by steps of its own. Here `k` is the number of the gating sequences. -/
def GrantedAtOnce [DecidableEq P] [DecidableEq ι] (sequences : List (Option ι))
    (cfg : Config P ι) : Prop :=
  ∀ p c, cfg.threads (.publisher p) = some c → c.entry.tries = true →
    c.Passed cfg.shared.ring.sequencer.getBufferSize →
      (∀ as, (∀ x ∈ transitions (pool P ι).next cfg as,
          RoomLeft sequences x.pre x.act ∧ ¬ IsGranted p c x.post) →
        (transitions (pool P ι).next cfg as).countP (fun x => x.act.1 = .publisher p) <
          sequences.length + 8) ∧
      ((∀ x ∈ transitions (pool P ι).next cfg
          (List.replicate (sequences.length + 8) ⟨.publisher p, .proceed⟩),
          RoomLeft sequences x.pre x.act) →
        ∃ m ≤ sequences.length + 8, ∃ cfg',
          run (pool P ι).next cfg (List.replicate m ⟨.publisher p, .proceed⟩) = some cfg' ∧
            IsGranted p c cfg')

/-! ### Room for the claims -/

/-- What calls that try have claimed fits into the ring. -/
def ClaimsFit (sequences : List (Option ι)) (cfg : Config P ι) : Prop :=
  ∀ p c lo hi, cfg.threads (.publisher p) = some c → c.entry.tries = true →
    c.claimed = some (lo, hi) →
      cfg.shared.ring.sequencer.HasRoom cfg.shared.ring.values sequences hi

section

variable [DecidableEq P] [DecidableEq ι] {cfg cfg' : Config P ι}

omit [DecidableEq P] in
lemma ClaimsFit.neverWaits (h : ClaimsFit sequences cfg)
    (hholds : (outline P sequences).Holds cfg) : NeverWaits sequences cfg := by
  intro p c n current call hc htries hpc
  have hknows := hholds.threads (.publisher p) c hc
  unfold Call.Knows at hknows
  rw [hpc] at hknows
  exact h p c _ _ hc htries hknows.1

omit [DecidableEq P] [DecidableEq ι] in
/-- What a call of `next` has claimed after a step. -/
lemma claimed_of_next {call : ClaimCall ι} (hcall : OfNext call)
    {r : ClaimResult (ClaimCall ι) × MultiProducerSequencer ι}
    (hr : s.ring.sequencer.callStep s.ring.values false call = r) {lo hi : Int}
    (hclaimed : (∃ call', r.1 = .running call' ∧ call'.taken = some (lo, hi)) ∨
      r.1 = .claimed lo hi) :
    call.taken = some (lo, hi) ∨
      ∃ n, call = .nextAdd n ∧ hi = s.ring.sequencer.cursor + n := by
  subst hr
  cases call with
  | nextAdd n =>
    rcases hclaimed with ⟨call', hrunning, htaken⟩ | hclaim
    · obtain rfl := ClaimResult.running.inj hrunning
      obtain ⟨-, rfl⟩ := Prod.mk.inj (Option.some.inj htaken)
      exact Or.inr ⟨n, rfl, rfl⟩
    · cases hclaim
  | nextReadCache n current =>
    simp only [MultiProducerSequencer.callStep] at hclaimed
    left
    split_ifs at hclaimed
    · rcases hclaimed with ⟨call', hrunning, htaken⟩ | hclaim
      · obtain rfl := ClaimResult.running.inj hrunning
        exact htaken
      · cases hclaim
    · rcases hclaimed with ⟨call', hrunning, -⟩ | hclaim
      · cases hrunning
      · obtain ⟨rfl, rfl⟩ := ClaimResult.claimed.inj hclaim
        rfl
  | nextWait n current call =>
    simp only [MultiProducerSequencer.callStep] at hclaimed
    left
    rcases hclaimed with ⟨call', hrunning, htaken⟩ | hclaim
    · split at hrunning
      · obtain rfl := ClaimResult.running.inj hrunning
        exact htaken
      · split_ifs at hrunning
        · obtain rfl := ClaimResult.running.inj hrunning
          exact htaken
        · obtain rfl := ClaimResult.running.inj hrunning
          exact htaken
    · split at hclaim
      · cases hclaim
      · split_ifs at hclaim
  | nextStoreCache n current gatingSequence =>
    left
    rcases hclaimed with ⟨call', hrunning, -⟩ | hclaim
    · cases hrunning
    · obtain ⟨rfl, rfl⟩ := ClaimResult.claimed.inj hclaim
      rfl
  | _ => exact absurd hcall id

omit [DecidableEq P] [DecidableEq ι] in
/-- What a call has claimed after a step it had claimed before, or it has just taken it off the
cursor. -/
lemma claimed_of_step (hs : publisherStep s l a = some (s', some c))
    (hl : PublisherHolds sequences l s)
    {lo hi : Int} (hclaimed : c.claimed = some (lo, hi)) :
    ∃ c₀, l = some c₀ ∧ c₀.entry = c.entry ∧ (c₀.claimed = some (lo, hi) ∨
      ∃ n, a = .proceed ∧ c₀.pc = .next (.nextAdd n) ∧ hi = s.ring.sequencer.cursor + n) := by
  cases l with
  | none =>
    -- a call that begins has claimed nothing
    cases a with
    | call entry =>
      simp only [publisherStep] at hs
      split_ifs at hs
      · cases hs
      · obtain ⟨-, rfl⟩ : _ ∧ _ := by simpa using hs
        cases hclaimed
      · obtain ⟨-, rfl⟩ : _ ∧ _ := by simpa using hs
        cases hclaimed
    | proceed | setAvailable sequence | leave thrown => cases hs
  | some c₀ =>
    refine ⟨c₀, rfl, ?_⟩
    obtain ⟨entry, pc, claimed⟩ := c₀
    have hknows := hl _ rfl
    cases a with
    | call entry => cases hs
    | setAvailable sequence =>
      unfold publisherStep at hs
      split at hs
      · rename_i heq
        cases heq
      · rename_i heq
        cases heq
      · rename_i heq heq'
        cases heq
        split_ifs at hs
        cases hs
        exact ⟨rfl, Or.inl hclaimed⟩
      · cases hs
      · cases hs
    | leave thrown =>
      unfold publisherStep at hs
      split at hs
      · rename_i heq
        cases heq
      · rename_i heq
        cases heq
      · rename_i heq
        cases heq
      · cases hs
      · cases hs
    | proceed =>
      simp only [publisherStep] at hs
      cases pc with
      | load | readCursor snap =>
        cases hs
        exact ⟨rfl, Or.inl hclaimed⟩
      | capacity cursorValue call =>
        simp only at hs
        split at hs
        · cases hs
          exact ⟨rfl, Or.inl hclaimed⟩
        · cases hs
          exact ⟨rfl, Or.inl hclaimed⟩
        · cases hs
      | callNext =>
        simp only at hs
        split at hs
        · cases hs
          exact ⟨rfl, Or.inl hclaimed⟩
        · cases hs
      | next call =>
        obtain ⟨htaken, hnext, -⟩ := hknows
        simp only at hs htaken
        split at hs
        · rename_i call' hresult
          cases hs
          refine ⟨rfl, ?_⟩
          rcases claimed_of_next hnext rfl (Or.inl ⟨call', hresult, hclaimed⟩) with
            hold | ⟨n, rfl, hhi⟩
          · exact Or.inl (htaken.trans hold)
          · exact Or.inr ⟨n, rfl, rfl, hhi⟩
        · rename_i lo' hi' hresult
          cases hs
          obtain ⟨rfl, rfl⟩ := Prod.mk.inj (Option.some.inj hclaimed)
          refine ⟨rfl, ?_⟩
          rcases claimed_of_next hnext rfl (Or.inr hresult) with hold | ⟨n, rfl, hhi⟩
          · exact Or.inl (htaken.trans hold)
          · exact Or.inr ⟨n, rfl, rfl, hhi⟩
        · cases hs
      | publishing => cases hs

lemma rely_of_next (hholds : (outline P sequences).Holds cfg) {t : Σ t, Action P ι t}
    (hs : (pool P ι).next cfg t = some cfg') :
    Availability.Rely cfg.shared.ring cfg'.shared.ring := by
  obtain ⟨t, a⟩ := t
  obtain ⟨s', l', hstep, rfl⟩ := (pool P ι).next_eq_some.mp hs
  cases t with
  | publisher q =>
    exact (publisherStep_sound hholds.shared (hholds.threads (.publisher q)) hstep).rely
  | gating i => exact (gatingStep_sound hholds.shared hstep).2

/-- A step keeps the claims of the calls that try within the ring when it leaves room for the claim
that it makes. -/
lemma ClaimsFit.next (h : ClaimsFit sequences cfg) (hholds : (outline P sequences).Holds cfg)
    {t : Σ t, Action P ι t} (hs : (pool P ι).next cfg t = some cfg')
    (hroom : RoomLeft sequences cfg t) : ClaimsFit sequences cfg' := by
  obtain ⟨t, a⟩ := t
  obtain ⟨s', l', hstep, hcfg'⟩ := (pool P ι).next_eq_some.mp hs
  subst hcfg'
  have hrely : Availability.Rely cfg.shared.ring s'.ring := rely_of_next hholds hs
  have hmono : ∀ hi, cfg.shared.ring.sequencer.HasRoom cfg.shared.ring.values sequences hi →
      s'.ring.sequencer.HasRoom s'.ring.values sequences hi := by
    intro hi hfits i hi'
    have hle := hfits i hi'
    have hvalue := hrely.values i
    simp only [getBufferSize, hrely.bufferSize] at hle ⊢
    omega
  intro p c lo hi hc htries hclaimed
  apply hmono
  by_cases hpt : Thread.publisher p = t
  · subst hpt
    simp only [Function.update_self] at hc
    subst hc
    obtain ⟨c₀, hc₀, hentry, hold | ⟨n, rfl, hpc, rfl⟩⟩ :=
      claimed_of_step hstep (hholds.threads (.publisher p)) hclaimed
    · exact h p c₀ lo hi hc₀ (hentry ▸ htries) hold
    · exact hroom c₀ n hc₀ (hentry ▸ htries) hpc
  · simp only [Function.update_of_ne hpt] at hc
    exact h p c lo hi hc htries hclaimed

/-! ### The grant -/

omit [DecidableEq P] [DecidableEq ι] in
/-- A call of `next` has found room so far. -/
def Call.Ready (sequences : List (Option ι)) (s : Shared ι) (c : Call ι) : Prop :=
  ∀ call, c.pc = .next call → call.request = some c.entry.batchSize ∧
    c.entry.batchSize ≤ s.ring.sequencer.getBufferSize ∧ call.Clear s.ring.sequencer sequences

/-- How many steps the call takes at most until its claim is granted. -/
def Call.stepsToGrant (k : Nat) (c : Call ι) : Nat :=
  match c.pc with
  | .callNext => k + 8
  | .next call => call.stepsToGrant k
  | _ => 0

omit [DecidableEq P] [DecidableEq ι] in
lemma Call.Ready.of_bufferSize (h : c.Ready sequences s)
    (hsize : s'.ring.sequencer.bufferSize = s.ring.sequencer.bufferSize) :
    c.Ready sequences s' := by
  intro call hpc
  obtain ⟨hrequest, hle, hclear⟩ := h call hpc
  refine ⟨hrequest, ?_, hclear.of_bufferSize hsize⟩
  rw [getBufferSize, hsize]
  exact hle

omit [DecidableEq P] [DecidableEq ι] in
lemma Call.Ready.stepsToGrant_le (h : c.Ready sequences s) :
    c.stepsToGrant sequences.length ≤ sequences.length + 8 := by
  unfold Call.stepsToGrant
  split
  · exact le_rfl
  · rename_i call hpc
    have hle := (h call hpc).2.2.stepsToGrant_le
    omega
  · exact Nat.zero_le _

omit [DecidableEq P] [DecidableEq ι] in
lemma Call.Passed.stepsToGrant_pos {size : Int} (h : c.Passed size) (hready : c.Ready sequences s)
    (k : Nat) : 0 < c.stepsToGrant k := by
  unfold Call.Passed at h
  unfold Call.stepsToGrant
  split at h
  · exact Nat.succ_pos _
  · rename_i call hpc
    exact ClaimCall.stepsToGrant_pos (hready call hpc).1 k
  · exact h.elim

/-- The place of a call after a step that has brought it closer to its grant. -/
structure Nearer (sequences : List (Option ι)) (s' : Shared ι) (c c' : Call ι) : Prop where
  entry : c'.entry = c.entry
  claimed : ∀ r, c.claimed = some r → c'.claimed = some r
  place : (∃ lo hi, c'.pc = .publishing ∧ c'.claimed = some (lo, hi) ∧
      hi + 1 - lo = c.entry.batchSize) ∨
    c'.Passed s'.ring.sequencer.getBufferSize ∧ c'.Ready sequences s' ∧
      c'.stepsToGrant sequences.length < c.stepsToGrant sequences.length

omit [DecidableEq P] [DecidableEq ι] in
/-- A call that was let through goes on to its grant. -/
lemma Call.Passed.proceed (hpassed : c.Passed s.ring.sequencer.getBufferSize)
    (h : s.Inv sequences) (hknows : c.Knows sequences s) (hready : c.Ready sequences s)
    (hroom : ∀ lo hi, c.claimed = some (lo, hi) →
      s.ring.sequencer.HasRoom s.ring.values sequences hi) :
    ∃ s' c', publisherStep s (some c) .proceed = some (s', some c') ∧
      Nearer sequences s' c c' := by
  obtain ⟨entry, pc, claimed⟩ := c
  cases pc with
  | callNext =>
    obtain ⟨hpos, hle⟩ := hpassed
    have henter : s.ring.sequencer.enter (.next entry.batchSize) =
        .running (.nextAdd entry.batchSize) := by
      have hnot : ¬ (entry.batchSize < 1 ∨ entry.batchSize > s.ring.sequencer.getBufferSize) := by
        simp only at hpos hle
        omega
      simp only [enter, hnot, if_false]
    refine ⟨s, ⟨entry, .next (.nextAdd entry.batchSize), claimed⟩, ?_, rfl, fun _ hr => hr,
      Or.inr ⟨trivial, ?_, Nat.lt_succ_self _⟩⟩
    · simp only [publisherStep, henter]
    · rintro call ⟨⟩
      exact ⟨rfl, hle, trivial⟩
  | next call =>
    obtain ⟨htaken, -, hcall⟩ := hknows
    obtain ⟨hrequest, hle, hclear⟩ := hready call rfl
    simp only at htaken
    have hnears := hclear.callStep h.safe.gating hcall hrequest hle fun lo hi hlohi =>
      hroom lo hi (htaken.trans hlohi)
    obtain ⟨⟨result, m'⟩, hr⟩ : ∃ r, s.ring.sequencer.callStep s.ring.values false call = r :=
      ⟨_, rfl⟩
    rw [hr] at hnears
    obtain ⟨-, hsound, hsize, -⟩ := h.safe.callStep hcall hr
    cases result with
    | running call' =>
      obtain ⟨hrequest', hclear', hlt⟩ := hnears
      refine ⟨{ s with ring := s.ring.after (.running call', m') },
        ⟨entry, .next call', call'.taken⟩, ?_, rfl, ?_, Or.inr ⟨trivial, ?_, hlt⟩⟩
      · simp only [publisherStep, hr]
      · intro r hclaimed
        simp only [htaken] at hclaimed
        rcases hsound.2 with ⟨-, hsame⟩ | ⟨hnone, -⟩
        · exact hsame.trans hclaimed
        · rw [hnone] at hclaimed
          cases hclaimed
      · rintro _ ⟨⟩
        refine ⟨hrequest', ?_, hclear'⟩
        show entry.batchSize ≤ m'.getBufferSize
        rw [getBufferSize, hsize]
        exact hle
    | claimed lo hi =>
      refine ⟨{ s with ring := s.ring.after (.claimed lo hi, m') },
        ⟨entry, .publishing, some (lo, hi)⟩, ?_, rfl, ?_, Or.inl ⟨lo, hi, rfl, rfl, hnears⟩⟩
      · simp only [publisherStep, hr]
      · intro r hclaimed
        simp only [htaken] at hclaimed
        rcases hsound.2.2 with ⟨-, hsame⟩ | ⟨hnone, -⟩
        · exact hsame.symm.trans hclaimed
        · rw [hnone] at hclaimed
          cases hclaimed
    | ended => exact hnears.elim
  | _ => exact hpassed.elim

omit [DecidableEq P] [DecidableEq ι] in
/-- It has no other step to take. -/
lemma Call.Passed.act_eq {size : Int} (hpassed : c.Passed size)
    (hs : publisherStep s (some c) a = some (s', l')) : a = .proceed := by
  obtain ⟨entry, pc, claimed⟩ := c
  cases a with
  | proceed => rfl
  | call entry' => cases hs
  | setAvailable sequence | leave thrown =>
    cases pc with
    | callNext | next call => cases hs
    | _ => exact hpassed.elim

omit [DecidableEq P] [DecidableEq ι] in
/-- A call that is in `next` after a step was let through before. -/
lemma passed_of_step (hs : publisherStep s l a = some (s', some c)) {call : ClaimCall ι}
    (hpc : c.pc = .next call) :
    ∃ c₀, l = some c₀ ∧ c₀.entry = c.entry ∧ c₀.Passed s.ring.sequencer.getBufferSize := by
  cases l with
  | none =>
    cases a with
    | call entry =>
      simp only [publisherStep] at hs
      split_ifs at hs
      · cases hs
      · cases hs
        cases hpc
      · cases hs
        cases hpc
    | proceed | setAvailable sequence | leave thrown => cases hs
  | some c₀ =>
    refine ⟨c₀, rfl, ?_⟩
    obtain ⟨entry, pc, claimed⟩ := c₀
    cases a with
    | call entry => cases hs
    | setAvailable sequence | leave thrown =>
      unfold publisherStep at hs
      split at hs <;> rename_i heq
      all_goals try cases heq
      all_goals try cases hs
      all_goals
        split_ifs at hs
        cases hs
        cases hpc
    | proceed =>
      simp only [publisherStep] at hs
      cases pc with
      | load | readCursor snap =>
        cases hs
        cases hpc
      | capacity cursorValue call =>
        simp only at hs
        split at hs <;> cases hs <;> cases hpc
      | callNext =>
        simp only at hs
        split at hs
        · rename_i henter
          cases hs
          refine ⟨rfl, ?_⟩
          simp only [enter] at henter
          split_ifs at henter with hrejected
          show 1 ≤ entry.batchSize ∧ entry.batchSize ≤ s.ring.sequencer.getBufferSize
          omega
        · cases hs
      | next call =>
        simp only at hs
        split at hs <;> cases hs <;> exact ⟨rfl, trivial⟩
      | publishing => cases hs

/-- In a run in which room is left for the claims of the calls that try. -/
structure RoomInv (sequences : List (Option ι)) (cfg : Config P ι) : Prop where
  holds : (outline P sequences).Holds cfg
  fits : ClaimsFit sequences cfg
  ready : ∀ p c, cfg.threads (.publisher p) = some c → c.entry.tries = true →
    c.Ready sequences cfg.shared

section

variable {p : P} {c₀ : Call ι}

omit [DecidableEq P] in
/-- A step of a call that tries and was let through is the one that brings it closer. -/
lemma RoomInv.proceed (h : RoomInv sequences cfg) (hc : cfg.threads (.publisher p) = some c)
    (htries : c.entry.tries = true)
    (hpassed : c.Passed cfg.shared.ring.sequencer.getBufferSize) :
    ∃ s' c', publisherStep cfg.shared (some c) .proceed = some (s', some c') ∧
      Nearer sequences s' c c' :=
  hpassed.proceed h.holds.shared (h.holds.threads (.publisher p) c hc) (h.ready p c hc htries)
    fun lo hi => h.fits p c lo hi hc htries

lemma RoomInv.next (h : RoomInv sequences cfg) {t : Σ t, Action P ι t}
    (hs : (pool P ι).next cfg t = some cfg') (hroom : RoomLeft sequences cfg t) :
    RoomInv sequences cfg' := by
  refine ⟨h.holds.next hs, h.fits.next h.holds hs hroom, ?_⟩
  have hsize := (rely_of_next h.holds hs).bufferSize
  intro p c hc htries
  obtain ⟨t, a⟩ := t
  obtain ⟨s', l', hstep, rfl⟩ := (pool P ι).next_eq_some.mp hs
  by_cases hpt : Thread.publisher p = t
  · subst hpt
    simp only [Function.update_self] at hc
    subst hc
    intro call hpc
    obtain ⟨c₀, hc₀, hentry, hpassed⟩ := passed_of_step hstep hpc
    obtain ⟨s₁, c₁, hproceed, hnearer⟩ := h.proceed hc₀ (hentry ▸ htries) hpassed
    have hstep' : publisherStep cfg.shared (some c₀) a = some (s', some c) := hc₀ ▸ hstep
    obtain rfl := hpassed.act_eq hstep'
    obtain ⟨rfl, heq⟩ := Prod.mk.inj (Option.some.inj (hproceed.symm.trans hstep'))
    obtain rfl := Option.some.inj heq
    rcases hnearer.place with ⟨lo, hi, hpublishing, -⟩ | ⟨-, hready, -⟩
    · cases hpublishing.symm.trans hpc
    · exact hready call hpc
  · simp only [Function.update_of_ne hpt] at hc
    exact (h.ready p c hc htries).of_bufferSize hsize

/-- A step of its own brings the call closer to its grant. -/
lemma RoomInv.nearer (h : RoomInv sequences cfg) (hc : cfg.threads (.publisher p) = some c)
    (htries : c.entry.tries = true)
    (hpassed : c.Passed cfg.shared.ring.sequencer.getBufferSize) {a : PublisherAction}
    (hs : (pool P ι).next cfg ⟨.publisher p, a⟩ = some cfg') :
    ∃ c', cfg'.threads (.publisher p) = some c' ∧ Nearer sequences cfg'.shared c c' := by
  obtain ⟨s', l', hstep, rfl⟩ := (pool P ι).next_eq_some.mp hs
  obtain ⟨s₁, c₁, hproceed, hnearer⟩ := h.proceed hc htries hpassed
  have hstep' : publisherStep cfg.shared (some c) a = some (s', l') := hc ▸ hstep
  obtain rfl := hpassed.act_eq hstep'
  obtain ⟨rfl, rfl⟩ := Prod.mk.inj (Option.some.inj (hproceed.symm.trans hstep'))
  exact ⟨c₁, Function.update_self _ _ _, hnearer⟩

lemma RoomInv.exists_next (h : RoomInv sequences cfg) (hc : cfg.threads (.publisher p) = some c)
    (htries : c.entry.tries = true)
    (hpassed : c.Passed cfg.shared.ring.sequencer.getBufferSize) :
    ∃ cfg', (pool P ι).next cfg ⟨.publisher p, .proceed⟩ = some cfg' := by
  obtain ⟨s', c', hproceed, -⟩ := h.proceed hc htries hpassed
  refine ⟨_, (pool P ι).next_eq_some.mpr ⟨s', some c', ?_, rfl⟩⟩
  show publisherStep cfg.shared (cfg.threads (.publisher p)) .proceed = _
  rw [hc]
  exact hproceed

omit [DecidableEq P] [DecidableEq ι] in
/-- The grant of a later state of the call is the grant of the call. -/
lemma IsGranted.of_nearer {c' : Call ι} (h : IsGranted p c' cfg) (hentry : c'.entry = c.entry)
    (hclaimed : ∀ r, c.claimed = some r → c'.claimed = some r) : IsGranted p c cfg := by
  obtain ⟨lo, hi, hat, hsize, hsame⟩ := h
  rw [hentry] at hat hsize
  exact ⟨lo, hi, hat, hsize, fun r hr => hsame r (hclaimed r hr)⟩

omit [DecidableEq P] [DecidableEq ι] in
lemma isGranted_of_publishing {c' : Call ι} {lo hi : Int}
    (hat : cfg.threads (.publisher p) = some c') (hentry : c'.entry = c.entry)
    (hclaimed : ∀ r, c.claimed = some r → c'.claimed = some r) (hpc : c'.pc = .publishing)
    (hgranted : c'.claimed = some (lo, hi)) (hsize : hi + 1 - lo = c.entry.batchSize) :
    IsGranted p c cfg := by
  obtain ⟨entry, pc, claimed⟩ := c'
  simp only at hentry hpc hgranted
  subst hentry hpc hgranted
  exact ⟨lo, hi, hat, hsize, fun r hr => (Option.some.inj (hclaimed r hr)).symm⟩

/-- However the threads interleave, the call takes fewer steps before its grant than it is away from
it. -/
lemma RoomInv.countP_lt (h : RoomInv sequences cfg) (hc : cfg.threads (.publisher p) = some c)
    (htries : c.entry.tries = true)
    (hpassed : c.Passed cfg.shared.ring.sequencer.getBufferSize) (hentry : c.entry = c₀.entry)
    (hclaimed : ∀ r, c₀.claimed = some r → c.claimed = some r) (as : List (Σ t, Action P ι t))
    (hts : ∀ x ∈ transitions (pool P ι).next cfg as,
      RoomLeft sequences x.pre x.act ∧ ¬ IsGranted p c₀ x.post) :
    (transitions (pool P ι).next cfg as).countP (fun x => x.act.1 = .publisher p) <
      c.stepsToGrant sequences.length := by
  have hpos := hpassed.stepsToGrant_pos (h.ready p c hc htries) sequences.length
  induction as generalizing cfg c with
  | nil => exact hpos
  | cons act as ih =>
    cases hs : (pool P ι).next cfg act with
    | none =>
      rw [transitions_cons_of_none hs]
      exact hpos
    | some cfg' =>
      rw [transitions_cons_of_some hs] at hts ⊢
      obtain ⟨⟨hroom, hnot⟩, hrest⟩ := List.forall_mem_cons.mp hts
      have h' := h.next hs hroom
      by_cases hact : act.1 = .publisher p
      · obtain ⟨t, a⟩ := act
        simp only at hact
        subst hact
        rw [List.countP_cons_of_pos (by simp)]
        obtain ⟨c', hc', hnearer⟩ := h.nearer hc htries hpassed hs
        have hentry' : c'.entry = c₀.entry := hnearer.entry.trans hentry
        have hclaimed' : ∀ r, c₀.claimed = some r → c'.claimed = some r := fun r hr =>
          hnearer.claimed r (hclaimed r hr)
        rcases hnearer.place with ⟨lo, hi, hpc, hgranted, hsize⟩ | ⟨hpassed', hready', hlt⟩
        · exact absurd (isGranted_of_publishing hc' hentry' hclaimed' hpc hgranted
            (hentry ▸ hsize)) hnot
        · have hfew := ih h' hc' (hnearer.entry ▸ htries) hpassed' hentry' hclaimed' hrest
            (hpassed'.stepsToGrant_pos hready' _)
          omega
      · rw [List.countP_cons_of_neg (by simpa using hact)]
        have hsize := (rely_of_next h.holds hs).bufferSize
        have hc' : cfg'.threads (.publisher p) = some c := by
          obtain ⟨s', l', -, rfl⟩ := (pool P ι).next_eq_some.mp hs
          exact (Function.update_of_ne (Ne.symm hact) _ _).trans hc
        have hpassed' : c.Passed cfg'.shared.ring.sequencer.getBufferSize := by
          rw [getBufferSize, hsize]
          exact hpassed
        exact ih h' hc' htries hpassed' hentry hclaimed hrest hpos

/-- Alone, the call gets to its grant. -/
lemma RoomInv.exists_granted (h : RoomInv sequences cfg)
    (hc : cfg.threads (.publisher p) = some c) (htries : c.entry.tries = true)
    (hpassed : c.Passed cfg.shared.ring.sequencer.getBufferSize) {k : Nat}
    (hk : c.stepsToGrant sequences.length ≤ k)
    (hts : ∀ x ∈ transitions (pool P ι).next cfg (List.replicate k ⟨.publisher p, .proceed⟩),
      RoomLeft sequences x.pre x.act) :
    ∃ m ≤ k, ∃ cfg',
      run (pool P ι).next cfg (List.replicate m ⟨.publisher p, .proceed⟩) = some cfg' ∧
        IsGranted p c cfg' := by
  induction k generalizing cfg c with
  | zero =>
    have hpos := hpassed.stepsToGrant_pos (h.ready p c hc htries) sequences.length
    omega
  | succ k ih =>
    obtain ⟨cfg₁, hs⟩ := h.exists_next hc htries hpassed
    rw [List.replicate_succ, transitions_cons_of_some hs] at hts
    obtain ⟨hroom, hrest⟩ := List.forall_mem_cons.mp hts
    obtain ⟨c₁, hc₁, hnearer⟩ := h.nearer hc htries hpassed hs
    rcases hnearer.place with ⟨lo, hi, hpc, hgranted, hsize⟩ | ⟨hpassed₁, -, hlt⟩
    · refine ⟨1, Nat.le_add_left 1 k, cfg₁, run_cons_eq_some.mpr ⟨cfg₁, hs, rfl⟩, ?_⟩
      exact isGranted_of_publishing hc₁ hnearer.entry hnearer.claimed hpc hgranted hsize
    · obtain ⟨m, hm, cfg', hrun, hgranted⟩ :=
        ih (h.next hs hroom) hc₁ (hnearer.entry ▸ htries) hpassed₁ (by omega) hrest
      refine ⟨m + 1, Nat.succ_le_succ hm, cfg', ?_,
        hgranted.of_nearer hnearer.entry hnearer.claimed⟩
      rw [List.replicate_succ]
      exact run_cons_eq_some.mpr ⟨cfg₁, hs, hrun⟩

lemma RoomInv.grantedAtOnce (h : RoomInv sequences cfg) : GrantedAtOnce sequences cfg := by
  intro p c hc htries hpassed
  have hle := (h.ready p c hc htries).stepsToGrant_le
  refine ⟨fun as hts => ?_, fun hts => h.exists_granted hc htries hpassed hle hts⟩
  exact (h.countP_lt hc htries hpassed rfl (fun _ hr => hr) as hts).trans_le hle

end

/-- Where there is no room for a claim that is taken off the cursor, the next step of the call is
into the wait loop, with the wrap point above a gating sequence. -/
lemma waits_of_not_roomLeft (hholds : (outline P sequences).Holds cfg) {t : Σ t, Action P ι t}
    (hs : (pool P ι).next cfg t = some cfg') (hroom : ¬ RoomLeft sequences cfg t) :
    ∃ p cfg'', t.1 = .publisher p ∧
      (pool P ι).next cfg' ⟨.publisher p, .proceed⟩ = some cfg'' ∧
        ¬ NeverWaits sequences cfg'' := by
  obtain ⟨t, a⟩ := t
  cases t with
  | gating i => exact absurd trivial hroom
  | publisher p =>
    cases a with
    | call entry | setAvailable sequence | leave thrown => exact absurd trivial hroom
    | proceed =>
      simp only [RoomLeft, not_forall] at hroom
      obtain ⟨⟨entry, pc, claimed⟩, n, hc, htries, rfl, hroom⟩ := hroom
      simp only [HasRoom, not_forall] at hroom
      obtain ⟨i, hi, hfull⟩ := hroom
      have hcached := hholds.shared.safe.cached_le i hi
      set ring := cfg.shared.ring with hring
      have hcache : ({ ring.sequencer with
          cursor := ring.sequencer.cursor + n } : MultiProducerSequencer ι).CacheExhausted
            ring.sequencer.cursor n := by
        left
        simp only [wrapPoint, getBufferSize] at hfull ⊢
        omega
      obtain ⟨s', l', hstep, rfl⟩ := (pool P ι).next_eq_some.mp hs
      rw [hc] at hstep
      obtain ⟨rfl, rfl⟩ := Prod.mk.inj (Option.some.inj hstep)
      -- the call goes on into the wait loop
      have hwaits : publisherStep
          { cfg.shared with
            ring := ring.after (ring.sequencer.callStep ring.values false (.nextAdd n)) }
          (some ⟨entry, .next (.nextReadCache n ring.sequencer.cursor),
            some (ring.sequencer.cursor + 1, ring.sequencer.cursor + n)⟩) .proceed =
          some ({ cfg.shared with
              ring := ring.after (ring.sequencer.callStep ring.values false (.nextAdd n)) },
            some ⟨entry, .next (.nextWait n ring.sequencer.cursor .readCache),
              some (ring.sequencer.cursor + 1, ring.sequencer.cursor + n)⟩) := by
        simp [publisherStep, callStep, Availability.Shared.after, hcache, ClaimCall.taken]
      refine ⟨p, _, rfl, (pool P ι).next_eq_some.mpr ⟨_, _, Eq.trans ?_ hwaits, rfl⟩, ?_⟩
      · simp only [Function.update_self]
        rfl
      · intro hnever
        have hroom := hnever p _ n ring.sequencer.cursor .readCache
          (Function.update_self _ _ _) htries rfl i hi
        exact hfull hroom

/-- In a run in which, at each step by which a call that tries takes its claim off the cursor, there
is still room for the claim, no such call waits, and each one that was let through is granted its
claim at once; at each other such step the call goes on into the wait loop. A call that returns
`false` has claimed nothing. -/
theorem tryPublish_neverWaits {b : BufferSize} {values : ι → Int} {sequences : List (Option ι)}
    (as : List (Σ t, Action P ι t)) :
    let ts := transitions (pool P ι).next (initial b values sequences) as
    ((∀ x ∈ ts, RoomLeft sequences x.pre x.act) →
      ∀ x ∈ ts, NeverWaits sequences x.post ∧ GrantedAtOnce sequences x.post) ∧
    (∀ x ∈ ts, ¬ RoomLeft sequences x.pre x.act →
      ∃ p cfg, x.act.1 = .publisher p ∧
        (pool P ι).next x.post ⟨.publisher p, .proceed⟩ = some cfg ∧
          ¬ NeverWaits sequences cfg) ∧
    ∀ x ∈ ts, FalseClaimsNothing x.post.shared := by
  have hinitial := outline_initial (P := P) b values sequences
  have hholds : ∀ x ∈ transitions (pool P ι).next (initial b values sequences) as,
      (outline P sequences).Holds x.pre ∧ (outline P sequences).Holds x.post :=
    transitions_invariant_of_step _ (fun _ _ _ h hs => h.next hs) hinitial
  refine ⟨?_, ?_, fun x hx => (hholds x hx).2.shared.falseClaimsNothing⟩
  · intro hroom x hx
    have hinv : RoomInv sequences (initial b values sequences : Config P ι) := by
      refine ⟨hinitial, ?_, ?_⟩
      · rintro p c lo hi ⟨⟩
      · rintro p c ⟨⟩
    have hroomInv := (transitions_invariant (RoomInv (P := P) sequences)
      (fun x => RoomLeft sequences x.pre x.act) (fun _ _ _ h hs hroom => h.next hs hroom) hinv
      hroom x hx).2
    exact ⟨hroomInv.fits.neverWaits hroomInv.holds, hroomInv.grantedAtOnce⟩
  · intro x hx hroom
    exact waits_of_not_roomLeft (hholds x hx).1 (mem_transitions hx).2 hroom

end

/-- Two threads find room for one event in a ring of one, and both claim. -/
def bothFindRoom : List (Σ t, Action Bool Unit t) :=
  ⟨.publisher true, .call .tryPublishEvent⟩ :: List.replicate 3 ⟨.publisher true, .proceed⟩ ++
  ⟨.publisher false, .call .tryPublishEvent⟩ :: List.replicate 3 ⟨.publisher false, .proceed⟩ ++
  List.replicate 2 ⟨.publisher true, .proceed⟩ ++ List.replicate 3 ⟨.publisher false, .proceed⟩

/-- The second one to claim is left in the wait loop. -/
theorem tryPublish_waits :
    ∃ cfg, run (pool Bool Unit).next (initial ⟨0, by decide⟩ (fun _ => 0) [some ()]) bothFindRoom =
        some cfg ∧ ¬ NeverWaits [some ()] cfg := by
  obtain ⟨cfg, hr, hwaits, hsize, hvalue⟩ :
      ∃ cfg, run (pool Bool Unit).next (initial ⟨0, by decide⟩ (fun _ => 0) [some ()])
          bothFindRoom = some cfg ∧
        cfg.threads (.publisher false) =
          some ⟨.tryPublishEvent, .next (.nextWait 1 0 .readCache), some (1, 1)⟩ ∧
        cfg.shared.ring.sequencer.bufferSize = ⟨0, by decide⟩ ∧
        cfg.shared.ring.values () = -1 := ⟨_, rfl, rfl, rfl, rfl⟩
  refine ⟨cfg, hr, ?_⟩
  intro hnever
  have hroom := hnever false _ 1 0 .readCache hwaits rfl rfl () List.mem_cons_self
  rw [getBufferSize, hsize, hvalue] at hroom
  exact absurd hroom (by decide)

end Disruptor.TryPublish
