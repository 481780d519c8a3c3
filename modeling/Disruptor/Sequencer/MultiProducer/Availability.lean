import Disruptor.Core.ThreadPool
import Disruptor.Sequencer.MultiProducer.ClaimCall
import Disruptor.Sequencer.MultiProducer.Flags

/-!
# What `isAvailable` tells

Any number of producers claim, and the sequences of the claims that were granted are published one
by one, in any order; the gating sequences advance over published sequences. A producer stands for
one claim at a time, so that a thread with several claims open is several producers.
-/

namespace Disruptor.Availability

open Disruptor.Core MultiProducerSequencer

variable {P ι : Type}

/-- What the threads share. The last two fields are history: the ranges that were granted, and the
sequences whose flag was stored. -/
structure Shared (ι : Type) where
  sequencer : MultiProducerSequencer ι
  values : ι → Int
  granted : List (Int × Int) := []
  published : Int → Bool := fun _ => false

namespace Shared

/-- A range that covers the sequence was granted. -/
def IsGranted (s : Shared ι) (sequence : Int) : Prop :=
  ∃ g ∈ s.granted, g.1 ≤ sequence ∧ sequence ≤ g.2

instance (s : Shared ι) (sequence : Int) : Decidable (s.IsGranted sequence) :=
  inferInstanceAs (Decidable (∃ g ∈ s.granted, _))

/-- All sequences above `v` are published, up to `v'`. -/
def IsPublished (s : Shared ι) (v v' : Int) : Prop :=
  ∀ k ∈ List.range (v' - v).toNat, s.published (v + 1 + k) = true

instance (s : Shared ι) (v v' : Int) : Decidable (s.IsPublished v v') :=
  inferInstanceAs (Decidable (∀ k ∈ List.range _, _))

/-- After a step of a call. -/
def after (s : Shared ι) (r : ClaimResult (ClaimCall ι) × MultiProducerSequencer ι) : Shared ι :=
  { s with
    sequencer := r.2
    granted :=
      match r.1 with
      | .claimed lo hi => (lo, hi) :: s.granted
      | _ => s.granted }

/-- The store of one flag by `publish`. -/
def setAvailable (s : Shared ι) (sequence : Int) : Shared ι :=
  { s with
    sequencer := s.sequencer.setAvailable sequence
    published := Function.update s.published sequence true }

end Shared

inductive ProducerAction where
  | call (op : ClaimOperation)
  | proceed (spurious : Bool)
  | setAvailable (sequence : Int)

/-- The call that a producer is in after a step. -/
def callAfter : ClaimResult (ClaimCall ι) → Option (ClaimCall ι)
  | .running call => some call
  | _ => none

/-- One step of a producer; a sequence is published once. -/
def producerStep (s : Shared ι) (l : Option (ClaimCall ι)) (a : ProducerAction) :
    Option (Shared ι × Option (ClaimCall ι)) :=
  match l, a with
  | none, .call op =>
    let r := (s.sequencer.enter op, s.sequencer)
    some (s.after r, callAfter r.1)
  | some call, .proceed spurious =>
    let r := s.sequencer.callStep s.values spurious call
    some (s.after r, callAfter r.1)
  | none, .setAvailable sequence =>
    if s.IsGranted sequence ∧ s.published sequence = false then
      some (s.setAvailable sequence, none)
    else none
  | _, _ => none

/-- A gating sequence advances over published sequences. -/
def gatingStep [DecidableEq ι] (i : ι) (s : Shared ι) (v : Int) : Option (Shared ι × Unit) :=
  if s.values i ≤ v ∧ s.IsPublished (s.values i) v then
    some ({ s with values := Function.update s.values i v }, ())
  else none

inductive Thread (P ι : Type) where
  | producer (p : P)
  | gating (i : ι)
  deriving DecidableEq

abbrev Local (P ι : Type) : Thread P ι → Type
  | .producer _ => Option (ClaimCall ι)
  | .gating _ => Unit

abbrev Action (P ι : Type) : Thread P ι → Type
  | .producer _ => ProducerAction
  | .gating _ => Int

def pool (P ι : Type) [DecidableEq ι] :
    ThreadPool (Thread P ι) (Shared ι) (Local P ι) (Action P ι) where
  step
    | .producer _ => producerStep
    | .gating i => fun s _ v => gatingStep i s v

def initialLocal : ∀ t : Thread P ι, Local P ι t
  | .producer _ => none
  | .gating _ => ()

/-- A new sequencer to which the gating sequences have been added. -/
def initial [DecidableEq ι] (b : BufferSize) (values : ι → Int) (sequences : List (Option ι)) :
    ThreadPool.Config (Shared ι) (Local P ι) :=
  let s : MultiProducerSequencer ι := { bufferSize := b }
  let r := s.addGatingSequences values sequences
  ⟨{ sequencer := r.2, values := r.1 }, initialLocal⟩

/-! ### The proof outline -/

/-- What every shared state satisfies. -/
structure Shared.Inv (b : BufferSize) (sequences : List (Option ι)) (s : Shared ι) : Prop where
  size : s.sequencer.bufferSize = b
  safe : s.sequencer.Safe s.values sequences
  cursor_ge : INITIAL_VALUE ≤ s.sequencer.cursor
  granted_nonneg : ∀ g ∈ s.granted, 0 ≤ g.1
  granted_room : ∀ g ∈ s.granted, s.sequencer.HasRoom s.values sequences g.2
  published_granted : ∀ sequence, s.published sequence = true → s.IsGranted sequence
  /-- The gating sequences have only passed published sequences. -/
  passed : ∀ i, some i ∈ sequences → ∀ sequence, 0 ≤ sequence → sequence ≤ s.values i →
    s.published sequence = true
  flags : ∀ i, some i ∈ sequences → s.sequencer.FlagsAbove s.published (s.values i)

/-- What a producer knows. -/
def ProducerHolds (sequences : List (Option ι)) (l : Option (ClaimCall ι)) (s : Shared ι) : Prop :=
  ∀ call, l = some call → call.Knows s.sequencer s.values sequences ∧
    ∀ lo hi, call.taken = some (lo, hi) → 0 ≤ lo

/-- What a producer relies on when another thread moves. -/
structure Rely (s s' : Shared ι) : Prop where
  bufferSize : s'.sequencer.bufferSize = s.sequencer.bufferSize
  values : ∀ i, s.values i ≤ s'.values i

variable {b : BufferSize} {sequences : List (Option ι)} {s s' : Shared ι}
  {l l' : Option (ClaimCall ι)} {a : ProducerAction}

/-- What was published is within the lap above every gating sequence. -/
lemma Shared.Inv.published_le (h : s.Inv b sequences) {i : ι} (hi : some i ∈ sequences)
    {sequence : Int} (hpublished : s.published sequence = true) :
    sequence ≤ s.values i + s.sequencer.getBufferSize := by
  obtain ⟨g, hg, -, hle⟩ := h.published_granted sequence hpublished
  have hroom := h.granted_room g hg i hi
  omega

lemma ProducerHolds.stable (h : ProducerHolds sequences l s) (hrely : Rely s s') :
    ProducerHolds sequences l s' := by
  intro call hcall
  obtain ⟨hknows, htaken⟩ := h call hcall
  exact ⟨hknows.mono hrely.bufferSize hrely.values, htaken⟩

/-- A step that leaves the flags, and may grant a range. -/
lemma Shared.Inv.after (h : s.Inv b sequences) {taken : Option (Int × Int)}
    (htaken : ∀ lo hi, taken = some (lo, hi) → 0 ≤ lo)
    {r : ClaimResult (ClaimCall ι) × MultiProducerSequencer ι}
    (hsafe : r.2.Safe s.values sequences)
    (hsound : Sound s.sequencer r.2 s.values sequences taken r.1)
    (hsize : r.2.bufferSize = s.sequencer.bufferSize)
    (hbuffer : r.2.availableBuffer = s.sequencer.availableBuffer) :
    (s.after r).Inv b sequences ∧ ProducerHolds sequences (callAfter r.1) (s.after r) ∧
      Rely s (s.after r) := by
  obtain ⟨result, m⟩ := r
  have hstart := h.cursor_ge
  have hcursor := hsound.cursor_le
  simp only [INITIAL_VALUE] at hstart
  have hsame : m.bufferSize = s.sequencer.bufferSize := hsize
  have hroom : ∀ g ∈ s.granted, m.HasRoom s.values sequences g.2 := by
    intro g hg i hi
    simp only [getBufferSize, hsame]
    exact h.granted_room g hg i hi
  have hgranted : ∀ sequence, s.published sequence = true →
      (s.after (result, m)).IsGranted sequence := by
    intro sequence hpublished
    obtain ⟨g, hg, hcovers⟩ := h.published_granted sequence hpublished
    refine ⟨g, ?_, hcovers⟩
    cases result with
    | claimed lo hi => exact List.mem_cons_of_mem _ hg
    | running call => exact hg
    | ended => exact hg
  have hnonneg : ∀ g ∈ (s.after (result, m)).granted,
      0 ≤ g.1 ∧ m.HasRoom s.values sequences g.2 := by
    have hold : ∀ g ∈ s.granted, 0 ≤ g.1 ∧ m.HasRoom s.values sequences g.2 :=
      fun g hg => ⟨h.granted_nonneg g hg, hroom g hg⟩
    cases result with
    | claimed lo hi =>
      refine List.forall_mem_cons.mpr ⟨⟨?_, hsound.2.1⟩, hold⟩
      rcases hsound.2.2 with ⟨-, heq⟩ | ⟨-, rfl, -⟩
      · exact htaken lo hi heq
      · simp only
        omega
    | running call => exact hold
    | ended => exact hold
  refine ⟨⟨hsize.trans h.size, hsafe, ?_, fun g hg => (hnonneg g hg).1,
    fun g hg => (hnonneg g hg).2, hgranted, h.passed, ?_⟩, ?_, ⟨hsize, fun _ => le_rfl⟩⟩
  · exact h.cursor_ge.trans hcursor
  · intro i hi
    exact (h.flags i hi).of_eq hsize hbuffer
  · intro call hcall
    cases result with
    | running call' =>
      obtain rfl := Option.some.inj hcall
      refine ⟨hsound.1, ?_⟩
      intro lo hi hrange
      rcases hsound.2 with ⟨-, heq⟩ | ⟨-, -, heq⟩
      · exact htaken lo hi (heq ▸ hrange)
      · obtain ⟨rfl, -⟩ := Prod.mk.inj (Option.some.inj (heq.symm.trans hrange))
        omega
    | claimed lo hi => cases hcall
    | ended => cases hcall

/-- What is granted and not published is within the lap above every gating sequence. -/
lemma Shared.Inv.setAvailable (h : s.Inv b sequences) {sequence : Int}
    (hgranted : s.IsGranted sequence) (hunpublished : s.published sequence = false) :
    (s.setAvailable sequence).Inv b sequences := by
  have hkeeps : ∀ t, s.published t = true → (s.setAvailable sequence).published t = true := by
    intro t ht
    by_cases heq : t = sequence
    · subst heq
      simp [Shared.setAvailable]
    · simpa only [Shared.setAvailable, Function.update_of_ne heq] using ht
  refine ⟨h.size, ⟨h.safe.gating, h.safe.cached_le⟩, h.cursor_ge, h.granted_nonneg,
    h.granted_room, ?_, fun i hi t ht ht' => hkeeps t (h.passed i hi t ht ht'), ?_⟩
  · intro t ht
    by_cases heq : t = sequence
    · rw [heq]
      exact hgranted
    · simp only [Shared.setAvailable, Function.update_of_ne heq] at ht
      exact h.published_granted t ht
  · intro i hi
    obtain ⟨g, hg, hlo, hhi⟩ := hgranted
    have hnonneg := h.granted_nonneg g hg
    have hroom := h.granted_room g hg i hi
    refine (h.flags i hi).setAvailable ?_ (by omega)
    by_contra hle
    have hpassed := h.passed i hi sequence (by omega) (by omega)
    rw [hunpublished] at hpassed
    cases hpassed

lemma Shared.IsPublished.at {v v' : Int} (h : s.IsPublished v v') {sequence : Int}
    (hlt : v < sequence) (hle : sequence ≤ v') : s.published sequence = true := by
  have hmem := h (sequence - v - 1).toNat (List.mem_range.mpr (by omega))
  have heq : v + 1 + ((sequence - v - 1).toNat : Int) = sequence := by omega
  rwa [heq] at hmem

/-- A gating sequence advances over published sequences. -/
lemma Shared.Inv.advance [DecidableEq ι] (h : s.Inv b sequences) {i : ι} {v : Int}
    (hle : s.values i ≤ v) (hpublished : s.IsPublished (s.values i) v) :
    Shared.Inv b sequences { s with values := Function.update s.values i v } ∧
      Rely s { s with values := Function.update s.values i v } := by
  have hvalues : ∀ j, s.values j ≤ Function.update s.values i v j := by
    intro j
    by_cases hj : j = i
    · subst hj
      simpa using hle
    · simp [Function.update_of_ne hj]
  refine ⟨⟨h.size, h.safe.mono hvalues, h.cursor_ge, h.granted_nonneg,
    fun g hg => (h.granted_room g hg).mono hvalues, h.published_granted, ?_, ?_⟩, rfl, hvalues⟩
  · intro j hj sequence hnonneg hbelow
    by_cases heq : j = i
    · subst heq
      simp only [Function.update_self] at hbelow
      by_cases hold : sequence ≤ s.values j
      · exact h.passed j hj sequence hnonneg hold
      · exact hpublished.at (by omega) hbelow
    · simp only [Function.update_of_ne heq] at hbelow
      exact h.passed j hj sequence hnonneg hbelow
  · intro j hj
    by_cases heq : j = i
    · subst heq
      simp only [Function.update_self]
      exact (h.flags j hj).advance (fun t ht ht' => hpublished.at ht ht')
        (fun t ht => h.published_le hj ht) hle
    · simp only [Function.update_of_ne heq]
      exact h.flags j hj

/-- A step of a producer. -/
lemma producerStep_sound (h : s.Inv b sequences) (hl : ProducerHolds sequences l s)
    (hs : producerStep s l a = some (s', l')) :
    s'.Inv b sequences ∧ ProducerHolds sequences l' s' ∧ Rely s s' := by
  unfold producerStep at hs
  split at hs
  · obtain ⟨rfl, rfl⟩ := Prod.mk.inj (Option.some.inj hs)
    have hnone : ∀ lo hi, (none : Option (Int × Int)) = some (lo, hi) → 0 ≤ lo := by
      rintro lo hi ⟨⟩
    exact h.after hnone h.safe enter_sound rfl rfl
  · rename_i call spurious
    obtain ⟨rfl, rfl⟩ := Prod.mk.inj (Option.some.inj hs)
    obtain ⟨hknows, htaken⟩ := hl call rfl
    obtain ⟨hsafe, hsound, hsize, hbuffer⟩ := h.safe.callStep hknows rfl
    exact h.after htaken hsafe hsound hsize hbuffer
  · split_ifs at hs with hguard
    obtain ⟨rfl, rfl⟩ := Prod.mk.inj (Option.some.inj hs)
    exact ⟨h.setAvailable hguard.1 hguard.2, by rintro call ⟨⟩, rfl, fun _ => le_rfl⟩
  · cases hs

lemma gatingStep_sound [DecidableEq ι] (h : s.Inv b sequences) {i : ι} {v : Int} {u : Unit}
    (hs : gatingStep i s v = some (s', u)) : s'.Inv b sequences ∧ Rely s s' := by
  unfold gatingStep at hs
  split_ifs at hs with hguard
  obtain ⟨rfl, -⟩ := Prod.mk.inj (Option.some.inj hs)
  exact h.advance hguard.1 hguard.2

/-- What each thread knows. -/
def Knows (sequences : List (Option ι)) : ∀ t : Thread P ι, Local P ι t → Shared ι → Prop
  | .producer _ => ProducerHolds sequences
  | .gating _ => fun _ _ => True

/-- The proof outline. -/
def outline (P : Type) [DecidableEq ι] (b : BufferSize) (sequences : List (Option ι)) :
    (pool P ι).Outline where
  inv := Shared.Inv b sequences
  assertion := Knows sequences
  rely _ := Rely
  step_inv := by
    intro t s l a s' l' h hl hs
    cases t with
    | producer p => exact (producerStep_sound h hl hs).1
    | gating i => exact (gatingStep_sound h hs).1
  step_assertion := by
    intro t s l a s' l' h hl hs
    cases t with
    | producer p => exact (producerStep_sound h hl hs).2.1
    | gating i => trivial
  step_rely := by
    intro t s l a s' l' h hl hs u hu
    cases t with
    | producer p => exact (producerStep_sound h hl hs).2.2
    | gating i => exact (gatingStep_sound h hs).2
  stable := by
    intro t l s s' _ _ hl hrely
    cases t with
    | producer p => exact ProducerHolds.stable hl hrely
    | gating i => trivial

lemma outline_initial [DecidableEq ι] (b : BufferSize) (values : ι → Int)
    (sequences : List (Option ι)) :
    (outline P b sequences).Holds (initial b values sequences) := by
  have hvalues : ∀ i, some i ∈ sequences →
      (initial (P := P) b values sequences).shared.values i = INITIAL_VALUE := by
    intro i hi
    have h := Gating.addGatingSequences_values ({} : Gating ι) values INITIAL_VALUE sequences i
    rw [if_pos hi] at h
    exact h
  constructor
  · refine ⟨rfl, ⟨⟨rfl, ?_⟩, fun i hi => (hvalues i hi).ge⟩, le_rfl, ?_, ?_, ?_, ?_, ?_⟩
    · rintro snap ⟨⟩
    · rintro g ⟨⟩
    · rintro g ⟨⟩
    · rintro sequence ⟨⟩
    · intro i hi sequence hnonneg hle
      rw [hvalues i hi, INITIAL_VALUE] at hle
      omega
    · intro i hi
      rw [hvalues i hi]
      exact flagsAbove_initial b _
  · intro t
    cases t with
    | producer p => rintro call ⟨⟩
    | gating i => trivial

/-- Above a gating sequence, the smallest one or any other, a sequence is available exactly when it
is published, as long as no more than `2 ^ 32 - 1` laps lie between that gating sequence and the
cursor; and `getHighestPublishedSequence` gives the last sequence up to which all are published. -/
theorem availability_exact [DecidableEq P] [DecidableEq ι] {b : BufferSize} {values : ι → Int}
    {sequences : List (Option ι)} {as : List (Σ t, Action P ι t)}
    {cfg : ThreadPool.Config (Shared ι) (Local P ι)}
    (hr : run (pool P ι).next (initial b values sequences) as = some cfg) {i : ι}
    (hi : some i ∈ sequences)
    (hfew : cfg.shared.sequencer.cursor - cfg.shared.values i ≤ (2 ^ 32 - 1) * b.size) :
    (∀ s, cfg.shared.values i < s → s ≤ cfg.shared.sequencer.cursor →
      (cfg.shared.sequencer.isAvailable s = true ↔ cfg.shared.published s = true)) ∧
    ∀ lo hi, cfg.shared.values i < lo → hi ≤ cfg.shared.sequencer.cursor →
      (lo ≤ hi → IsGreatest (PublishedUpTo cfg.shared.published lo hi)
        (cfg.shared.sequencer.getHighestPublishedSequence lo hi)) ∧
      (hi < lo → cfg.shared.sequencer.getHighestPublishedSequence lo hi = hi) := by
  have hinv := ((outline_initial b values sequences).run hr).shared
  have hexact : ∀ s, cfg.shared.values i < s → s ≤ cfg.shared.sequencer.cursor →
      (cfg.shared.sequencer.isAvailable s = true ↔ cfg.shared.published s = true) := by
    intro s hs hs'
    refine (hinv.flags i hi).isAvailable_iff (fun t ht => hinv.published_le hi ht) hs ?_
    rw [getBufferSize, hinv.size]
    omega
  refine ⟨hexact, ?_⟩
  intro lo hi hlo hhi
  unfold getHighestPublishedSequence
  constructor
  · intro hle
    apply highestPublishedFrom_isGreatest
    · omega
    · exact fun s hs hs' => hexact s (by omega) (by omega)
  · intro hlt
    have hcount : (hi + 1 - lo).toNat = 0 := by omega
    rw [hcount]
    rfl

/-- Two claims of a ring of two slots, the second of which is published first. -/
def secondFirst : List (Σ t, Action Bool Unit t) :=
  [⟨.producer true, .call (.next 1)⟩, ⟨.producer true, .proceed false⟩,
    ⟨.producer false, .call (.next 1)⟩, ⟨.producer false, .proceed false⟩,
    ⟨.producer false, .proceed false⟩, ⟨.producer true, .proceed false⟩,
    ⟨.producer false, .setAvailable 1⟩]

theorem availability_exact_secondFirst :
    ∃ cfg, run (pool Bool Unit).next (initial ⟨1, by decide⟩ (fun _ => 0) [some ()]) secondFirst =
        some cfg ∧
      (cfg.shared.sequencer.isAvailable 1 = true ↔ cfg.shared.published 1 = true) ∧
      cfg.shared.published 1 = true ∧
      IsGreatest (PublishedUpTo cfg.shared.published 0 1)
        (cfg.shared.sequencer.getHighestPublishedSequence 0 1) := by
  obtain ⟨cfg, hr, hpublished, hvalue, hcursor⟩ :
      ∃ cfg, run (pool Bool Unit).next (initial ⟨1, by decide⟩ (fun _ => 0) [some ()]) secondFirst =
          some cfg ∧
        cfg.shared.published 1 = true ∧ cfg.shared.values () = -1 ∧
        cfg.shared.sequencer.cursor = 1 := ⟨_, rfl, rfl, rfl, rfl⟩
  obtain ⟨hexact, hhighest⟩ := availability_exact hr (i := ()) List.mem_cons_self (by
    rw [hcursor, hvalue]
    decide)
  refine ⟨cfg, hr, hexact 1 ?_ ?_, hpublished, (hhighest 0 1 ?_ ?_).1 (by decide)⟩
  all_goals first
    | rw [hvalue]; decide
    | rw [hcursor]

/-! ### One lap more -/

/-- `k` producers of a ring of two slots take one sequence each off the cursor, and wait. -/
def waiting (k : Nat) : List (Σ t, Action Nat Unit t) :=
  (List.range k).flatMap fun p =>
    [⟨.producer p, .call (.next 1)⟩, ⟨.producer p, .proceed false⟩]

/-- Nothing but the cursor has moved while `k` producers wait. -/
lemma run_waiting (k : Nat) :
    ∃ cfg, run (pool Nat Unit).next (initial ⟨1, by decide⟩ (fun _ => 0) [some ()]) (waiting k) =
        some cfg ∧
      cfg.shared.sequencer.bufferSize = ⟨1, by decide⟩ ∧
      cfg.shared.sequencer.cursor = k - 1 ∧
      cfg.shared.sequencer.availableBuffer = (fun _ => -1) ∧
      cfg.shared.values () = -1 ∧ cfg.shared.published = (fun _ => false) ∧
      ∀ p, k ≤ p → cfg.threads (.producer p) = none := by
  induction k with
  | zero => exact ⟨_, rfl, rfl, rfl, rfl, rfl, rfl, fun _ _ => rfl⟩
  | succ k ih =>
    obtain ⟨cfg, hr, hsize, hcursor, hflags, hvalue, hpublished, hidle⟩ := ih
    have hnone := hidle k le_rfl
    have henter : cfg.shared.sequencer.enter (.next 1) = .running (.nextAdd 1) := by
      simp [enter, getBufferSize, hsize, BufferSize.size]
    have hcall : (pool Nat Unit).next cfg ⟨.producer k, .call (.next 1)⟩ =
        some ⟨cfg.shared, Function.update cfg.threads (.producer k) (some (.nextAdd 1))⟩ := by
      simp [ThreadPool.next, pool, producerStep, hnone, henter, Shared.after, callAfter]
    have hproceed : (pool Nat Unit).next
        ⟨cfg.shared, Function.update cfg.threads (.producer k) (some (.nextAdd 1))⟩
        ⟨.producer k, .proceed false⟩ =
          some ⟨{ cfg.shared with
              sequencer := { cfg.shared.sequencer with
                cursor := cfg.shared.sequencer.cursor + 1 } },
            Function.update cfg.threads (.producer k)
              (some (.nextReadCache 1 cfg.shared.sequencer.cursor))⟩ := by
      simp [ThreadPool.next, pool, producerStep, callStep, Shared.after, callAfter]
    have hwaiting : waiting (k + 1) = waiting k ++
        [⟨.producer k, .call (.next 1)⟩, ⟨.producer k, .proceed false⟩] := by
      simp [waiting, List.range_succ]
    have hrun : run (pool Nat Unit).next (initial ⟨1, by decide⟩ (fun _ => 0) [some ()])
        (waiting (k + 1)) = (pool Nat Unit).next
          ⟨cfg.shared, Function.update cfg.threads (.producer k) (some (.nextAdd 1))⟩
          ⟨.producer k, .proceed false⟩ := by
      rw [hwaiting, run_append, hr, Option.bind_some, run_cons, hcall, Option.bind_some, run_cons,
        hproceed]
      rfl
    rw [hproceed] at hrun
    refine ⟨_, hrun, hsize, ?_, hflags, hvalue, hpublished, ?_⟩
    · simp only [hcursor]
      push_cast
      omega
    · intro p hp
      have hne : Thread.producer p ≠ (.producer k : Thread Nat Unit) := by
        rintro ⟨⟩
        omega
      simp only [Function.update_of_ne hne]
      exact hidle p (by omega)

/-- With one sequence more between the gating sequence and the cursor, the initial flag of a slot is
also the flag of a sequence that was claimed and never published. -/
theorem isAvailable_lapAhead :
    ∃ cfg, run (pool Nat Unit).next (initial ⟨1, by decide⟩ (fun _ => 0) [some ()])
        (waiting (2 ^ 33 - 1)) = some cfg ∧
      cfg.shared.sequencer.cursor - cfg.shared.values () < 2 ^ 32 * 2 ∧
      cfg.shared.values () < 2 ^ 33 - 2 ∧ 2 ^ 33 - 2 ≤ cfg.shared.sequencer.cursor ∧
      cfg.shared.sequencer.isAvailable (2 ^ 33 - 2) = true ∧
      cfg.shared.published (2 ^ 33 - 2) = false := by
  obtain ⟨cfg, hr, hsize, hcursor, hflags, hvalue, hpublished, -⟩ := run_waiting (2 ^ 33 - 1)
  have hflag : calculateAvailabilityFlag ⟨1, by decide⟩ (2 ^ 33 - 2) = -1 := by decide
  refine ⟨cfg, hr, ?_, ?_, ?_, ?_, ?_⟩
  · rw [hcursor, hvalue]
    decide
  · rw [hvalue]
    decide
  · rw [hcursor]
    decide
  · rw [isAvailable_eq_true, hsize, hflags, hflag]
  · rw [hpublished]

end Disruptor.Availability
