import Disruptor.Core.ThreadPool
import Disruptor.Dsl.Disruptor
import Mathlib.Data.List.Range

/-!
# `start(startupLatch)`

`start` has one thread created for each consumer, and the first thing such a thread does is to count
the latch down. When `newThread` throws, `EventProcessorInfo::start` counts down in its place and
throws the exception again. The threads that were created run while others are still being created.
-/

namespace Disruptor.Dsl.StartupLatch

open Disruptor.Core

variable {H X : Type}

/-- What the threads share. -/
structure Shared (H X : Type) where
  disruptor : Disruptor H X
  /-- How often `startupLatch->count_down()` was called. -/
  countDowns : Nat := 0
  /-- The positions of the consumers whose threads were created, the latest first. -/
  created : List Nat := []

/-- Where `start` is. -/
inductive MainPc where
  | checkOnlyStartedOnce
  /-- In `startAll`, before `newThread` for the consumer at `position`, if there is one. -/
  | newThread (position : Nat)
  /-- In `catch (...)`, before `startupLatch->count_down()`. -/
  | countDown
  | returned
  | thrown
  deriving DecidableEq, Repr

/-- `start` has returned or thrown. -/
def MainPc.HasEnded (pc : MainPc) : Prop := pc = .returned ∨ pc = .thrown

/-- Where a created thread is. -/
inductive ThreadPc where
  | countDown
  | run
  deriving DecidableEq, Repr

/-- One step of `start`, where `throws` tells for which consumers `newThread` throws. -/
def mainStep (throws : Nat → Bool) (s : Shared H X) : MainPc → Option (Shared H X × MainPc)
  | .checkOnlyStartedOnce =>
    if s.disruptor.started then some (s, .thrown)
    else some ({ s with disruptor := { s.disruptor with started := true } }, .newThread 0)
  | .newThread position =>
    if position < s.disruptor.consumerRepository.consumerInfos.length then
      if throws position then some (s, .countDown)
      else some ({ s with created := position :: s.created }, .newThread (position + 1))
    else some (s, .returned)
  | .countDown => some ({ s with countDowns := s.countDowns + 1 }, .thrown)
  | .returned | .thrown => none

/-- The first step of the thread for the consumer at `position`. -/
def threadStep (s : Shared H X) (position : Nat) : ThreadPc → Option (Shared H X × ThreadPc)
  | .countDown =>
    if position ∈ s.created then some ({ s with countDowns := s.countDowns + 1 }, .run) else none
  | .run => none

inductive Thread where
  | main
  | consumer (position : Nat)
  deriving DecidableEq

/-- The local state of a thread. -/
abbrev Local : Thread → Type
  | .main => MainPc
  | .consumer _ => ThreadPc

/-- The thread that calls `start`, and those that are created. -/
def pool (H X : Type) (throws : Nat → Bool) :
    ThreadPool Thread (Shared H X) Local fun _ => Unit where
  step
    | .main, s, pc, _ => mainStep throws s pc
    | .consumer position, s, pc, _ => threadStep s position pc

abbrev Config (H X : Type) := ThreadPool.Config (Shared H X) Local

/-- Before `start` is called. -/
def initial (d : Disruptor H X) : Config H X where
  shared := { disruptor := d }
  threads
    | .main => .checkOnlyStartedOnce
    | .consumer _ => .countDown

/-- `getProcessorCount()`. -/
def getProcessorCount (d : Disruptor H X) : Nat := d.consumerRepository.consumerInfos.length

/-- Where `start` is in a state of the pool. -/
def mainPc (c : Config H X) : MainPc := c.threads .main

/-- A created thread has taken its first step. -/
def HasRun (c : Config H X) (position : Nat) : Prop := c.threads (.consumer position) = .run

instance (c : Config H X) (position : Nat) : Decidable (HasRun c position) :=
  inferInstanceAs (Decidable (_ = _))

/-- `start` has ended, and every created thread has taken its first step. -/
structure Settled (c : Config H X) : Prop where
  ended : (mainPc c).HasEnded
  hasRun : ∀ position ∈ c.shared.created, HasRun c position

variable {throws : Nat → Bool} {d : Disruptor H X} {c c' : Config H X} {s s' : Shared H X}

/-! ### What has been counted -/

/-- No thread creation has failed before `position`. -/
def NoneThrown (throws : Nat → Bool) (position : Nat) : Prop := ∀ i < position, throws i = false

/-- `startAll` has come to `position`. -/
structure CameTo (throws : Nat → Bool) (d : Disruptor H X) (position : Nat) (s : Shared H X) :
    Prop where
  first : d.started = false
  le_count : position ≤ getProcessorCount d
  created_eq : s.created = (List.range position).reverse
  noneThrown : NoneThrown throws position

/-- `newThread` has thrown for the consumer at `position`. -/
structure FailedAt (throws : Nat → Bool) (d : Disruptor H X) (position : Nat) (s : Shared H X) :
    Prop extends CameTo throws d position s where
  lt_count : position < getProcessorCount d
  failed : throws position = true

/-- What is known where `start` is; the last argument is how often it has counted down itself. -/
def Reached (throws : Nat → Bool) (d : Disruptor H X) (s : Shared H X) : MainPc → Nat → Prop
  | .checkOnlyStartedOnce, own => s.created = [] ∧ s.disruptor = d ∧ own = 0
  | .newThread position, own => CameTo throws d position s ∧ own = 0
  | .countDown, own => (∃ position, FailedAt throws d position s) ∧ own = 0
  | .returned, own => CameTo throws d (getProcessorCount d) s ∧ own = 0
  | .thrown, own =>
    d.started = true ∧ s.created = [] ∧ own = 0 ∨
      (∃ position, FailedAt throws d position s) ∧ own = 1

/-- Counting down does not show where `start` is. -/
lemma Reached.countDowns {pc : MainPc} {own : Nat} (h : Reached throws d s pc own) (n : Nat) :
    Reached throws d { s with countDowns := n } pc own := by
  cases pc with
  | checkOnlyStartedOnce => exact h
  | newThread position => exact ⟨⟨h.1.first, h.1.le_count, h.1.created_eq, h.1.noneThrown⟩, h.2⟩
  | countDown =>
    obtain ⟨⟨position, hfailed⟩, hown⟩ := h
    exact ⟨⟨position, ⟨⟨hfailed.first, hfailed.le_count, hfailed.created_eq, hfailed.noneThrown⟩,
      hfailed.lt_count, hfailed.failed⟩⟩, hown⟩
  | returned => exact ⟨⟨h.1.first, h.1.le_count, h.1.created_eq, h.1.noneThrown⟩, h.2⟩
  | thrown =>
    rcases h with hagain | ⟨⟨position, hfailed⟩, hown⟩
    · exact Or.inl hagain
    · exact Or.inr ⟨⟨position, ⟨⟨hfailed.first, hfailed.le_count, hfailed.created_eq,
        hfailed.noneThrown⟩, hfailed.lt_count, hfailed.failed⟩⟩, hown⟩

structure Inv (throws : Nat → Bool) (d : Disruptor H X) (c : Config H X) : Prop where
  repository : c.shared.disruptor.consumerRepository = d.consumerRepository
  nodup : c.shared.created.Nodup
  created_of_hasRun : ∀ position, HasRun c position → position ∈ c.shared.created
  /-- `start` has counted down at most once, and the threads that have run once each. -/
  counted : ∃ own, Reached throws d c.shared (mainPc c) own ∧
    c.shared.countDowns = c.shared.created.countP (HasRun c ·) + own

lemma initial_inv (throws : Nat → Bool) (d : Disruptor H X) : Inv throws d (initial d) := by
  refine ⟨rfl, List.nodup_nil, ?_, 0, ⟨rfl, rfl, rfl⟩, rfl⟩
  rintro position ⟨⟩

/-! ### Steps -/

/-- One more element of a list has come to satisfy a predicate. -/
lemma countP_succ {l : List Nat} {p q : Nat → Prop} [DecidablePred p] [DecidablePred q] {a : Nat}
    (hnodup : l.Nodup) (ha : a ∈ l) (hp : ¬ p a) (hq : q a) (hother : ∀ b, b ≠ a → (q b ↔ p b)) :
    l.countP (q ·) = l.countP (p ·) + 1 := by
  induction l with
  | nil => cases ha
  | cons b l ih =>
    obtain ⟨hb, hnodup⟩ := List.nodup_cons.mp hnodup
    rcases List.mem_cons.mp ha with rfl | ha
    · have hrest : l.countP (q ·) = l.countP (p ·) := by
        apply List.countP_congr
        intro x hx
        simp only [decide_eq_true_eq]
        apply hother
        rintro rfl
        exact hb hx
      simp [hp, hq, hrest]
    · have hne : b ≠ a := by
        rintro rfl
        exact hb ha
      simp only [List.countP_cons, ih hnodup ha, hother b hne]
      omega

/-- `start` takes a step. -/
lemma mainStep_inv (h : Inv throws d c) {pc' : MainPc}
    (hs : mainStep throws c.shared (mainPc c) = some (s', pc')) :
    Inv throws d ⟨s', Function.update c.threads .main pc'⟩ := by
  obtain ⟨hrepository, hnodup, hcreated, own, hreached, hcount⟩ := h
  have hrun : ∀ position, HasRun (⟨s', Function.update c.threads .main pc'⟩ : Config H X) position ↔
      HasRun c position := by
    intro position
    simp [HasRun]
  have hpc : mainPc (⟨s', Function.update c.threads .main pc'⟩ : Config H X) = pc' := by
    simp [mainPc]
  have hcountP : ∀ l : List Nat,
      l.countP (HasRun (⟨s', Function.update c.threads .main pc'⟩ : Config H X) ·) =
        l.countP (HasRun c ·) := by
    intro l
    simp only [hrun]
  unfold mainStep at hs
  split at hs
  · rename_i hat
    rw [hat] at hreached
    obtain ⟨hnil, hd, rfl⟩ := hreached
    split_ifs at hs with hstarted
    · obtain ⟨rfl, rfl⟩ := Prod.mk.inj (Option.some.inj hs)
      refine ⟨hrepository, hnodup, ?_, 0, ?_, ?_⟩
      · simpa only [hrun] using hcreated
      · rw [hpc]
        exact Or.inl ⟨hd ▸ hstarted, hnil, rfl⟩
      · rw [hcountP, hcount]
    · obtain ⟨rfl, rfl⟩ := Prod.mk.inj (Option.some.inj hs)
      refine ⟨hrepository, hnodup, ?_, 0, ?_, ?_⟩
      · simpa only [hrun] using hcreated
      · rw [hpc]
        refine ⟨⟨?_, Nat.zero_le _, hnil, ?_⟩, rfl⟩
        · rw [← hd]
          exact Bool.eq_false_iff.mpr hstarted
        · rintro i ⟨⟩
      · rw [hcountP, hcount]
  · rename_i position hat
    rw [hat] at hreached
    obtain ⟨hcame, rfl⟩ := hreached
    rw [hrepository] at hs
    split_ifs at hs with hmore hthrows
    · obtain ⟨rfl, rfl⟩ := Prod.mk.inj (Option.some.inj hs)
      refine ⟨hrepository, hnodup, ?_, 0, ?_, ?_⟩
      · simpa only [hrun] using hcreated
      · rw [hpc]
        exact ⟨⟨position, hcame, hmore, hthrows⟩, rfl⟩
      · rw [hcountP, hcount]
    · obtain ⟨rfl, rfl⟩ := Prod.mk.inj (Option.some.inj hs)
      have hnew : position ∉ c.shared.created := by
        rw [hcame.created_eq]
        simp
      refine ⟨hrepository, List.nodup_cons.mpr ⟨hnew, hnodup⟩, ?_, 0, ?_, ?_⟩
      · intro i hi
        exact List.mem_cons_of_mem _ (hcreated i ((hrun i).mp hi))
      · rw [hpc]
        refine ⟨⟨hcame.first, hmore, ?_, ?_⟩, rfl⟩
        · simp [hcame.created_eq, List.range_succ]
        · intro i hi
          rcases Nat.lt_succ_iff_lt_or_eq.mp hi with hlt | rfl
          · exact hcame.noneThrown i hlt
          · exact Bool.eq_false_iff.mpr hthrows
      · -- the new thread has not run yet
        have hnot : ¬ HasRun c position := fun hran => hnew (hcreated position hran)
        rw [hcountP, List.countP_cons_of_neg (by simpa using hnot)]
        exact hcount
    · obtain ⟨rfl, rfl⟩ := Prod.mk.inj (Option.some.inj hs)
      refine ⟨hrepository, hnodup, ?_, 0, ?_, ?_⟩
      · simpa only [hrun] using hcreated
      · rw [hpc]
        have hend : position = getProcessorCount d := le_antisymm hcame.le_count (not_lt.mp hmore)
        exact ⟨hend ▸ hcame, rfl⟩
      · rw [hcountP, hcount]
  · rename_i hat
    rw [hat] at hreached
    obtain ⟨⟨position, hfailed⟩, rfl⟩ := hreached
    obtain ⟨rfl, rfl⟩ := Prod.mk.inj (Option.some.inj hs)
    refine ⟨hrepository, hnodup, ?_, 1, ?_, ?_⟩
    · simpa only [hrun] using hcreated
    · rw [hpc]
      refine Or.inr ⟨⟨position, ⟨⟨hfailed.first, hfailed.le_count, hfailed.created_eq,
        hfailed.noneThrown⟩, hfailed.lt_count, hfailed.failed⟩⟩, rfl⟩
    · simp only [hcount]
      rfl
  · cases hs
  · cases hs

/-- A created thread takes its first step. -/
lemma threadStep_inv (h : Inv throws d c) {position : Nat} {pc' : ThreadPc}
    (hs : threadStep c.shared position (c.threads (.consumer position)) = some (s', pc')) :
    Inv throws d ⟨s', Function.update c.threads (.consumer position) pc'⟩ := by
  obtain ⟨hrepository, hnodup, hcreated, own, hreached, hcount⟩ := h
  unfold threadStep at hs
  split at hs
  · rename_i hat
    split_ifs at hs with hmem
    obtain ⟨rfl, rfl⟩ := Prod.mk.inj (Option.some.inj hs)
    have hself : HasRun (⟨{ c.shared with countDowns := c.shared.countDowns + 1 },
        Function.update c.threads (.consumer position) .run⟩ : Config H X) position := by
      simp [HasRun]
    have hother : ∀ i, i ≠ position →
        (HasRun (⟨{ c.shared with countDowns := c.shared.countDowns + 1 },
          Function.update c.threads (.consumer position) .run⟩ : Config H X) i ↔ HasRun c i) := by
      intro i hi
      simp [HasRun, Function.update_of_ne, hi]
    refine ⟨hrepository, hnodup, ?_, own, ?_, ?_⟩
    · intro i hi
      by_cases heq : i = position
      · exact heq ▸ hmem
      · exact hcreated i ((hother i heq).mp hi)
    · simpa [mainPc] using hreached.countDowns (c.shared.countDowns + 1)
    · have hnot : ¬ HasRun c position := by
        rw [HasRun, hat]
        rintro ⟨⟩
      rw [countP_succ hnodup hmem hnot hself hother]
      show c.shared.countDowns + 1 = _
      omega
  · cases hs

lemma inv_of_run {as : List (Σ _ : Thread, Unit)}
    (hr : run (pool H X throws).next (initial d) as = some c) : Inv throws d c := by
  refine run_invariant (Inv throws d) ?_ (initial_inv throws d) hr
  rintro c ⟨t, a⟩ c' h hs
  obtain ⟨s', l', hstep, rfl⟩ := (pool H X throws).next_eq_some.mp hs
  cases t with
  | main => exact mainStep_inv h hstep
  | consumer position => exact threadStep_inv h hstep

/-! ### How often the latch is counted down -/

/-- When `start` has ended and the created threads have run, the latch has been counted down once
for each consumer, if and only if no consumer was passed over: `start` was not called before, and
`newThread` has thrown for no consumer but the last one (or there is no consumer at all). -/
theorem countDowns_eq_iff (throws : Nat → Bool) (d : Disruptor H X)
    {as : List (Σ _ : Thread, Unit)} (hr : run (pool H X throws).next (initial d) as = some c)
    (hsettled : Settled c) :
    c.shared.countDowns = getProcessorCount d ↔
      getProcessorCount d = 0 ∨
        d.started = false ∧
          ∀ position, position + 1 < getProcessorCount d → throws position = false := by
  obtain ⟨-, -, -, own, hreached, hcount⟩ := inv_of_run hr
  have hall : c.shared.created.countP (HasRun c ·) = c.shared.created.length := by
    rw [List.countP_eq_length]
    intro i hi
    exact decide_eq_true (hsettled.hasRun i hi)
  rw [hall] at hcount
  rcases hsettled.ended with hend | hend
  · rw [hend] at hreached
    obtain ⟨hcame, rfl⟩ := hreached
    rw [hcame.created_eq] at hcount
    refine iff_of_true (by simpa using hcount) (Or.inr ⟨hcame.first, ?_⟩)
    intro i hi
    exact hcame.noneThrown i (by omega)
  · rw [hend] at hreached
    rcases hreached with ⟨hstarted, hnil, rfl⟩ | ⟨⟨position, hfailed⟩, rfl⟩
    · have hzero : c.shared.countDowns = 0 := by simpa [hnil] using hcount
      rw [hzero, hstarted]
      simp only [Bool.true_eq_false, false_and, or_false]
      exact eq_comm
    · have hposition : c.shared.countDowns = position + 1 := by
        simpa [hfailed.created_eq] using hcount
      have hlt := hfailed.lt_count
      rw [hposition]
      constructor
      · intro hlast
        refine Or.inr ⟨hfailed.first, ?_⟩
        intro i hi
        exact hfailed.noneThrown i (by omega)
      · rintro (hnone | ⟨-, hquiet⟩)
        · omega
        · -- the failure was the last consumer's
          by_contra hmore
          have hearly := hquiet position (by omega)
          rw [hfailed.failed] at hearly
          cases hearly

/-- Two consumers; the thread of the first cannot be created, and the second is passed over. -/
def twoConsumers : Disruptor Bool Empty where
  sequencer := Sequencer.initial .SINGLE ⟨0, by decide⟩ {}
  consumerRepository := { consumerInfos := [⟨.created 0, true⟩, ⟨.created 1, true⟩] }

theorem firstFails_notCountedDown :
    ∃ c, run (pool Bool Empty (· == 0)).next (initial twoConsumers)
        [⟨.main, ()⟩, ⟨.main, ()⟩, ⟨.main, ()⟩] = some c ∧
      Settled c ∧ getProcessorCount twoConsumers = 2 ∧ c.shared.countDowns = 1 := by
  refine ⟨_, rfl, ⟨Or.inr rfl, ?_⟩, rfl, rfl⟩
  rintro position ⟨⟩

theorem countDowns_eq_iff_lastFails :
    ∃ c, run (pool Bool Empty (· == 1)).next (initial twoConsumers)
        [⟨.main, ()⟩, ⟨.main, ()⟩, ⟨.main, ()⟩, ⟨.main, ()⟩, ⟨.consumer 0, ()⟩] = some c ∧
      c.shared.countDowns = getProcessorCount twoConsumers := by
  obtain ⟨c, hr, hsettled⟩ : ∃ c, run (pool Bool Empty (· == 1)).next (initial twoConsumers)
      [⟨.main, ()⟩, ⟨.main, ()⟩, ⟨.main, ()⟩, ⟨.main, ()⟩, ⟨.consumer 0, ()⟩] = some c ∧
        Settled c := by
    refine ⟨_, rfl, Or.inr rfl, ?_⟩
    intro position hposition
    obtain rfl : position = 0 := List.mem_singleton.mp hposition
    rfl
  refine ⟨c, hr, (countDowns_eq_iff _ _ hr hsettled).mpr (Or.inr ⟨rfl, ?_⟩)⟩
  intro position hposition
  obtain rfl : position = 0 := by
    have hlt : position + 1 < 2 := hposition
    omega
  rfl

end Disruptor.Dsl.StartupLatch
